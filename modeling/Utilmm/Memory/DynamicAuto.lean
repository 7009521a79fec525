import Utilmm.Core.Ledger
import Utilmm.Memory.DynamicPool

/-!
# The owners of the buffers

A client may leave a buffer of a pool to a `dynamic_auto`, which deletes it without asking the
pool. `dynamic_auto::reset` takes another buffer and forgets the one which it had.
-/

namespace Utilmm.DynamicAuto

open DynamicPool

/-- A pool, its clients and the `dynamic_auto` objects. -/
structure State where
  world : World
  /-- The pool is gone. -/
  destroyed : Bool
  /-- The pointers of the clients. -/
  raw : List Nat
  /-- `m_ptr` of each object, `none` once it is destroyed. -/
  autos : List (Option Nat)
  /-- The buffers to which nothing points any more. -/
  lost : List Nat

def new : State := ⟨empty, false, [], [], []⟩

inductive Op
  | allocate (size : UInt32) (address : Option Nat)
  | deallocate (ptr : Nat)
  /-- `dynamic_auto::dynamic_auto` -/
  | make (ptr : Nat)
  /-- `dynamic_auto::reset` of object `i` -/
  | reset (i : Nat) (ptr : Nat)
  /-- `dynamic_auto::release` -/
  | release (i : Nat)
  /-- `dynamic_auto::~dynamic_auto` -/
  | drop (i : Nat)
  /-- `dynamic_pool::~dynamic_pool` -/
  | destroy
  deriving DecidableEq, Repr

/-- The buffer behind a pointer which is not null. -/
def buffer (ptr : Nat) : Option Nat := if ptr = 0 then none else some (getBase ptr)

namespace State

/-- `m_ptr` of a living object. -/
def ptr (s : State) (i : Nat) : Option Nat := s.autos[i]?.join

/-- `dynamic_auto::~dynamic_auto` of an object with the given pointer. -/
def deleteAuto (heap : Nat → Option Item) (ptr : Nat) : Except Fault (Nat → Option Item) :=
  if ptr ≠ 0 then delete heap (getBase ptr) else .ok heap

def exec (s : State) : Op → Except Fault State
  | .allocate size address => do
    let (ptr, world) ← s.world.allocate size address
    return { s with world, raw := ptr.toList ++ s.raw }
  | .deallocate ptr => do
    let world ← s.world.deallocate ptr
    return { s with world, raw := s.raw.erase ptr }
  | .make ptr => return { s with raw := s.raw.erase ptr, autos := s.autos ++ [some ptr] }
  | .reset i ptr =>
    return { s with
      raw := s.raw.erase ptr
      autos := s.autos.set i (some ptr)
      lost := ((s.ptr i).bind buffer).toList ++ s.lost }
  | .release i =>
    return { s with
      raw := ((s.ptr i).filter (· ≠ 0)).toList ++ s.raw
      autos := s.autos.set i (some 0) }
  | .drop i => do
    let heap ← deleteAuto s.world.heap ((s.ptr i).getD 0)
    return { s with world := { s.world with heap }, autos := s.autos.set i none }
  | .destroy => do
    let heap ← sweepArrays s.world.heap s.world.free
    return { s with world := { s.world with heap, free := [] }, destroyed := true }

/-- The clients pass pointers which are theirs, call no object which is gone, and `new` returns what
is not on the heap. -/
def Legal (s : State) : Op → Prop
  | .allocate size address => s.destroyed = false ∧ s.world.Vacant size address
  | .deallocate ptr => s.destroyed = false ∧ (ptr = 0 ∨ ptr ∈ s.raw)
  | .make ptr => ptr = 0 ∨ ptr ∈ s.raw
  | .reset i ptr => (s.ptr i).isSome ∧ (ptr = 0 ∨ ptr ∈ s.raw)
  | .release i | .drop i => (s.ptr i).isSome
  | .destroy => s.destroyed = false

/-- The buffers of the objects. -/
def guarded (s : State) : List Nat := s.autos.filterMap (·.bind buffer)

/-- The buffers with their owners: the pool, a client, an object, or nobody. -/
def holdings (s : State) : Multiset Nat :=
  s.world.free + (s.raw.map getBase + (s.guarded + s.lost))

/-- The pool and the objects are gone, and the clients have given back what they had. -/
def Over (s : State) : Prop := s.destroyed ∧ s.raw = [] ∧ ∀ a ∈ s.autos, a = none

/-- No object is reset that has a buffer. -/
def Spares (s : State) : Op → Prop
  | .reset i _ => s.ptr i = some 0
  | _ => True

end State

def machine : Machine State Op Fault where
  legal := State.Legal
  step := State.exec

/-! ### Buffers on the heap -/

/-- The buffers on the heap. -/
def alive (heap : Nat → Option Item) (item : Nat) : Bool := (heap item).isSome

section Heap

variable {heap : Nat → Option Item} {item : Nat} {held : Multiset Nat}

lemma alive_update (heap : Nat → Option Item) (item : Nat) (x : Option Item) :
    alive (Function.update heap item x) = Function.update (alive heap) item x.isSome := by
  funext item'
  by_cases heq : item' = item
  · subst heq
    simp [alive]
  · simp [alive, heq]

lemma eq_none_iff (h : Ledger.Balanced (Ledger.single (alive heap)) held) :
    heap item = none ↔ item ∉ held := by
  rw [← h.not_alive_iff, alive, Option.isSome_eq_false_iff, Option.isNone_iff_eq_none]

lemma balanced_new (h : Ledger.Balanced (Ledger.single (alive heap)) held)
    (hitem : heap item = none) (x : Item) : Ledger.Balanced
      (Ledger.single (alive (Function.update heap item (some x)))) (item ::ₘ held) := by
  rw [alive_update]
  exact h.create (by simp [alive, hitem])

lemma balanced_delete (h : Ledger.Balanced (Ledger.single (alive heap)) (item ::ₘ held)) :
    delete heap item = .ok (Function.update heap item none) ∧
      Ledger.Balanced (Ledger.single (alive (Function.update heap item none))) held := by
  obtain ⟨hitem, hrest⟩ := h.delete
  refine ⟨if_pos hitem, ?_⟩
  rw [alive_update]
  exact hrest

lemma balanced_sweep {items : List Nat}
    (h : Ledger.Balanced (Ledger.single (alive heap)) (items + held)) :
    ∃ heap', sweepArrays heap items = .ok heap' ∧
      Ledger.Balanced (Ledger.single (alive heap')) held := by
  induction items generalizing heap with
  | nil => exact ⟨heap, rfl, by simpa using h⟩
  | cons item items ih =>
    rw [← Multiset.cons_coe, Multiset.cons_add] at h
    obtain ⟨hdelete, hrest⟩ := balanced_delete h
    obtain ⟨heap', hsweep, hheap'⟩ := ih hrest
    exact ⟨heap', by rw [sweepArrays, hdelete]; exact hsweep, hheap'⟩

end Heap

/-! ### Sound states -/

/-- Each buffer on the heap has one owner. -/
structure State.Sound (s : State) : Prop where
  balanced : Ledger.Balanced (Ledger.single (alive s.world.heap)) s.holdings
  raw_ne : 0 ∉ s.raw
  /-- A pool which is gone has no buffers. -/
  free_eq : s.destroyed = true → s.world.free = []

section Holdings

variable {raw : List Nat} {ptr : Nat}

@[simp] lemma buffer_zero : buffer 0 = none := rfl

/-- A client parts with a pointer, or passes null. -/
lemma map_getBase_erase (hraw : 0 ∉ raw) (hptr : ptr = 0 ∨ ptr ∈ raw) :
    (raw.map getBase : Multiset Nat) = (buffer ptr).toList + (raw.erase ptr).map getBase := by
  by_cases hzero : ptr = 0
  · subst hzero
    simp [List.erase_of_not_mem hraw]
  · have hperm := (List.perm_cons_erase (hptr.resolve_left hzero)).map getBase
    rw [buffer, if_neg hzero, Multiset.coe_eq_coe.mpr hperm]
    rfl

lemma zero_notMem_erase (hraw : 0 ∉ raw) : 0 ∉ raw.erase ptr :=
  fun h => hraw (List.mem_of_mem_erase h)

end Holdings

namespace State.Sound

variable {s : State}

lemma new : Sound new where
  balanced := Ledger.Balanced.empty
  raw_ne := by simp [DynamicAuto.new]
  free_eq := fun _ => rfl

/-- The pool lets the free buffers go when it grows. -/
lemma grow (h : s.Sound) (size : UInt32) : ∃ w, s.world.grow size = .ok w ∧
    Sound { s with world := w } := by
  by_cases hlt : s.world.size < size
  · obtain ⟨heap, hsweep, hheap⟩ := balanced_sweep h.balanced
    refine ⟨⟨size, [], heap⟩, ?_, ?_, h.raw_ne, fun _ => rfl⟩
    · rw [World.grow, if_pos hlt, hsweep]
      rfl
    · simpa [holdings, guarded] using hheap
  · exact ⟨s.world, if_neg hlt, h⟩

lemma take (h : s.Sound) (hthere : s.destroyed = false) {address : Option Nat}
    (haddress : ∀ a, address = some a → s.world.heap a = none) :
    Sound { s with
      world := (s.world.take address).2
      raw := (s.world.take address).1.toList ++ s.raw } := by
  have hraw : ∀ item, 0 ∉ payload item :: s.raw := fun item => by
    simp [payload, sizeofItem, h.raw_ne]
  have hfree : ∀ free : List Nat, s.destroyed = true → free = [] := fun _ hgone =>
    absurd hgone (by simp [hthere])
  cases hlast : s.world.free.getLast? with
  | some item =>
    obtain ⟨items, hitems⟩ := List.getLast?_eq_some_iff.mp hlast
    have htake : s.world.take address = (some (payload item), { s.world with free := items }) := by
      simp [World.take, hitems]
    rw [htake]
    refine ⟨?_, hraw item, hfree _⟩
    have hsame : s.holdings = State.holdings { s with
        world := { s.world with free := items }, raw := payload item :: s.raw } := by
      simp only [holdings, guarded, hitems, List.map_cons, getBase_payload, ← Multiset.coe_add,
        ← Multiset.cons_coe, ← Multiset.singleton_add]
      abel
    exact hsame ▸ h.balanced
  | none =>
    cases address with
    | none =>
      have htake : s.world.take none = (none, s.world) := by simp [World.take, hlast]
      rw [htake]
      exact h
    | some a =>
      let item : Item := ⟨sizeofItem.toUInt64 + s.world.size.toUInt64, s.world.size⟩
      have htake : s.world.take (some a) = (some (payload a),
          { s.world with heap := Function.update s.world.heap a (some item) }) := by
        simp [World.take, hlast, item]
      rw [htake]
      refine ⟨?_, hraw a, hfree _⟩
      have hmore : a ::ₘ s.holdings = State.holdings { s with
          world := { s.world with heap := Function.update s.world.heap a (some item) }
          raw := payload a :: s.raw } := by
        simp only [holdings, guarded, List.map_cons, getBase_payload, ← Multiset.cons_coe,
          Multiset.cons_add, Multiset.add_cons]
      exact hmore ▸ balanced_new h.balanced (haddress a rfl) item

lemma allocate (h : s.Sound) (hthere : s.destroyed = false) {size : UInt32} {address : Option Nat}
    (haddress : s.world.Vacant size address) :
    ∃ s', s.exec (.allocate size address) = .ok s' ∧ s'.Sound ∧ s'.lost = s.lost := by
  obtain ⟨w, hgrow, hsound⟩ := h.grow size
  refine ⟨_, ?_, hsound.take hthere fun a ha => haddress a ha w hgrow, rfl⟩
  simp only [State.exec, World.allocate, hgrow, Except.ok_bind]
  rfl

/-- A buffer comes back to the pool, which deletes it if it has another size. -/
lemma deallocate (h : s.Sound) (hthere : s.destroyed = false) {ptr : Nat}
    (hptr : ptr = 0 ∨ ptr ∈ s.raw) :
    ∃ s', s.exec (.deallocate ptr) = .ok s' ∧ s'.Sound ∧ s'.lost = s.lost := by
  by_cases hzero : ptr = 0
  · subst hzero
    refine ⟨{ s with raw := s.raw.erase 0 }, rfl, ?_, rfl⟩
    rw [List.erase_of_not_mem h.raw_ne]
    exact h
  · let rest : State := { s with raw := s.raw.erase ptr }
    have hheld : s.holdings = getBase ptr ::ₘ rest.holdings := by
      simp only [holdings, guarded, rest, map_getBase_erase h.raw_ne hptr, buffer, if_neg hzero,
        Option.toList_some, Multiset.coe_singleton, Multiset.singleton_add, Multiset.cons_add,
        Multiset.add_cons]
    have hbalanced := hheld ▸ h.balanced
    obtain ⟨item, hitem⟩ : ∃ item, s.world.heap (getBase ptr) = some item := by
      refine Option.ne_none_iff_exists'.mp fun hnone => ?_
      exact (eq_none_iff hbalanced).mp hnone (Multiset.mem_cons_self _ _)
    by_cases hsize : item.size = s.world.size
    · refine ⟨{ s with
        world := { s.world with free := s.world.free ++ [getBase ptr] }
        raw := s.raw.erase ptr }, ?_, ⟨?_, zero_notMem_erase h.raw_ne, ?_⟩, rfl⟩
      · simp [State.exec, World.deallocate, hzero, hitem, hsize]
        rfl
      · have hsame : getBase ptr ::ₘ rest.holdings = State.holdings { s with
            world := { s.world with free := s.world.free ++ [getBase ptr] }
            raw := s.raw.erase ptr } := by
          simp only [holdings, guarded, rest, ← Multiset.coe_add, Multiset.coe_singleton,
            ← Multiset.singleton_add]
          abel
        exact hsame ▸ hbalanced
      · simp [hthere]
    · obtain ⟨hdelete, hrest⟩ := balanced_delete hbalanced
      refine ⟨{ s with
        world := { s.world with heap := Function.update s.world.heap (getBase ptr) none }
        raw := s.raw.erase ptr }, ?_, ⟨hrest, zero_notMem_erase h.raw_ne, h.free_eq⟩, rfl⟩
      simp [State.exec, World.deallocate, hzero, hitem, hsize, hdelete]

/-- An object takes a pointer from a client. -/
lemma make (h : s.Sound) {ptr : Nat} (hptr : ptr = 0 ∨ ptr ∈ s.raw) :
    Sound { s with raw := s.raw.erase ptr, autos := s.autos ++ [some ptr] } := by
  refine ⟨?_, zero_notMem_erase h.raw_ne, h.free_eq⟩
  have hauto : [some ptr].filterMap (·.bind buffer) = (buffer ptr).toList := by
    cases hbuffer : buffer ptr <;> simp [hbuffer]
  have hsame : s.holdings = State.holdings { s with
      raw := s.raw.erase ptr, autos := s.autos ++ [some ptr] } := by
    simp only [holdings, guarded, map_getBase_erase h.raw_ne hptr, List.filterMap_append, hauto,
      ← Multiset.coe_add]
    abel
  exact hsame ▸ h.balanced

lemma getElem?_of_ptr {i ptr : Nat} (hi : s.ptr i = some ptr) : s.autos[i]? = some (some ptr) :=
  Option.join_eq_some_iff.mp hi

/-- The buffers of the objects, with that of object `i` first. -/
lemma guarded_eq {i ptr : Nat} (hi : s.ptr i = some ptr) : (s.guarded : Multiset Nat) =
    (buffer ptr).toList + (s.autos.eraseIdx i).filterMap (·.bind buffer) :=
  Ledger.filterMap_eq (getElem?_of_ptr hi)

lemma guarded_set {i ptr : Nat} (hi : s.ptr i = some ptr) (a : Option Nat) :
    ((s.autos.set i a).filterMap (·.bind buffer) : Multiset Nat) =
      (a.bind buffer).toList + (s.autos.eraseIdx i).filterMap (·.bind buffer) :=
  Ledger.filterMap_set (List.getElem?_eq_some_iff.mp (getElem?_of_ptr hi)).1 a

lemma reset (h : s.Sound) {i old ptr : Nat} (hi : s.ptr i = some old)
    (hptr : ptr = 0 ∨ ptr ∈ s.raw) : Sound { s with
      raw := s.raw.erase ptr
      autos := s.autos.set i (some ptr)
      lost := (buffer old).toList ++ s.lost } := by
  refine ⟨?_, zero_notMem_erase h.raw_ne, h.free_eq⟩
  have hsame : s.holdings = State.holdings { s with
      raw := s.raw.erase ptr
      autos := s.autos.set i (some ptr)
      lost := (buffer old).toList ++ s.lost } := by
    simp only [holdings, guarded_eq hi]
    simp only [guarded, guarded_set hi, map_getBase_erase h.raw_ne hptr, ← Multiset.coe_add,
      Option.bind_some]
    abel
  exact hsame ▸ h.balanced

lemma release (h : s.Sound) {i ptr : Nat} (hi : s.ptr i = some ptr) : Sound { s with
    raw := (Option.some ptr |>.filter (· ≠ 0)).toList ++ s.raw
    autos := s.autos.set i (some 0) } := by
  have hmap : ((Option.some ptr |>.filter (· ≠ 0)).toList ++ s.raw).map getBase =
      (buffer ptr).toList ++ s.raw.map getBase := by
    by_cases hzero : ptr = 0 <;> simp [buffer, hzero, Option.filter]
  refine ⟨?_, ?_, h.free_eq⟩
  · have hsame : s.holdings = State.holdings { s with
        raw := (Option.some ptr |>.filter (· ≠ 0)).toList ++ s.raw
        autos := s.autos.set i (some 0) } := by
      simp only [holdings, guarded_eq hi, hmap]
      simp only [guarded, guarded_set hi, ← Multiset.coe_add, Option.bind_some, buffer_zero,
        Option.toList_none, Multiset.coe_nil, zero_add]
      abel
    exact hsame ▸ h.balanced
  · by_cases hzero : ptr = 0 <;> simp [hzero, Option.filter, h.raw_ne, Ne.symm]

lemma drop (h : s.Sound) {i ptr : Nat} (hi : s.ptr i = some ptr) :
    ∃ s', s.exec (.drop i) = .ok s' ∧ s'.Sound ∧ s'.lost = s.lost := by
  let rest : State := { s with autos := s.autos.set i none }
  have hrest : s.holdings = (buffer ptr).toList + rest.holdings := by
    simp only [holdings, guarded_eq hi]
    simp only [guarded, rest, guarded_set hi, Option.bind_none, Option.toList_none,
      Multiset.coe_nil, zero_add]
    abel
  have hbalanced := h.balanced
  rw [hrest] at hbalanced
  by_cases hzero : ptr = 0
  · subst hzero
    refine ⟨rest, ?_, ⟨by simpa using hbalanced, h.raw_ne, h.free_eq⟩, rfl⟩
    simp only [State.exec, hi]
    rfl
  · rw [buffer, if_neg hzero, Option.toList_some, Multiset.coe_singleton,
      Multiset.singleton_add] at hbalanced
    obtain ⟨hdelete, hbalanced⟩ := balanced_delete hbalanced
    refine ⟨{ s with
      world := { s.world with heap := Function.update s.world.heap (getBase ptr) none }
      autos := s.autos.set i none }, ?_, ⟨hbalanced, h.raw_ne, h.free_eq⟩, rfl⟩
    simp [State.exec, hi, deleteAuto, hzero, hdelete]

lemma destroy (h : s.Sound) :
    ∃ s', s.exec .destroy = .ok s' ∧ s'.Sound ∧ s'.lost = s.lost := by
  obtain ⟨heap, hsweep, hheap⟩ := balanced_sweep h.balanced
  refine ⟨{ s with world := { s.world with heap, free := [] }, destroyed := true }, ?_,
    ⟨?_, h.raw_ne, fun _ => rfl⟩, rfl⟩
  · simp only [State.exec, hsweep]
    rfl
  · simpa [holdings, guarded] using hheap

/-- No step fails, and a buffer is lost where an object is reset that has one. -/
lemma exec (h : s.Sound) {op : Op} (hlegal : s.Legal op) :
    ∃ s', s.exec op = .ok s' ∧ s'.Sound ∧ (s'.lost = [] ↔ s.lost = [] ∧ s.Spares op) := by
  have hkeeps : (∃ s', s.exec op = .ok s' ∧ s'.Sound ∧ s'.lost = s.lost) → s.Spares op →
      ∃ s', s.exec op = .ok s' ∧ s'.Sound ∧ (s'.lost = [] ↔ s.lost = [] ∧ s.Spares op) := by
    rintro ⟨s', hok, hsound, hlost⟩ hspares
    exact ⟨s', hok, hsound, by rw [hlost, and_iff_left hspares]⟩
  cases op with
  | allocate size address => exact hkeeps (h.allocate hlegal.1 hlegal.2) trivial
  | deallocate ptr => exact hkeeps (h.deallocate hlegal.1 hlegal.2) trivial
  | make ptr => exact hkeeps ⟨_, rfl, h.make hlegal, rfl⟩ trivial
  | reset i ptr =>
    obtain ⟨old, hi⟩ := Option.isSome_iff_exists.mp hlegal.1
    refine ⟨_, rfl, by simpa only [hi] using! h.reset hi hlegal.2, ?_⟩
    have hbuffer : buffer old = none ↔ old = 0 := by simp [buffer]
    simp [Spares, hi, hbuffer, and_comm]
  | release i =>
    obtain ⟨ptr, hi⟩ := Option.isSome_iff_exists.mp hlegal
    exact hkeeps ⟨_, rfl, by simpa only [hi] using h.release hi, rfl⟩ trivial
  | drop i =>
    obtain ⟨ptr, hi⟩ := Option.isSome_iff_exists.mp hlegal
    exact hkeeps (h.drop hi) trivial
  | destroy => exact hkeeps h.destroy trivial

/-- In the end only the lost buffers are left. -/
lemma holdings_of_over (h : s.Sound) (hover : s.Over) : s.holdings = s.lost := by
  obtain ⟨hdestroyed, hraw, hautos⟩ := hover
  have hguarded : s.guarded = [] := List.filterMap_eq_nil_iff.mpr fun a ha => by simp [hautos a ha]
  simp [holdings, h.free_eq hdestroyed, hraw, hguarded]

end State.Sound

/-- An object deletes its buffer after the pool is gone. -/
def guardRun : List Op :=
  [.allocate 3 (some 10), .make 14, .destroy, .release 0, .reset 0 14, .drop 0]

lemma legal_guardRun : machine.Legal new guardRun := by
  refine .cons ⟨rfl, ?_⟩ rfl (.cons ?_ rfl (.cons rfl rfl (.cons rfl rfl (.cons ⟨rfl, ?_⟩ rfl
    (.cons rfl rfl trivial)))))
  · rintro a ⟨rfl⟩ w ⟨rfl⟩
    rfl
  · exact .inr (by decide)
  · exact .inr (by decide)

end Utilmm.DynamicAuto
