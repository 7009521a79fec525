import Mathlib.Tactic
import Utilmm.Core.Except
import Utilmm.Core.Runs

/-!
# Pools of buffers

A pool hands out buffers of one size, which grows with the requests, and recycles those which come
back. A buffer starts with a header which holds the size of its payload; the size which the pool
had when it made the buffer. `size_t` is `uint32_t` in the pool and has 64 bits in `new`.
-/

namespace Utilmm.DynamicPool

/-- A buffer on the heap, and the size in its header. -/
structure Item where
  bytes : UInt64
  size : UInt32
  deriving DecidableEq, Repr

/-- `sizeof(item_t)`, which is `offsetof(item_t, payload)` as well. -/
def sizeofItem : Nat := 4

/-- The bytes of a buffer after its header. -/
def Item.capacity (item : Item) : Nat := item.bytes.toNat - sizeofItem

inductive Fault
  /-- A buffer was read or deleted which is not there. -/
  | deadBuffer
  deriving DecidableEq, Repr

/-- A pool and the heap. Addresses are numbers, and zero is the null pointer. -/
structure World where
  /-- `m_size`. -/
  size : UInt32
  /-- `m_free`. -/
  free : List Nat
  heap : Nat → Option Item

def empty : World := ⟨0, [], fun _ => none⟩

/-- `item->payload`. -/
def payload (item : Nat) : Nat := item + sizeofItem

/-- `dynamic_pool::get_base`. -/
def getBase (ptr : Nat) : Nat := ptr - sizeofItem

/-- `delete[] item`. -/
def delete (heap : Nat → Option Item) (item : Nat) : Except Fault (Nat → Option Item) :=
  if (heap item).isSome then .ok (Function.update heap item none) else .error .deadBuffer

/-- `sweep_arrays`. -/
def sweepArrays (heap : Nat → Option Item) : List Nat → Except Fault (Nat → Option Item)
  | [] => .ok heap
  | item :: items => do
    let heap ← delete heap item
    sweepArrays heap items

namespace World

/-- `dynamic_pool::allocate`, the pool grows with the request. -/
def grow (w : World) (size : UInt32) : Except Fault World :=
  if w.size < size then do
    let heap ← sweepArrays w.heap w.free
    return ⟨size, [], heap⟩
  else .ok w

/-- `dynamic_pool::allocate`, a free buffer or a new one, at the address which `new` returns. There
is no such address if it throws. -/
def take (w : World) (address : Option Nat) : Option Nat × World :=
  match w.free.getLast?, address with
  | none, none => (none, w)
  | none, some buffer =>
    let item : Item := ⟨sizeofItem.toUInt64 + w.size.toUInt64, w.size⟩
    (some (payload buffer), { w with heap := Function.update w.heap buffer (some item) })
  | some item, _ => (some (payload item), { w with free := w.free.dropLast })

/-- `dynamic_pool::allocate`. -/
def allocate (w : World) (size : UInt32) (address : Option Nat) :
    Except Fault (Option Nat × World) := do
  let w ← w.grow size
  return w.take address

/-- The address which `new` returns in `allocate` is not on the heap. It may be that of a free buffer
which the pool has just deleted. -/
def Vacant (w : World) (size : UInt32) (address : Option Nat) : Prop :=
  ∀ a, address = some a → ∀ w', w.grow size = .ok w' → w'.heap a = none

/-- `dynamic_pool::deallocate`. -/
def deallocate (w : World) (buffer : Nat) : Except Fault World :=
  if buffer = 0 then .ok w
  else
    match w.heap (getBase buffer) with
    | none => .error .deadBuffer
    | some item =>
      if item.size ≠ w.size then do
        let heap ← delete w.heap (getBase buffer)
        return { w with heap }
      else return { w with free := w.free ++ [getBase buffer] }

end World

/-! ### Runs -/

/-- A pool with its clients. -/
structure Clients where
  world : World
  /-- The buffers in use, with the size which the pool had when it handed them out. -/
  used : List (Nat × UInt32)
  /-- The sizes which were requested. -/
  requests : List UInt32

inductive Op
  | allocate (size : UInt32) (address : Option Nat)
  | deallocate (buffer : Nat)
  deriving DecidableEq, Repr

namespace Clients

def exec (s : Clients) : Op → Except Fault Clients
  | .allocate size address => do
    let (buffer, world) ← s.world.allocate size address
    let used := match buffer with
      | some buffer => (buffer, world.size) :: s.used
      | none => s.used
    return ⟨world, used, size :: s.requests⟩
  | .deallocate buffer => do
    let world ← s.world.deallocate buffer
    return { s with world, used := s.used.filter fun entry => entry.1 ≠ buffer }

/-- What `new` returns is not on the heap, and the clients give back what they use. -/
def Legal (s : Clients) : Op → Prop
  | .allocate size address => s.world.Vacant size address
  | .deallocate buffer => buffer = 0 ∨ buffer ∈ s.used.map Prod.fst

end Clients

def machine : Machine Clients Op Fault where
  legal := Clients.Legal
  step := Clients.exec

/-! ### Sound pools -/

@[simp] lemma getBase_payload (item : Nat) : getBase (payload item) = item := by
  simp [getBase, payload]

lemma capacity_new (size : UInt32) :
    (Item.mk (sizeofItem.toUInt64 + size.toUInt64) size).capacity = size.toNat := by
  have hlt := size.toNat_lt
  simp [Item.capacity, sizeofItem]
  omega

lemma delete_eq_ok {heap : Nat → Option Item} {item : Nat} {buffer : Item}
    (h : heap item = some buffer) : delete heap item = .ok (Function.update heap item none) := by
  simp [delete, h]

/-- The buffers of a list are deleted, and the others left alone. -/
lemma sweepArrays_eq_ok {heap : Nat → Option Item} {items : List Nat} (hnodup : items.Nodup)
    (hitems : ∀ item ∈ items, heap item ≠ none) :
    ∃ heap', sweepArrays heap items = .ok heap' ∧
      ∀ item, heap' item = if item ∈ items then none else heap item := by
  induction items generalizing heap with
  | nil => exact ⟨heap, rfl, by simp⟩
  | cons item items ih =>
    obtain ⟨hitem, hnodup⟩ := List.nodup_cons.mp hnodup
    obtain ⟨buffer, hbuffer⟩ := Option.ne_none_iff_exists'.mp (hitems item List.mem_cons_self)
    have hrest : ∀ item' ∈ items, Function.update heap item none item' ≠ none := by
      intro item' hitem'
      have hne : item' ≠ item := fun heq => hitem (heq ▸ hitem')
      rw [Function.update_of_ne hne]
      exact hitems item' (List.mem_cons_of_mem _ hitem')
    obtain ⟨heap', hsweep, hheap'⟩ := ih hnodup hrest
    refine ⟨heap', by rw [sweepArrays, delete_eq_ok hbuffer]; exact hsweep, fun item' => ?_⟩
    rw [hheap']
    by_cases heq : item' = item
    · simp [heq]
    · simp [heq]

/-- The pool with its clients as it should be. -/
structure Clients.Sound (s : Clients) : Prop where
  /-- The size of the pool is the largest one which was requested. -/
  largest : s.world.size.toNat = (s.requests.map UInt32.toNat).foldr max 0
  /-- No free buffer occurs twice. -/
  free_nodup : s.world.free.Nodup
  /-- No free buffer is in use. -/
  free_unused : ∀ item ∈ s.world.free, payload item ∉ s.used.map Prod.fst
  /-- The free buffers have the size of the pool. -/
  free : ∀ item ∈ s.world.free, ∃ buffer, s.world.heap item = some buffer ∧
    buffer.size = s.world.size ∧ buffer.capacity = s.world.size.toNat
  /-- No buffer is in use twice. -/
  used_nodup : (s.used.map Prod.fst).Nodup
  /-- The buffers in use have the size of the pool which handed them out. -/
  used : ∀ entry ∈ s.used, payload (getBase entry.1) = entry.1 ∧ entry.2 ≤ s.world.size ∧
    ∃ buffer, s.world.heap (getBase entry.1) = some buffer ∧
      buffer.size = entry.2 ∧ buffer.capacity = entry.2.toNat

/-- What a step should do. The pool never shrinks, a buffer which it hands out is large enough and
not in use, and it keeps a buffer which comes back if it did not grow in the meantime. -/
def Clients.Serves (s : Clients) (op : Op) (s' : Clients) : Prop :=
  s.world.size ≤ s'.world.size ∧
    match op with
    | .allocate size address =>
      address = none ∧ s'.used = s.used ∨
        ∃ ptr buffer, s'.used = (ptr, s'.world.size) :: s.used ∧ ptr ∉ s.used.map Prod.fst ∧
          s'.world.heap (getBase ptr) = some buffer ∧ size.toNat ≤ buffer.capacity
    | .deallocate ptr => ∀ size, (ptr, size) ∈ s.used →
      if size = s.world.size then s'.world.free = s.world.free ++ [getBase ptr]
      else s'.world.heap (getBase ptr) = none ∧ s'.world.free = s.world.free

namespace Clients.Sound

variable {s : Clients}

lemma empty : Sound ⟨DynamicPool.empty, [], []⟩ := by
  constructor <;> simp [DynamicPool.empty]

/-- The buffers in use are not free. -/
lemma getBase_notMem (h : s.Sound) {entry : Nat × UInt32} (hentry : entry ∈ s.used) :
    getBase entry.1 ∉ s.world.free := by
  intro hmem
  refine h.free_unused _ hmem ?_
  rw [(h.used entry hentry).1]
  exact List.mem_map_of_mem hentry

lemma getBase_inj (h : s.Sound) {entry entry' : Nat × UInt32} (hentry : entry ∈ s.used)
    (hentry' : entry' ∈ s.used) (heq : getBase entry.1 = getBase entry'.1) :
    entry.1 = entry'.1 := by
  rw [← (h.used entry hentry).1, heq, (h.used entry' hentry').1]

lemma grow (h : s.Sound) (size : UInt32) :
    ∃ w, s.world.grow size = .ok w ∧ Sound ⟨w, s.used, size :: s.requests⟩ ∧ size ≤ w.size ∧
      s.world.size ≤ w.size := by
  have hlargest := h.largest
  by_cases hlt : s.world.size < size
  · have halive : ∀ item ∈ s.world.free, s.world.heap item ≠ none := by
      intro item hitem
      obtain ⟨buffer, hbuffer, -⟩ := h.free item hitem
      simp [hbuffer]
    obtain ⟨heap, hsweep, hheap⟩ := sweepArrays_eq_ok h.free_nodup halive
    have hle : s.world.size ≤ size := UInt32.le_of_lt hlt
    refine ⟨⟨size, [], heap⟩, ?_, ?_, UInt32.le_refl _, hle⟩
    · simp only [World.grow, hlt, if_true, hsweep]
      rfl
    · refine ⟨?_, List.nodup_nil, by simp, by simp, h.used_nodup, fun entry hentry => ?_⟩
      · simp only [List.map_cons, List.foldr_cons, ← hlargest]
        exact (max_eq_left (UInt32.le_iff_toNat_le.mp hle)).symm
      · obtain ⟨hpayload, hle', buffer, hbuffer, hsize⟩ := h.used entry hentry
        refine ⟨hpayload, UInt32.le_trans hle' hle, buffer, ?_, hsize⟩
        show heap (getBase entry.1) = some buffer
        rw [hheap, if_neg (h.getBase_notMem hentry), hbuffer]
  · have hle : size ≤ s.world.size := UInt32.not_lt.mp hlt
    refine ⟨s.world, if_neg hlt, ?_, hle, UInt32.le_refl _⟩
    refine ⟨?_, h.free_nodup, h.free_unused, h.free, h.used_nodup, h.used⟩
    simp only [List.map_cons, List.foldr_cons, ← hlargest]
    exact (max_eq_right (UInt32.le_iff_toNat_le.mp hle)).symm

/-- A free buffer is used again. -/
lemma recycle (h : s.Sound) {items : List Nat} {item : Nat}
    (hitems : s.world.free = items ++ [item]) : ∃ buffer, s.world.heap item = some buffer ∧
      buffer.capacity = s.world.size.toNat ∧ payload item ∉ s.used.map Prod.fst ∧
      Sound ⟨{ s.world with free := items }, (payload item, s.world.size) :: s.used,
        s.requests⟩ := by
  have hmem : item ∈ s.world.free := by simp [hitems]
  have hsub : ∀ item', item' ∈ items → item' ∈ s.world.free := fun _ h => by simp [hitems, h]
  have hnodup := h.free_nodup
  rw [hitems, List.nodup_append] at hnodup
  have hunused := h.free_unused item hmem
  obtain ⟨buffer, hbuffer, hsize, hcapacity⟩ := h.free item hmem
  refine ⟨buffer, hbuffer, hcapacity, hunused, h.largest, hnodup.1, fun item' hitem' => ?_,
    fun item' hitem' => h.free item' (hsub item' hitem'),
    List.nodup_cons.mpr ⟨hunused, h.used_nodup⟩, List.forall_mem_cons.mpr ⟨?_, h.used⟩⟩
  · rw [List.map_cons, List.mem_cons, not_or]
    refine ⟨fun heq => ?_, h.free_unused item' (hsub item' hitem')⟩
    have hne := hnodup.2.2 item' hitem' item (List.mem_singleton_self item)
    exact hne (by simpa using congrArg getBase heq)
  · exact ⟨by simp, UInt32.le_refl _, buffer, by simpa using hbuffer, hsize, hcapacity⟩

/-- A new buffer is made at an address which is not in use. -/
lemma create (h : s.Sound) (hfree : s.world.free = []) {a : Nat} (ha : s.world.heap a = none)
    {item : Item} (hsize : item.size = s.world.size)
    (hcapacity : item.capacity = s.world.size.toNat) : payload a ∉ s.used.map Prod.fst ∧
      Sound ⟨{ s.world with heap := Function.update s.world.heap a (some item) },
        (payload a, s.world.size) :: s.used, s.requests⟩ := by
  have hbase : ∀ entry ∈ s.used, getBase entry.1 ≠ a := by
    intro entry hentry heq
    obtain ⟨-, -, buffer, hbuffer, -⟩ := h.used entry hentry
    rw [heq, ha] at hbuffer
    cases hbuffer
  have hunused : payload a ∉ s.used.map Prod.fst := by
    intro hmem
    obtain ⟨entry, hentry, heq⟩ := List.mem_map.mp hmem
    exact hbase entry hentry (by simp [heq])
  refine ⟨hunused, h.largest, h.free_nodup, by simp [hfree], by simp [hfree],
    List.nodup_cons.mpr ⟨hunused, h.used_nodup⟩, List.forall_mem_cons.mpr ⟨?_, ?_⟩⟩
  · exact ⟨by simp, UInt32.le_refl _, item, by simp, hsize, hcapacity⟩
  · intro entry hentry
    obtain ⟨hpayload, hle, buffer, hbuffer, hsize⟩ := h.used entry hentry
    refine ⟨hpayload, hle, buffer, ?_, hsize⟩
    rw [← hbuffer]
    exact Function.update_of_ne (hbase entry hentry) _ _

lemma take (h : s.Sound) {address : Option Nat}
    (haddress : ∀ a, address = some a → s.world.heap a = none) :
    address = none ∧ s.world.take address = (none, s.world) ∨
      ∃ ptr w buffer, s.world.take address = (some ptr, w) ∧ ptr ∉ s.used.map Prod.fst ∧
        w.size = s.world.size ∧ w.heap (getBase ptr) = some buffer ∧
        buffer.capacity = w.size.toNat ∧
        Sound ⟨w, (ptr, w.size) :: s.used, s.requests⟩ := by
  cases hlast : s.world.free.getLast? with
  | some item =>
    obtain ⟨items, hitems⟩ := List.getLast?_eq_some_iff.mp hlast
    obtain ⟨buffer, hbuffer, hcapacity, hunused, hsound⟩ := h.recycle hitems
    refine .inr ⟨payload item, { s.world with free := items }, buffer, ?_, hunused, rfl, ?_,
      hcapacity, hsound⟩
    · simp [World.take, hitems]
    · simpa using hbuffer
  | none =>
    cases address with
    | none => exact .inl ⟨rfl, by simp [World.take, hlast]⟩
    | some a =>
      let item : Item := ⟨sizeofItem.toUInt64 + s.world.size.toUInt64, s.world.size⟩
      have hcapacity : item.capacity = s.world.size.toNat := capacity_new _
      have hsize : item.size = s.world.size := rfl
      obtain ⟨hunused, hsound⟩ :=
        h.create (by simpa using hlast) (haddress a rfl) hsize hcapacity
      refine .inr ⟨payload a, { s.world with heap := Function.update s.world.heap a (some item) },
        item, ?_, hunused, rfl, by simp, hcapacity, hsound⟩
      simp [World.take, hlast, item]

/-- What comes back is forgotten. -/
lemma forget (h : s.Sound) (ptr : Nat) :
    Sound { s with used := s.used.filter fun entry => entry.1 ≠ ptr } := by
  have hsub : s.used.filter (fun entry => entry.1 ≠ ptr) ⊆ s.used := List.filter_sublist.subset
  refine ⟨h.largest, h.free_nodup, fun item hitem hmem => ?_, h.free, ?_, ?_⟩
  · obtain ⟨entry, hentry, heq⟩ := List.mem_map.mp hmem
    exact h.free_unused item hitem (List.mem_map.mpr ⟨entry, hsub hentry, heq⟩)
  · exact h.used_nodup.sublist (List.filter_sublist.map _)
  · exact fun entry hentry => h.used entry (hsub hentry)

/-- A buffer of the size of the pool comes back and is free. -/
lemma release (h : s.Sound) {ptr : Nat} (hptr : (ptr, s.world.size) ∈ s.used) :
    Sound { s with
      world := { s.world with free := s.world.free ++ [getBase ptr] }
      used := s.used.filter fun entry => entry.1 ≠ ptr } := by
  obtain ⟨hpayload, -, hbuffer⟩ := h.used _ hptr
  have hforget := h.forget ptr
  refine ⟨hforget.largest, ?_, ?_, ?_, hforget.used_nodup, hforget.used⟩
  · refine List.nodup_append.mpr ⟨h.free_nodup, List.nodup_singleton _, ?_⟩
    rintro item hitem item' hitem' rfl
    exact h.getBase_notMem hptr (List.mem_singleton.mp hitem' ▸ hitem)
  · intro item hitem
    rcases List.mem_append.mp hitem with hitem | hitem
    · exact hforget.free_unused item hitem
    · rw [List.mem_singleton.mp hitem, hpayload]
      simp
  · intro item hitem
    rcases List.mem_append.mp hitem with hitem | hitem
    · exact h.free item hitem
    · rw [List.mem_singleton.mp hitem]
      exact hbuffer

/-- A buffer of an older size comes back and is deleted. -/
lemma discard (h : s.Sound) {ptr : Nat} {size : UInt32} (hptr : (ptr, size) ∈ s.used) :
    Sound { s with
      world := { s.world with heap := Function.update s.world.heap (getBase ptr) none }
      used := s.used.filter fun entry => entry.1 ≠ ptr } := by
  have hforget := h.forget ptr
  refine ⟨hforget.largest, hforget.free_nodup, hforget.free_unused, fun item hitem => ?_,
    hforget.used_nodup, fun entry hentry => ?_⟩
  · have hitem' : item ≠ getBase ptr := fun heq => h.getBase_notMem hptr (heq ▸ hitem)
    obtain ⟨buffer, hbuffer, hsize⟩ := h.free item hitem
    exact ⟨buffer, (Function.update_of_ne hitem' _ _).trans hbuffer, hsize⟩
  · obtain ⟨hentry, hother⟩ : entry ∈ s.used ∧ entry.1 ≠ ptr := by simpa using hentry
    have hbase : getBase entry.1 ≠ getBase ptr := fun heq =>
      hother (h.getBase_inj hentry hptr heq)
    obtain ⟨hpayload, hle, buffer, hbuffer, hsize⟩ := h.used entry hentry
    exact ⟨hpayload, hle, buffer, (Function.update_of_ne hbase _ _).trans hbuffer, hsize⟩

/-- A buffer which comes back is deleted if the pool has grown, else it is free. -/
lemma deallocate (h : s.Sound) {ptr : Nat} {size : UInt32} (hptr : (ptr, size) ∈ s.used) :
    ∃ w, s.world.deallocate ptr = .ok w ∧ w.size = s.world.size ∧
      Sound { s with world := w, used := s.used.filter fun entry => entry.1 ≠ ptr } ∧
      if size = s.world.size then w.free = s.world.free ++ [getBase ptr]
      else w.heap (getBase ptr) = none ∧ w.free = s.world.free := by
  obtain ⟨hpayload, hle, buffer, hbuffer, hsize, hcapacity⟩ :
      payload (getBase ptr) = ptr ∧ size ≤ s.world.size ∧
        ∃ buffer, s.world.heap (getBase ptr) = some buffer ∧ buffer.size = size ∧
          buffer.capacity = size.toNat := h.used _ hptr
  have hne : ptr ≠ 0 := by
    rw [← hpayload]
    simp [payload, sizeofItem]
  by_cases heq : size = s.world.size
  · subst heq
    refine ⟨{ s.world with free := s.world.free ++ [getBase ptr] }, ?_, rfl, h.release hptr,
      if_pos rfl ▸ rfl⟩
    rw [World.deallocate, if_neg hne, hbuffer]
    simp [hsize]
    rfl
  · refine ⟨{ s.world with heap := Function.update s.world.heap (getBase ptr) none }, ?_, rfl,
      h.discard hptr, ?_⟩
    · rw [World.deallocate, if_neg hne, hbuffer]
      simp [hsize, heq, delete_eq_ok hbuffer]
    · rw [if_neg heq]
      simp

/-- A null pointer is not in use. -/
lemma deallocate_null (h : s.Sound) (size : UInt32) : (0, size) ∉ s.used := by
  intro hmem
  have hpayload := (h.used _ hmem).1
  simp [payload, sizeofItem] at hpayload

lemma exec (h : s.Sound) {op : Op} (hlegal : s.Legal op) :
    ∃ s', s.exec op = .ok s' ∧ s.Serves op s' ∧ s'.Sound := by
  cases op with
  | allocate size address =>
    obtain ⟨w, hgrow, hsound, hle, hmono⟩ := h.grow size
    rcases hsound.take (fun a ha => hlegal a ha w hgrow) with
      ⟨haddress, htake⟩ | ⟨ptr, w', buffer, htake, hunused, hsize, hbuffer, hcapacity, hsound'⟩
    · refine ⟨⟨w, s.used, size :: s.requests⟩, ?_, ⟨hmono, .inl ⟨haddress, rfl⟩⟩, hsound⟩
      simp only [Clients.exec, World.allocate, hgrow, Except.ok_bind, htake]
      rfl
    · refine ⟨⟨w', (ptr, w'.size) :: s.used, size :: s.requests⟩, ?_,
        ⟨hsize ▸ hmono, .inr ⟨ptr, buffer, rfl, hunused, hbuffer, ?_⟩⟩, hsound'⟩
      · simp only [Clients.exec, World.allocate, hgrow, Except.ok_bind, htake]
        rfl
      · rw [hcapacity, hsize]
        exact UInt32.le_iff_toNat_le.mp hle
  | deallocate ptr =>
    by_cases hptr : ptr = 0
    · subst hptr
      refine ⟨_, rfl, ⟨UInt32.le_refl _, fun size hmem => ?_⟩, h.forget 0⟩
      exact absurd hmem (h.deallocate_null size)
    · obtain ⟨⟨ptr, size⟩, hentry, rfl⟩ := List.mem_map.mp (hlegal.resolve_left hptr)
      obtain ⟨w, hok, hsize, hsound, hback⟩ := h.deallocate hentry
      refine ⟨_, ?_, ⟨?_, fun size' hmem => ?_⟩, hsound⟩
      · simp only [Clients.exec, hok, Except.ok_bind]
        rfl
      · rw [hsize]
        exact UInt32.le_refl _
      · obtain rfl : size = size' := by
          have := List.inj_on_of_nodup_map h.used_nodup hentry hmem rfl
          exact congrArg Prod.snd this
        exact hback

end Clients.Sound

/-- In every run the pool with its clients is sound and serves each request. -/
theorem dynamicPool_sound (ops : List Op) (hlegal : machine.Legal ⟨empty, [], []⟩ ops) :
    machine.Holds Clients.Sound ⟨empty, [], []⟩ ops ∧
      machine.Follows Clients.Serves ⟨empty, [], []⟩ ops := by
  constructor
  · refine Machine.Holds.of_invariant (I := Clients.Sound) (C := fun _ _ => True)
      (fun _ h => h) (fun s op h hop _ => ?_) .empty hlegal (.of_forall fun _ _ => trivial)
    obtain ⟨s', hok, -, hsound⟩ := h.exec hop
    exact ⟨s', hok, hsound⟩
  · exact Machine.Follows.of_invariant (I := Clients.Sound) (fun _ _ h hop => h.exec hop) .empty
      hlegal

/-- A buffer of three bytes comes back after the pool has grown to five. It then grows to nine, and
the new buffer lies where the one of five bytes was. -/
theorem dynamicPool_sound_grown :
    machine.Follows Clients.Serves ⟨empty, [], []⟩
      [.allocate 3 (some 10), .allocate 5 (some 20), .deallocate 14, .deallocate 24,
        .allocate 9 (some 20)] :=
  (dynamicPool_sound _ (by
    refine .cons ?_ rfl (.cons ?_ rfl (.cons ?_ rfl (.cons ?_ rfl (.cons ?_ rfl trivial))))
    · rintro a ⟨rfl⟩ w ⟨rfl⟩
      rfl
    · rintro a ⟨rfl⟩ w ⟨rfl⟩
      rfl
    · exact .inr (by decide)
    · exact .inr (by decide)
    · rintro a ⟨rfl⟩ w ⟨rfl⟩
      rfl)).2

end Utilmm.DynamicPool
