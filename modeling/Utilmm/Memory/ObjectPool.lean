import Utilmm.Core.Ledger
import Utilmm.Core.Runs

/-!
# Pools of objects

A pool keeps objects which nobody uses, in the order in which they came back. The mutex of the pool
makes each call one step, so that the calls of several threads are one list of steps. `std::list` may
run out of memory when an object is appended.
-/

namespace Utilmm.ObjectPool

/-- A pool, its clients and the heap. -/
structure State where
  /-- The objects on the heap. -/
  alive : Nat → Bool
  /-- `m_available`. -/
  available : List Nat
  /-- The pool is gone. -/
  destroyed : Bool
  /-- The pointers of the clients. -/
  raw : List Nat
  /-- `m_object` of each `use`, `none` once it is destroyed. -/
  uses : List (Option Nat)
  /-- The objects to which nothing points any more. -/
  lost : List Nat
  /-- How many objects the pool has constructed. -/
  made : Nat
  /-- How many objects were in use at the same time. -/
  peak : Nat

def new : State := ⟨fun _ => false, [], false, [], [], [], 0, 0⟩

inductive Fault
  /-- An object was deleted which is not there. -/
  | deadObject
  deriving DecidableEq, Repr

inductive Op
  /-- `object_pool::get`. `new T()` returns `address`, or throws, and the list may have no room for a
  node more. -/
  | get (address : Option Nat) (room : Bool)
  /-- `object_pool::put` -/
  | put (object : Nat) (room : Bool)
  /-- `use::use` -/
  | use (address : Option Nat) (room : Bool)
  /-- `use::~use` of the `i`th -/
  | unuse (i : Nat) (room : Bool)
  /-- `object_pool::~object_pool` -/
  | destroy
  deriving DecidableEq, Repr

/-- `sweep`. -/
def sweep (alive : Nat → Bool) : List Nat → Except Fault (Nat → Bool)
  | [] => .ok alive
  | object :: objects =>
    if alive object then sweep (Function.update alive object false) objects
    else .error .deadObject

namespace State

/-- `m_available.push_back`, and whether it has not thrown. -/
def pushBack (s : State) (object : Nat) (room : Bool) : Bool × State :=
  if room then (true, { s with available := s.available ++ [object] }) else (false, s)

/-- `get`, a new object if there is none. -/
def refill (s : State) (address : Option Nat) (room : Bool) : State :=
  if s.available.isEmpty then
    match address with
    | none => s
    | some object =>
      let s := { s with alive := Function.update s.alive object true, made := s.made + 1 }
      match s.pushBack object room with
      | (true, s) => s
      -- the only pointer was the argument
      | (false, s) => { s with lost := object :: s.lost }
  else s

/-- `object_pool::get`, without a result if it throws. -/
def get (s : State) (address : Option Nat) (room : Bool) : Option Nat × State :=
  let s := s.refill address room
  match s.available with
  | [] => (none, s)
  | object :: available => (some object, { s with available })

/-- How many objects are in use. -/
def inUse (s : State) : Nat := s.raw.length + (s.uses.filterMap id).length

def observe (s : State) : State := { s with peak := max s.peak s.inUse }

def exec (s : State) : Op → Except Fault State
  | .get address room =>
    match s.get address room with
    | (some object, s) => .ok { s with raw := object :: s.raw }.observe
    | (none, s) => .ok s
  | .put object room =>
    match s.pushBack object room with
    | (true, s) => .ok { s with raw := s.raw.erase object }
    | (false, s) => .ok s
  | .use address room =>
    match s.get address room with
    | (some object, s) => .ok { s with uses := s.uses ++ [some object] }.observe
    | (none, s) => .ok s
  | .unuse i room =>
    match s.uses[i]?.join with
    | none => .ok s
    | some object =>
      match s.pushBack object room with
      | (true, s) => .ok { s with uses := s.uses.set i none }
      | (false, s) => .ok { s with uses := s.uses.set i none, lost := object :: s.lost }
  | .destroy => do
    let alive ← sweep s.alive s.available
    return { s with alive, available := [], destroyed := true }

/-- Nobody calls a pool which is gone, the clients put back what they have got, and `new` returns
what is not on the heap. -/
def Legal (s : State) : Op → Prop
  | .get address _ | .use address _ =>
    s.destroyed = false ∧ ∀ a, address = some a → s.alive a = false
  | .put object _ => s.destroyed = false ∧ object ∈ s.raw
  | .unuse i _ => s.destroyed = false ∧ (s.uses[i]?.join).isSome
  | .destroy => s.destroyed = false

/-- The objects with their owners: the pool, a client, a `use`, or nobody. -/
def holdings (s : State) : Multiset Nat :=
  s.available + (s.raw + (s.uses.filterMap id + s.lost))

/-- The pool is gone and nothing is in use. -/
def Over (s : State) : Prop := s.destroyed ∧ s.inUse = 0

/-- There is room where a pointer would be lost. -/
def Spares (s : State) : Op → Prop
  | .get address room | .use address room => s.available = [] → address.isSome → room = true
  | .unuse _ room => room = true
  | _ => True

end State

def machine : Machine State Op Fault where
  legal := State.Legal
  step := State.exec

/-! ### What a call can do -/

section Calls

variable {s s' : State}

/-- The ways a call of `get` can go. -/
inductive Gets (s : State) (address : Option Nat) (room : Bool) : Option Nat → State → Prop
  | recycled {object : Nat} {available : List Nat} (h : s.available = object :: available) :
      Gets s address room (some object) { s with available }
  | failed (h : s.available = []) (haddress : address = none) : Gets s address room none s
  | made {object : Nat} (h : s.available = []) (haddress : address = some object)
      (hroom : room = true) : Gets s address room (some object)
        { s with alive := Function.update s.alive object true, made := s.made + 1 }
  | leaked {object : Nat} (h : s.available = []) (haddress : address = some object)
      (hroom : room = false) : Gets s address room none { s with
        alive := Function.update s.alive object true
        made := s.made + 1
        lost := object :: s.lost }

lemma gets (s : State) (address : Option Nat) (room : Bool) :
    Gets s address room (s.get address room).1 (s.get address room).2 := by
  cases h : s.available with
  | cons object available =>
    have hget : s.get address room = (some object, { s with available }) := by
      simp [State.get, State.refill, h]
    exact hget ▸ .recycled h
  | nil =>
    cases address with
    | none =>
      have hget : s.get none room = (none, s) := by simp [State.get, State.refill, h]
      exact hget ▸ .failed h rfl
    | some object =>
      cases room with
      | true =>
        have hget : s.get (some object) true = (some object, { s with
            alive := Function.update s.alive object true, made := s.made + 1 }) := by
          simp [State.get, State.refill, State.pushBack, h]
        exact hget ▸ .made h rfl rfl
      | false =>
        have hget : s.get (some object) false = (none, { s with
            alive := Function.update s.alive object true
            made := s.made + 1
            lost := object :: s.lost }) := by
          simp [State.get, State.refill, State.pushBack, h]
        exact hget ▸ .leaked h rfl rfl

end Calls

/-! ### Sound states -/

open Ledger

lemma balanced_sweep {alive : Nat → Bool} {objects : List Nat} {held : Multiset Nat}
    (h : Balanced (single alive) (objects + held)) :
    ∃ alive', sweep alive objects = .ok alive' ∧ Balanced (single alive') held := by
  induction objects generalizing alive with
  | nil => exact ⟨alive, rfl, by simpa using h⟩
  | cons object objects ih =>
    rw [← Multiset.cons_coe, Multiset.cons_add] at h
    obtain ⟨halive, hrest⟩ := h.delete
    obtain ⟨alive', hsweep, halive'⟩ := ih hrest
    exact ⟨alive', by rw [sweep, if_pos halive]; exact hsweep, halive'⟩

namespace State

/-- Each object has one owner, and the pool has not constructed more objects than were in use
at the same time, apart from those which it lost. -/
structure Sound (s : State) : Prop where
  balanced : Balanced (single s.alive) s.holdings
  peak_le : s.peak ≤ s.made
  made_le : s.made ≤ s.peak + s.lost.length
  made_eq : s.destroyed = false → s.made = s.available.length + s.inUse + s.lost.length
  available_eq : s.destroyed = true → s.available = []

/-- An object has left the pool and is about to be in use. -/
structure Handed (s : State) (object : Nat) : Prop where
  there : s.destroyed = false
  balanced : Balanced (single s.alive) (object ::ₘ s.holdings)
  peak_le : s.peak ≤ s.made
  made_le : s.made ≤ max s.peak (s.inUse + 1) + s.lost.length
  made_eq : s.made = s.available.length + (s.inUse + 1) + s.lost.length

variable {s : State}

namespace Sound

lemma new : Sound new where
  balanced := Balanced.empty
  peak_le := le_refl 0
  made_le := le_refl 0
  made_eq := fun _ => rfl
  available_eq := fun _ => rfl

/-- A call of `get` which throws. -/
lemma of_gets_none (h : s.Sound) {address : Option Nat} {room : Bool} {s' : State}
    (hthere : s.destroyed = false) (haddress : ∀ a, address = some a → s.alive a = false)
    (hgets : Gets s address room none s') : s'.Sound := by
  cases hgets with
  | failed => exact h
  | @leaked object havailable hobject hroom =>
    have hbalanced := h.balanced.create (haddress object hobject)
    have hpeak := h.peak_le
    have hmade := h.made_le
    have heq := h.made_eq hthere
    refine ⟨?_, Nat.le_succ_of_le hpeak, ?_, fun _ => ?_, h.available_eq⟩
    · have hsame : object ::ₘ s.holdings = State.holdings { s with lost := object :: s.lost } := by
        simp only [holdings, ← Multiset.cons_coe, Multiset.add_cons]
      exact hsame ▸ hbalanced
    · simp only [List.length_cons]
      omega
    · simp only [List.length_cons, inUse] at heq ⊢
      omega

/-- A call of `get` which returns an object. -/
lemma handed (h : s.Sound) {address : Option Nat} {room : Bool} {s' : State} {object : Nat}
    (hthere : s.destroyed = false) (haddress : ∀ a, address = some a → s.alive a = false)
    (hgets : Gets s address room (some object) s') : s'.Handed object := by
  have hpeak := h.peak_le
  have hmade := h.made_le
  have heq := h.made_eq hthere
  cases hgets with
  | @recycled _ available havailable =>
    have hsame : s.holdings = object ::ₘ State.holdings { s with available } := by
      simp only [holdings, havailable, ← Multiset.cons_coe, Multiset.cons_add]
    refine ⟨hthere, hsame ▸ h.balanced, hpeak, ?_, ?_⟩
    · exact hmade.trans (Nat.add_le_add_right (le_max_left _ _) _)
    · simp only [havailable, List.length_cons, inUse] at heq ⊢
      omega
  | made havailable hobject _ =>
    refine ⟨hthere, h.balanced.create (haddress object hobject), Nat.le_succ_of_le hpeak, ?_, ?_⟩
    · simp only [havailable, List.length_nil, inUse] at heq ⊢
      omega
    · simp only [inUse] at heq ⊢
      omega

/-- An object comes back. -/
lemma put (h : s.Sound) (hthere : s.destroyed = false) {object : Nat} (hobject : object ∈ s.raw) :
    Sound { s with available := s.available ++ [object], raw := s.raw.erase object } := by
  have hperm := Multiset.coe_eq_coe.mpr (List.perm_cons_erase hobject)
  have heq := h.made_eq hthere
  refine ⟨?_, h.peak_le, h.made_le, fun _ => ?_, fun hgone => absurd hgone (by simp [hthere])⟩
  · have hsame : s.holdings = State.holdings { s with
        available := s.available ++ [object], raw := s.raw.erase object } := by
      simp only [holdings, hperm, ← Multiset.coe_add, ← Multiset.cons_coe, ← Multiset.singleton_add,
        Multiset.coe_nil, add_zero]
      abel
    exact hsame ▸ h.balanced
  · have hlength := List.length_erase_add_one hobject
    simp only [inUse, List.length_append, List.length_singleton] at heq ⊢
    omega

/-- What the `use` objects have, with the `i`th first. -/
lemma uses_eq {i object : Nat} (hi : s.uses[i]?.join = some object) :
    (s.uses.filterMap id : Multiset Nat) = object ::ₘ ((s.uses.set i none).filterMap id) := by
  have hget : s.uses[i]? = some (some object) := Option.join_eq_some_iff.mp hi
  have hlt := (List.getElem?_eq_some_iff.mp hget).1
  rw [filterMap_eq hget, filterMap_set hlt]
  rfl

lemma length_uses {i object : Nat} (hi : s.uses[i]?.join = some object) :
    (s.uses.filterMap id).length = ((s.uses.set i none).filterMap id).length + 1 := by
  have hcard := congrArg Multiset.card (uses_eq hi)
  rwa [Multiset.card_cons, Multiset.coe_card, Multiset.coe_card] at hcard

/-- A `use` is destroyed, with room for its object or without. -/
lemma unuse (h : s.Sound) (hthere : s.destroyed = false) {i object : Nat}
    (hi : s.uses[i]?.join = some object) :
    Sound { s with available := s.available ++ [object], uses := s.uses.set i none } ∧
      Sound { s with uses := s.uses.set i none, lost := object :: s.lost } := by
  have heq := h.made_eq hthere
  have hlength := length_uses hi
  have hmade := h.made_le
  refine ⟨⟨?_, h.peak_le, hmade, fun _ => ?_, fun hgone => absurd hgone (by simp [hthere])⟩,
    ⟨?_, h.peak_le, ?_, fun _ => ?_, h.available_eq⟩⟩
  · have hsame : s.holdings = State.holdings { s with
        available := s.available ++ [object], uses := s.uses.set i none } := by
      simp only [holdings, uses_eq hi, ← Multiset.coe_add, ← Multiset.singleton_add,
        Multiset.coe_singleton]
      abel
    exact hsame ▸ h.balanced
  · simp only [inUse, List.length_append, List.length_singleton] at heq ⊢
    omega
  · have hsame : s.holdings = State.holdings { s with
        uses := s.uses.set i none, lost := object :: s.lost } := by
      simp only [holdings, uses_eq hi, ← Multiset.cons_coe, ← Multiset.singleton_add]
      abel
    exact hsame ▸ h.balanced
  · simp only [List.length_cons]
    omega
  · simp only [inUse, List.length_cons] at heq ⊢
    omega

lemma destroy (h : s.Sound) : ∃ s', s.exec .destroy = .ok s' ∧ s'.Sound ∧ s'.lost = s.lost := by
  obtain ⟨alive, hsweep, halive⟩ := balanced_sweep h.balanced
  refine ⟨{ s with alive, available := [], destroyed := true }, ?_,
    ⟨?_, h.peak_le, h.made_le, by simp, fun _ => rfl⟩, rfl⟩
  · simp only [State.exec, hsweep]
    rfl
  · simpa [holdings] using halive

end Sound

namespace Handed

variable {object : Nat}

lemma raw (h : s.Handed object) : (State.observe { s with raw := object :: s.raw }).Sound := by
  have hpeak := h.peak_le
  have hmade := h.made_le
  have heq := h.made_eq
  have huse : State.inUse { s with raw := object :: s.raw } = s.inUse + 1 := by
    simp only [inUse, List.length_cons]
    omega
  refine ⟨?_, ?_, ?_, fun _ => ?_, fun hgone => absurd hgone (by simp [observe, h.there])⟩
  · have hsame : object ::ₘ s.holdings = State.holdings { s with raw := object :: s.raw } := by
      simp only [holdings, ← Multiset.cons_coe, Multiset.cons_add, Multiset.add_cons]
    exact hsame ▸ h.balanced
  · simp only [observe, huse]
    omega
  · simpa only [observe, huse] using hmade
  · exact heq.trans (by simp only [← huse]; rfl)

lemma use (h : s.Handed object) :
    (State.observe { s with uses := s.uses ++ [some object] }).Sound := by
  have hpeak := h.peak_le
  have hmade := h.made_le
  have heq := h.made_eq
  have huse : State.inUse { s with uses := s.uses ++ [some object] } = s.inUse + 1 := by
    simp [inUse, Nat.add_assoc]
  refine ⟨?_, ?_, ?_, fun _ => ?_, fun hgone => absurd hgone (by simp [observe, h.there])⟩
  · have hsame : object ::ₘ s.holdings = State.holdings { s with
        uses := s.uses ++ [some object] } := by
      simp [holdings, ← Multiset.coe_add, ← Multiset.singleton_add]
      abel
    exact hsame ▸ h.balanced
  · simp only [observe, huse]
    omega
  · simpa only [observe, huse] using hmade
  · exact heq.trans (by simp only [← huse]; rfl)

end Handed

/-- A call of `get` loses an object exactly if it cannot append what it has constructed. -/
lemma lost_of_gets {address : Option Nat} {room : Bool} {object : Option Nat} {s' : State}
    (hgets : Gets s address room object s') :
    s'.lost = [] ↔ s.lost = [] ∧ (s.available = [] → address.isSome → room = true) := by
  cases hgets with
  | recycled h => simp [h]
  | failed _ haddress => simp [haddress]
  | made _ _ hroom => simp [hroom]
  | leaked h haddress hroom => simp [h, haddress, hroom]

/-- No step fails, and an object is lost where there is no room for it. -/
lemma Sound.exec (h : s.Sound) {op : Op} (hlegal : s.Legal op) :
    ∃ s', s.exec op = .ok s' ∧ s'.Sound ∧ (s'.lost = [] ↔ s.lost = [] ∧ s.Spares op) := by
  cases op with
  | get address room =>
    obtain ⟨hthere, haddress⟩ := hlegal
    have hgets := gets s address room
    cases hget : s.get address room with
    | mk object s' =>
      rw [hget] at hgets
      cases object with
      | none =>
        refine ⟨s', ?_, h.of_gets_none hthere haddress hgets, lost_of_gets hgets⟩
        simp only [State.exec, hget]
      | some object =>
        refine ⟨State.observe { s' with raw := object :: s'.raw }, ?_,
          (h.handed hthere haddress hgets).raw, ?_⟩
        · simp only [State.exec, hget]
        · have hlost : s'.lost = [] ↔ s.lost = [] ∧
              (s.available = [] → address.isSome → room = true) := lost_of_gets hgets
          exact hlost
  | put object room =>
    cases room with
    | true => exact ⟨_, rfl, h.put hlegal.1 hlegal.2, (and_iff_left trivial).symm⟩
    | false => exact ⟨s, rfl, h, (and_iff_left trivial).symm⟩
  | use address room =>
    obtain ⟨hthere, haddress⟩ := hlegal
    have hgets := gets s address room
    cases hget : s.get address room with
    | mk object s' =>
      rw [hget] at hgets
      cases object with
      | none =>
        refine ⟨s', ?_, h.of_gets_none hthere haddress hgets, lost_of_gets hgets⟩
        simp only [State.exec, hget]
      | some object =>
        refine ⟨State.observe { s' with uses := s'.uses ++ [some object] }, ?_,
          (h.handed hthere haddress hgets).use, ?_⟩
        · simp only [State.exec, hget]
        · have hlost : s'.lost = [] ↔ s.lost = [] ∧
              (s.available = [] → address.isSome → room = true) := lost_of_gets hgets
          exact hlost
  | unuse i room =>
    obtain ⟨hthere, hi⟩ := hlegal
    obtain ⟨object, hi⟩ := Option.isSome_iff_exists.mp hi
    obtain ⟨hback, hlost⟩ := h.unuse hthere hi
    cases room with
    | true =>
      refine ⟨_, ?_, hback, (and_iff_left rfl).symm⟩
      simp [State.exec, hi, pushBack]
    | false =>
      refine ⟨_, ?_, hlost, by simp [Spares]⟩
      simp [State.exec, hi, pushBack]
  | destroy =>
    obtain ⟨s', hok, hsound, hlost⟩ := h.destroy
    exact ⟨s', hok, hsound, by rw [hlost]; exact (and_iff_left trivial).symm⟩

lemma Sound.holdings_of_over (h : s.Sound) (hover : s.Over) : s.holdings = s.lost := by
  obtain ⟨hgone, huse⟩ := hover
  obtain ⟨hraw, huses⟩ := Nat.add_eq_zero_iff.mp huse
  rw [List.length_eq_zero_iff] at hraw huses
  rw [holdings, h.available_eq hgone, hraw, huses]
  simp only [Multiset.coe_nil, zero_add]

end State

/-- In every run no object is deleted twice or has two owners. The pool constructs at least as many
objects as were in use at the same time, and at most as many more as it lost. When the pool is gone
and nothing is in use, nothing is left on the heap if and only if there was room for each pointer
which would be lost. -/
theorem shared_safely (ops : List Op) (hlegal : machine.Legal new ops) :
    ∃ s, ops.foldlM machine.step new = .ok s ∧
      (∀ object, s.alive object = true ↔ object ∈ s.holdings) ∧ s.holdings.Nodup ∧
      (s.peak ≤ s.made ∧ s.made ≤ s.peak + s.lost.length) ∧
      (s.Over → ((∀ object, s.alive object = false) ↔ machine.Meets State.Spares new ops)) := by
  obtain ⟨s, hrun, hsound, hlost⟩ := hlegal.result_iff_meets (I := State.Sound)
    (C := State.Spares) (D := fun s => s.lost = []) (fun _ _ h hop => h.exec hop) .new
  refine ⟨s, hrun, fun _ => hsound.balanced.alive_iff, hsound.balanced.single_nodup,
    ⟨hsound.peak_le, hsound.made_le⟩, fun hover => ?_⟩
  have hmeets : s.lost = [] ↔ machine.Meets State.Spares new ops :=
    hlost.trans (and_iff_right rfl)
  rw [← hmeets]
  simp only [hsound.balanced.not_alive_iff, hsound.holdings_of_over hover, Multiset.mem_coe]
  exact List.eq_nil_iff_forall_not_mem.symm

/-- A client and a `use` share a pool, and the list runs out of memory once. -/
def sharedRun : List Op :=
  [.get (some 1) true, .use (some 2) true, .put 1 true, .use none true, .unuse 0 false, .unuse 1 true,
    .destroy]

lemma legal_sharedRun : machine.Legal new sharedRun := by
  refine .cons ⟨rfl, ?_⟩ rfl (.cons ⟨rfl, ?_⟩ rfl (.cons ⟨rfl, ?_⟩ rfl (.cons ⟨rfl, ?_⟩ rfl
    (.cons ⟨rfl, rfl⟩ rfl (.cons ⟨rfl, rfl⟩ rfl (.cons rfl rfl trivial))))))
  · rintro a ⟨rfl⟩
    rfl
  · rintro a ⟨rfl⟩
    rfl
  · exact .head _
  · rintro a ⟨⟩

/-- The pool has made two objects and lost one. -/
theorem shared_safely_sharedRun : ∃ s, sharedRun.foldlM machine.step new = .ok s ∧
    s.made = 2 ∧ s.lost = [2] ∧ s.peak ≤ s.made ∧ s.made ≤ s.peak + s.lost.length ∧
      ((∀ object, s.alive object = false) ↔ machine.Meets State.Spares new sharedRun) := by
  obtain ⟨s, hrun, -, -, hmade, hover⟩ := shared_safely sharedRun legal_sharedRun
  obtain rfl := Except.ok.inj hrun
  exact ⟨_, rfl, rfl, rfl, hmade.1, hmade.2, hover ⟨rfl, rfl⟩⟩

end Utilmm.ObjectPool
