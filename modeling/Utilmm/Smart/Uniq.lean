import Utilmm.Smart.RefCount

/-!
# Unique values

Whatever a program does with its pointers, the memory holds one cell per value, and the pointers to
equal values refer to the same cell. A raw pointer to a value which is there already is deleted when
it is passed to the memory, and no raw pointer is deleted twice.
-/

namespace Utilmm.Smart

variable {Ty : Type} {equal : Ty → Ty → Bool}

namespace World

/-- The value of a cell. -/
def value (w : World Ty) (c : Nat) : Option Ty :=
  (w.cells.find? fun cell => cell.id = c).bind fun cell => w.heap cell.first

lemma value_eq {w : World Ty} {cell : Cell} (hnodup : (w.cells.map Cell.id).Nodup)
    (hcell : cell ∈ w.cells) : w.value cell.id = w.heap cell.first := by
  rw [value, List.find?_key hnodup hcell, Option.bind_some]

lemma eqPtr_iff {heap : Nat → Option Ty} {a b : Nat} {x y : Ty} (hrefl : equal x x = true)
    (hx : heap a = some x) (hy : heap b = some y) :
    eqPtr equal heap a b = true ↔ equal x y = true := by
  by_cases hab : a = b
  · subst hab
    obtain rfl : x = y := Option.some.inj (hx.symm.trans hy)
    simp [eqPtr, hrefl]
  · simp [eqPtr, hab, hx, hy]

lemma eqPtr_comm (hsymm : ∀ x y, equal x y = true → equal y x = true) {heap : Nat → Option Ty}
    {a b : Nat} (h : eqPtr equal heap a b = true) : eqPtr equal heap b a = true := by
  by_cases hab : b = a
  · simp [eqPtr, hab]
  · cases hx : heap a with
    | none => simp [eqPtr, hx, Ne.symm hab] at h
    | some x =>
      cases hy : heap b with
      | none => simp [eqPtr, hx, hy, Ne.symm hab] at h
      | some y =>
        have hxy : equal x y = true := by simpa [eqPtr, hx, hy, Ne.symm hab] using h
        simp [eqPtr, hx, hy, hsymm x y hxy]

/-- The memory holds one cell per value. -/
structure Unique (equal : Ty → Ty → Bool) (w : World Ty) : Prop where
  /-- No two cells hold equal values. -/
  distinct : ∀ cell ∈ w.cells, ∀ cell' ∈ w.cells, cell.id ≠ cell'.id → ∀ x y,
    w.value cell.id = some x → w.value cell'.id = some y → equal x y = false
  /-- The cell of a pointer object is there, with its value. -/
  live : ∀ c, some (some c) ∈ w.pointers → w.value c ≠ none
  /-- The pointer objects are equal which refer to equal values. -/
  equalPointer : ∀ this other c c' x y, w.pointers[this]? = some (some (some c)) →
    w.pointers[other]? = some (some (some c')) → w.value c = some x → w.value c' = some y →
    w.equalPointer this other = .ok (equal x y)
  /-- No raw pointer is deleted twice. -/
  deleted : w.deleted.Nodup

/-- The pointer object which is made of a raw pointer refers to the cell of an equal value which
is there already, and the raw pointer is deleted, or to a new cell. -/
def Enters (equal : Ty → Ty → Bool) (w : World Ty) (op : Op Ty) (w' : World Ty) : Prop :=
  ∀ this a, op = .construct (some a) ∧ this = w.pointers.length ∨ op = .reset this (some a) →
    ∃ c, w'.pointers[this]? = some (some (some c)) ∧ Memory.Interned equal w a c w'

end World

namespace Memory

variable {w : World Ty} {refs : Multiset Nat} {cell cell' : Cell}

/-- No two cells have equal values. -/
lemma eq_of_eqPtr (h : Memory equal w refs) (hequal : Equivalence fun x y => equal x y = true)
    (hcell : cell ∈ w.cells) (hcell' : cell' ∈ w.cells)
    (heq : World.eqPtr equal w.heap cell.first cell'.first = true) : cell = cell' := by
  by_contra hne
  have hsymm : Std.Symm fun cell cell' : Cell =>
      World.eqPtr equal w.heap cell.first cell'.first = false := by
    refine ⟨fun cell cell' hfalse => Bool.eq_false_iff.mpr fun htrue => ?_⟩
    rw [World.eqPtr_comm (fun _ _ => hequal.symm) htrue] at hfalse
    cases hfalse
  have hfalse := h.distinct.forall hcell hcell' hne
  rw [heq] at hfalse
  cases hfalse

lemma value_ne_none (h : Memory equal w refs) {c : Nat} (hc : c ∈ refs) : w.value c ≠ none := by
  obtain ⟨cell, hcell, rfl⟩ := (h.mem_iff c).mp hc
  rw [World.value_eq h.nodup hcell]
  exact h.alive cell hcell

lemma distinct_value (h : Memory equal w refs) (hequal : Equivalence fun x y => equal x y = true)
    (hcell : cell ∈ w.cells) (hcell' : cell' ∈ w.cells) (hne : cell.id ≠ cell'.id) {x y : Ty}
    (hx : w.value cell.id = some x) (hy : w.value cell'.id = some y) : equal x y = false := by
  rw [World.value_eq h.nodup hcell] at hx
  rw [World.value_eq h.nodup hcell'] at hy
  refine Bool.eq_false_iff.mpr fun htrue => hne (congrArg Cell.id ?_)
  exact h.eq_of_eqPtr hequal hcell hcell'
    ((World.eqPtr_iff (hequal.refl x) hx hy).mpr htrue)

end Memory

lemma Counted.unique {w : World Ty} {lost : Multiset Nat} (h : Counted equal w lost)
    (hequal : Equivalence fun x y => equal x y = true) : w.Unique equal where
  distinct cell hcell cell' hcell' hne x y hx hy :=
    Memory.distinct_value h hequal hcell hcell' hne hx hy
  live c hc := Memory.value_ne_none h (Multiset.mem_add.mpr (.inl (World.mem_refs.mpr hc)))
  equalPointer this other c c' x y hthis hother hx hy := by
    have hok : w.equalPointer this other = .ok (decide (some c = some c')) := by
      simp only [World.equalPointer, World.pointee_eq_ok hthis, World.pointee_eq_ok hother,
        Except.ok_bind]
      rfl
    rw [hok]
    by_cases hcc : c = c'
    · subst hcc
      obtain rfl : x = y := Option.some.inj (hx.symm.trans hy)
      simp [hequal.refl x]
    · obtain ⟨cell, hcell, rfl⟩ := (Memory.mem_iff h c).mp (pointee_mem hthis c rfl)
      obtain ⟨cell', hcell', rfl⟩ := (Memory.mem_iff h c').mp (pointee_mem hother c' rfl)
      simp [hcc, Memory.distinct_value h hequal hcell hcell' hcc hx hy]
  deleted := Memory.deleted_nodup h

lemma Counted.enters {w w' : World Ty} {lost : Multiset Nat} (h : Counted equal w lost)
    {op : Op Ty} (hlegal : w.Legal op) (hok : w.exec equal op = .ok w') :
    w.Enters equal op w' := by
  rintro this a (⟨rfl, rfl⟩ | rfl)
  · obtain ⟨c, w₁, hok₁, -, hpointers, -, hinterned⟩ := h.construct hlegal
    obtain rfl : w₁ = w' := Except.ok.inj (hok₁.symm.trans hok)
    obtain ⟨c', rfl, hentered⟩ := hinterned a rfl
    exact ⟨c', by simp [hpointers], hentered⟩
  · obtain ⟨⟨tmp, hthis⟩, hptr⟩ := hlegal
    obtain ⟨c, w₁, hok₁, -, hpointers, -, hnone, hinterned⟩ := h.reset hthis hptr
    obtain rfl : w₁ = w' := Except.ok.inj (hok₁.symm.trans hok)
    have hlt : this < w.pointers.length := (List.getElem?_eq_some_iff.mp hthis).1
    cases c with
    | none => exact absurd (hnone.mpr rfl) (by simp)
    | some c' =>
      refine ⟨c', ?_, hinterned a c' rfl rfl⟩
      rw [hpointers, List.getElem?_set_self hlt]

/-- In all states of a run the memory holds one cell per value, and every raw pointer which is
passed to it is entered once. -/
theorem uniq_memory_interns (hequal : Equivalence fun x y => equal x y = true) (ops : List (Op Ty))
    (hlegal : (machine equal).Legal World.empty ops) :
    (machine equal).Holds (World.Unique equal) World.empty ops ∧
      (machine equal).Follows (World.Enters equal) World.empty ops := by
  have hstep : ∀ w op, (∃ lost, Counted equal w lost) → w.Legal op →
      ∃ w', w.exec equal op = .ok w' ∧ w.Enters equal op w' ∧ ∃ lost, Counted equal w' lost := by
    rintro w op ⟨lost, h⟩ hop
    obtain ⟨lost', w', hok, hcounted, -⟩ := h.exec hop
    exact ⟨w', hok, h.enters hop hok, lost', hcounted⟩
  have hempty : ∃ lost, Counted equal (World.empty : World Ty) lost := ⟨0, .empty⟩
  constructor
  · refine Machine.Holds.of_invariant (I := fun w => ∃ lost, Counted equal w lost)
      (C := fun _ _ => True) ?_ ?_ hempty hlegal
      (.of_forall fun _ _ => trivial)
    · rintro w ⟨lost, h⟩
      exact h.unique hequal
    · intro w op h hop _
      obtain ⟨w', hok, -, hcounted⟩ := hstep w op h hop
      exact ⟨w', hok, hcounted⟩
  · exact Machine.Follows.of_invariant hstep hempty hlegal

/-- A value is entered twice, and both pointer objects refer to the first of its cells. -/
theorem uniq_memory_interns_twice :
    (machine (· == · : Nat → Nat → Bool)).Follows (World.Enters (· == ·)) World.empty
      [.alloc 5, .construct (some 0), .alloc 5, .construct (some 1)] := by
  refine (uniq_memory_interns ?_ _ ?_).2
  · simpa using eq_equivalence
  · refine .cons trivial rfl (.cons ?_ rfl (.cons trivial rfl (.cons ?_ rfl trivial)))
    · rintro a ⟨rfl⟩
      exact Option.some_ne_none (5 : Nat)
    · rintro a ⟨rfl⟩
      exact Option.some_ne_none (5 : Nat)

end Utilmm.Smart
