import Utilmm.Smart.Memory

/-!
# Reference counts

The references which the pointer objects hold are among those which the memory counts. The others
are lost: `reset` with a raw pointer counts a reference twice, in `manage` and in `assign`, and
holds it once.
-/

namespace Utilmm.Smart

variable {Ty : Type} {equal : Ty → Ty → Bool}

namespace World

variable {w w' : World Ty}

/-- The references which the pointer objects hold. -/
def refs (w : World Ty) : Multiset Nat := (w.pointers.filterMap Option.join : List Nat)

lemma refs_congr (h : w'.pointers = w.pointers) : w'.refs = w.refs := by rw [refs, refs, h]

lemma count_refs (w : World Ty) (c : Nat) : w.refs.count c = w.pointers.count (some (some c)) := by
  rw [refs, Multiset.coe_count]
  induction w.pointers with
  | nil => rfl
  | cons p ps ih =>
    rcases p with _ | _ | c'
    · simpa using ih
    · simpa using ih
    · by_cases h : c' = c <;> simp [h, ih]

lemma mem_refs {c : Nat} : c ∈ w.refs ↔ some (some c) ∈ w.pointers := by
  rw [← Multiset.count_pos, count_refs, List.count_pos_iff]

@[simp] lemma refs_push (c : Option Nat) : (w.push c).refs = single c + w.refs := by
  rw [refs, push, List.filterMap_append, ← Multiset.coe_add, add_comm]
  cases c <;> rfl

/-- The reference of one pointer object, apart from the others. -/
lemma refs_putPointee {this : Nat} {p : Option (Option Nat)} (h : w.pointers[this]? = some p) :
    ∃ rest, w.refs = single p.join + rest ∧
      ∀ p', (w.putPointee this p').refs = single p'.join + rest := by
  obtain ⟨hlt, hp⟩ := List.getElem?_eq_some_iff.mp h
  let rest : Multiset Nat := ((w.pointers.take this).filterMap Option.join : List Nat) +
    ((w.pointers.drop (this + 1)).filterMap Option.join : List Nat)
  have hrefs : ∀ p', (w.putPointee this p').refs = single p'.join + rest := by
    intro p'
    rw [refs, putPointee, List.set_eq_take_append_cons_drop, if_pos hlt, List.filterMap_append,
      ← Multiset.coe_add, List.filterMap_cons]
    rcases p' with _ | _ | c
    · simp [rest]
    · simp [rest]
    · simp [rest, Multiset.singleton_add, ← Multiset.cons_coe]
  refine ⟨rest, ?_, hrefs⟩
  have hself : w.pointers.set this p = w.pointers := by
    rw [← hp, List.set_getElem_self]
  rw [← hrefs p, refs, refs, putPointee, hself]

lemma valid_none (w : World Ty) : w.Valid none := by simp [Valid]

lemma pointee_eq_ok {this : Nat} {c : Option Nat} (h : w.pointers[this]? = some (some c)) :
    w.pointee this = .ok c := by
  rw [pointee, h]

end World

/-- The memory counts the references of the pointer objects, and the ones in `lost`. -/
def Counted (equal : Ty → Ty → Bool) (w : World Ty) (lost : Multiset Nat) : Prop :=
  Memory equal w (w.refs + lost)

namespace Counted

variable {w : World Ty} {lost : Multiset Nat} {this other : Nat} {c c' ptr : Option Nat}

lemma pointee_mem (h : w.pointers[this]? = some (some c)) :
    ∀ c', c = some c' → c' ∈ w.refs + lost := by
  rintro c' rfl
  exact Multiset.mem_add.mpr (.inl (World.mem_refs.mpr (List.mem_of_getElem? h)))

lemma of_refs {w' : World Ty} (h : Memory equal w (w'.refs + lost))
    (hw' : w' = { w with pointers := w'.pointers }) : Counted equal w' lost :=
  h.congr (by rw [hw']) (by rw [hw']) (by rw [hw']) (by rw [hw']) (by rw [hw'])

lemma construct (h : Counted equal w lost) (hptr : w.Valid ptr) :
    ∃ c w', w.construct equal ptr = .ok w' ∧ Counted equal w' lost ∧
      w'.pointers = w.pointers ++ [some c] ∧ w'.dropped = w.dropped ∧
      ∀ a, ptr = some a → ∃ c', c = some c' ∧ Memory.Interned equal w a c' w' := by
  obtain ⟨c, w', hmanage, hmemory, hpointers, hdropped, hnone, hinterned⟩ := Memory.manage h hptr
  refine ⟨c, w'.push c, ?_, of_refs ?_ rfl, by rw [World.push, hpointers], hdropped, ?_⟩
  · simp only [World.construct, hmanage, Except.ok_bind]
    rfl
  · rwa [World.refs_push, World.refs_congr hpointers, add_assoc]
  · rintro a rfl
    cases c with
    | none => exact absurd (hnone.mpr rfl) (by simp)
    | some c => exact ⟨c, rfl, hinterned a c rfl rfl⟩

lemma copy (h : Counted equal w lost) (hother : w.pointers[other]? = some (some c)) :
    ∃ w', w.copy other = .ok w' ∧ Counted equal w' lost ∧
      w'.pointers = w.pointers ++ [some c] ∧ w'.dropped = w.dropped := by
  obtain ⟨w', hassign, hmemory, hpointers, hdropped, -⟩ := Memory.assign h (pointee_mem hother)
  refine ⟨w'.push c, ?_, of_refs ?_ rfl, by rw [World.push, hpointers], hdropped⟩
  · simp only [World.copy, World.pointee_eq_ok hother, Except.ok_bind, hassign]
    rfl
  · rwa [World.refs_push, World.refs_congr hpointers, add_assoc]

/-- The two pointer objects exchange their references, also when they are the same. -/
lemma swap (h : Counted equal w lost) (hthis : w.pointers[this]? = some (some c))
    (hother : w.pointers[other]? = some (some c')) :
    ∃ w', w.swap this other = .ok w' ∧ Counted equal w' lost ∧
      w'.pointers = (w.pointers.set this (some c')).set other (some c) ∧
      w'.dropped = w.dropped := by
  refine ⟨(w.putPointee this (some c')).putPointee other (some c), ?_, of_refs ?_ rfl, rfl, rfl⟩
  · simp only [World.swap, World.pointee_eq_ok hthis, World.pointee_eq_ok hother, Except.ok_bind]
    rfl
  · have hother' : (w.putPointee this (some c')).pointers[other]? = some (some c') := by
      show (w.pointers.set this (some c'))[other]? = _
      by_cases heq : this = other
      · have hlt : this < w.pointers.length := (List.getElem?_eq_some_iff.mp hthis).1
        rw [← heq, List.getElem?_set_self hlt]
      · rw [List.getElem?_set_ne heq, hother]
    obtain ⟨rest, hrefs, hput⟩ := World.refs_putPointee hthis
    obtain ⟨rest', hrefs', hput'⟩ := World.refs_putPointee hother'
    have hrest : rest = rest' := by
      have := (hput (some c')).symm.trans hrefs'
      exact add_left_cancel this
    rw [hput', ← hrest]
    rw [Counted, hrefs] at h
    exact Memory.congr h rfl rfl rfl rfl rfl

/-- Besides the reference which the pointer object gets, `reset` counts one which is lost. -/
lemma reset (h : Counted equal w lost) (hthis : w.pointers[this]? = some (some c))
    (hptr : w.Valid ptr) :
    ∃ c' w', w.reset equal this ptr = .ok w' ∧ Counted equal w' (single c' + lost) ∧
      w'.pointers = w.pointers.set this (some c') ∧ w'.dropped = w.dropped ∧
      (ptr = none ↔ c' = none) ∧
      ∀ a c₁, ptr = some a → c' = some c₁ → Memory.Interned equal w a c₁ w' := by
  obtain ⟨c', w₁, hmanage, hmemory₁, hpointers₁, hdropped₁, hnone, hinterned⟩ :=
    Memory.manage h hptr
  obtain ⟨w₂, hassign, hmemory₂, hpointers₂, hdropped₂, hheap₂, hdeleted₂, hkey₂⟩ :=
    hmemory₁.assign (c := c') (by rintro c₁ rfl; simp)
  rw [hpointers₁] at hpointers₂
  have hthis₂ : w₂.pointers[this]? = some (some c) := hpointers₂ ▸ hthis
  obtain ⟨rest, hrefs, hput⟩ := World.refs_putPointee hthis₂
  rw [World.refs_congr hpointers₂] at hrefs
  have hmemory : Memory equal (w₂.putPointee this (some c'))
      (single c + ((w₂.putPointee this (some c')).refs + (single c' + lost))) := by
    refine Memory.congr (w := w₂) ?_ rfl rfl rfl rfl rfl
    rw [hput]
    rw [hrefs] at hmemory₂
    convert hmemory₂ using 1
    show single c + (single c' + rest + (single c' + lost)) =
      single c' + (single c' + (single c + rest + lost))
    abel
  obtain ⟨w', hrelease, hmemory', hpointers', hdropped', hkey', hdeleted'⟩ := hmemory.release
  refine ⟨c', w', ?_, ?_, ?_, ?_, hnone, ?_⟩
  · simp only [World.reset, World.pointee_eq_ok hthis, hmanage, Except.ok_bind, hassign]
    exact hrelease
  · rwa [Counted, World.refs_congr hpointers']
  · rw [hpointers', World.putPointee, hpointers₂]
  · rw [hdropped', World.putPointee, hdropped₂, hdropped₁]
  · rintro a c₁ rfl rfl
    refine (hinterned a c₁ rfl rfl).mono hmemory' (by simp) hmemory₁.nodup ?_ ?_
    · rw [← hkey₂]
      exact hkey'
    · rw [← hdeleted₂]
      exact hdeleted'

/-- The manager goes away with its memory, in which only the lost references can be left. -/
lemma drop (h : Counted equal w lost) (hall : w.pointers.all Option.isNone = true) :
    Counted equal { w with cells := [], dropped := w.dropped ++ w.cells.map Cell.first } 0 ∧
      (lost = 0 → w.dropped ++ w.cells.map Cell.first = w.dropped) := by
  have hrefs : w.refs = 0 := by
    refine Multiset.eq_zero_of_forall_notMem fun c hc => ?_
    simpa using List.all_eq_true.mp hall _ (World.mem_refs.mp hc)
  refine ⟨?_, ?_⟩
  · have hdrop := Memory.drop h (w.dropped ++ w.cells.map Cell.first)
    rwa [← hrefs, ← add_zero w.refs] at hdrop
  · rintro rfl
    have hcells : w.cells = [] := by
      refine List.eq_nil_iff_forall_not_mem.mpr fun cell hcell => ?_
      have hmem := (Memory.mem_iff h cell.id).mpr ⟨cell, hcell, rfl⟩
      simp [hrefs] at hmem
    rw [hcells, List.map_nil, List.append_nil]

/-- With the last pointer object, the lost references are gone as well. -/
lemma destroyPointer (h : Counted equal w lost) (hthis : w.pointers[this]? = some (some c)) :
    ∃ lost' w', w.destroyPointer equal this = .ok w' ∧ Counted equal w' lost' ∧
      w'.pointers = w.pointers.set this none ∧
      (lost = 0 → lost' = 0 ∧ w'.dropped = w.dropped) := by
  obtain ⟨c', w₁, hreset, hmemory₁, hpointers₁, hdropped₁, hnone, -⟩ :=
    h.reset hthis w.valid_none
  obtain rfl : c' = none := hnone.mp rfl
  have hlt : this < w.pointers.length := (List.getElem?_eq_some_iff.mp hthis).1
  have hthis₁ : w₁.pointers[this]? = some (some none) := by
    rw [hpointers₁, List.getElem?_set_self hlt]
  obtain ⟨rest, hrefs, hput⟩ := World.refs_putPointee hthis₁
  have hcounted : Counted equal (w₁.putPointee this none) lost := by
    refine of_refs (w := w₁) ?_ rfl
    rw [hput none]
    simpa [Counted, hrefs] using hmemory₁
  have hpointers : (w₁.putPointee this none).pointers = w.pointers.set this none := by
    rw [World.putPointee, hpointers₁, List.set_set]
  by_cases hall : (w₁.putPointee this none).pointers.all Option.isNone = true
  · obtain ⟨hcounted', hdropped⟩ := hcounted.drop hall
    refine ⟨0, _, ?_, hcounted', hpointers, fun h => ⟨rfl, (hdropped h).trans hdropped₁⟩⟩
    simp only [World.destroyPointer, hreset, Except.ok_bind, hall, if_true]
    rfl
  · refine ⟨lost, w₁.putPointee this none, ?_, hcounted, hpointers, fun h => ⟨h, hdropped₁⟩⟩
    simp only [World.destroyPointer, hreset, Except.ok_bind, hall]
    rfl

lemma assignPointer (h : Counted equal w lost) (hthis : w.pointers[this]? = some (some c))
    (hother : w.pointers[other]? = some (some c')) :
    ∃ lost' w', w.assignPointer equal this other = .ok w' ∧ Counted equal w' lost' ∧
      w'.pointers = (w.pointers.set this (some c')) ++ [none] ∧
      (lost = 0 → lost' = 0 ∧ w'.dropped = w.dropped) := by
  have hlt : this < w.pointers.length := (List.getElem?_eq_some_iff.mp hthis).1
  obtain ⟨w₁, hcopy, hcounted₁, hpointers₁, hdropped₁⟩ := h.copy hother
  have hthis₁ : w₁.pointers[this]? = some (some c) := by
    rw [hpointers₁, List.getElem?_append_left hlt, hthis]
  have htmp₁ : w₁.pointers[w.pointers.length]? = some (some c') := by simp [hpointers₁]
  obtain ⟨w₂, hswap, hcounted₂, hpointers₂, hdropped₂⟩ := hcounted₁.swap hthis₁ htmp₁
  have hset : w₂.pointers = w.pointers.set this (some c') ++ [some c] := by
    rw [hpointers₂, hpointers₁, List.set_append_left _ _ hlt, List.set_append_right _ _ (by simp)]
    simp
  have htmp₂ : w₂.pointers[w.pointers.length]? = some (some c) := by simp [hset]
  obtain ⟨lost', w', hdestroy, hcounted', hpointers', hlost⟩ := hcounted₂.destroyPointer htmp₂
  refine ⟨lost', w', ?_, hcounted', ?_, fun h => ?_⟩
  · simp only [World.assignPointer, hcopy, hswap, Except.ok_bind]
    exact hdestroy
  · rw [hpointers', hset, List.set_append_right _ _ (by simp)]
    simp
  · obtain ⟨hzero, hdropped'⟩ := hlost h
    exact ⟨hzero, hdropped'.trans (hdropped₂.trans hdropped₁)⟩

end Counted

/-! ### Runs -/

/-- The operation counts each reference which it takes once. -/
def Op.Balanced : Op Ty → Prop
  | .reset _ (some _) => False
  | _ => True

lemma Counted.empty : Counted equal (World.empty : World Ty) 0 := by
  constructor <;> simp [World.empty, World.refs]

/-- What an operation does to the lost references. -/
lemma Counted.exec {w : World Ty} {lost : Multiset Nat} (h : Counted equal w lost) {op : Op Ty}
    (hlegal : w.Legal op) :
    ∃ lost' w', w.exec equal op = .ok w' ∧ Counted equal w' lost' ∧
      (op.Balanced → lost = 0 → lost' = 0 ∧ w'.dropped = w.dropped) ∧
      (¬ op.Balanced → lost' ≠ 0) := by
  cases op with
  | alloc value =>
    exact ⟨lost, _, rfl, Memory.alloc h value, fun _ h => ⟨h, rfl⟩, fun h => absurd trivial h⟩
  | construct ptr =>
    obtain ⟨c, w', hok, hcounted, -, hdropped, -⟩ := h.construct hlegal
    exact ⟨lost, w', hok, hcounted, fun _ h => ⟨h, hdropped⟩, fun h => absurd trivial h⟩
  | copy other =>
    obtain ⟨c, hother⟩ := hlegal
    obtain ⟨w', hok, hcounted, -, hdropped⟩ := h.copy hother
    exact ⟨lost, w', hok, hcounted, fun _ h => ⟨h, hdropped⟩, fun h => absurd trivial h⟩
  | assign this other =>
    obtain ⟨⟨c, hthis⟩, c', hother⟩ := hlegal
    obtain ⟨lost', w', hok, hcounted, -, hlost⟩ := h.assignPointer hthis hother
    exact ⟨lost', w', hok, hcounted, fun _ => hlost, fun h => absurd trivial h⟩
  | swap this other =>
    obtain ⟨⟨c, hthis⟩, c', hother⟩ := hlegal
    obtain ⟨w', hok, hcounted, -, hdropped⟩ := h.swap hthis hother
    exact ⟨lost, w', hok, hcounted, fun _ h => ⟨h, hdropped⟩, fun h => absurd trivial h⟩
  | reset this ptr =>
    obtain ⟨⟨c, hthis⟩, hptr⟩ := hlegal
    obtain ⟨c', w', hok, hcounted, -, hdropped, hnone, -⟩ := h.reset hthis hptr
    refine ⟨single c' + lost, w', hok, hcounted, ?_, ?_⟩
    · cases ptr with
      | none => simp [hnone.mp rfl, hdropped]
      | some a => exact fun h => h.elim
    · cases ptr with
      | none => exact fun h => absurd trivial h
      | some a =>
        cases c' with
        | none => exact absurd (hnone.mpr rfl) (by simp)
        | some c' => simp
  | destroy this =>
    obtain ⟨c, hthis⟩ := hlegal
    obtain ⟨lost', w', hok, hcounted, -, hlost⟩ := h.destroyPointer hthis
    exact ⟨lost', w', hok, hcounted, fun _ => hlost, fun h => absurd trivial h⟩

/-- The counters are exact: each cell counts the pointer objects which refer to it, of which there
is one at least, and a pointer object refers to a cell which is there. Nothing is left over. -/
structure World.Exact (w : World Ty) : Prop where
  counter : ∀ cell ∈ w.cells, cell.second = w.pointers.count (some (some cell.id))
  referred : ∀ cell ∈ w.cells, some (some cell.id) ∈ w.pointers
  cell : ∀ c, some (some c) ∈ w.pointers → ∃ cell ∈ w.cells, cell.id = c
  dropped : w.dropped = []

/-- The counters are exact as long as no reference is lost. -/
lemma Counted.exact {w : World Ty} (h : Counted equal w 0) (hdropped : w.dropped = []) :
    w.Exact := by
  rw [Counted, add_zero] at h
  refine ⟨fun cell hcell => ?_, fun cell hcell => ?_, fun c hc => ?_, hdropped⟩
  · rw [h.counter cell hcell, World.count_refs]
  · exact World.mem_refs.mp ((h.mem_iff _).mpr ⟨cell, hcell, rfl⟩)
  · exact (h.mem_iff c).mp (World.mem_refs.mpr hc)

/-- The counter of a cell is too large after a reference is lost. -/
lemma Counted.not_exact {w : World Ty} {lost : Multiset Nat} (h : Counted equal w lost)
    (hlost : lost ≠ 0) : ¬ w.Exact := by
  intro hexact
  obtain ⟨c, hc⟩ := Multiset.exists_mem_of_ne_zero hlost
  obtain ⟨cell, hcell, rfl⟩ := (Memory.mem_iff h c).mp (Multiset.mem_add.mpr (.inr hc))
  have hcounter := Memory.counter h cell hcell
  rw [hexact.counter cell hcell, Multiset.count_add, World.count_refs] at hcounter
  have hpos : 0 < lost.count cell.id := Multiset.count_pos.mpr hc
  omega

/-- The counters are exact in all states of a run if and only if no pointer object is reset to a
raw pointer in it. -/
theorem refCount_exact_iff (equal : Ty → Ty → Bool) (ops : List (Op Ty))
    (hlegal : (machine equal).Legal World.empty ops) :
    (machine equal).Holds World.Exact World.empty ops ↔
      ∀ this ptr, Op.reset this (some ptr) ∉ ops := by
  have hiff : (machine equal).Holds World.Exact World.empty ops ↔
      (machine equal).Meets (fun _ op => op.Balanced) World.empty ops := by
    apply Machine.holds_iff_meets (I := fun w => Counted equal w 0 ∧ w.dropped = [])
    · exact fun w h => h.1.exact h.2
    · intro w op h hop hbalanced
      obtain ⟨lost', w', hok, hcounted, hkeeps, -⟩ := h.1.exec hop
      obtain ⟨rfl, hdropped⟩ := hkeeps hbalanced rfl
      exact ⟨w', hok, hcounted, hdropped.trans h.2⟩
    · intro w op w' h hop hbalanced hok
      obtain ⟨lost', w₁, hok₁, hcounted, -, hlost⟩ := h.1.exec hop
      obtain rfl : w₁ = w' := Except.ok.inj (hok₁.symm.trans hok)
      exact hcounted.not_exact (hlost hbalanced)
    · exact ⟨.empty, rfl⟩
    · exact hlegal
  have hall : (∀ this ptr, Op.reset this (some ptr) ∉ ops) ↔ ∀ op ∈ ops, op.Balanced := by
    refine ⟨fun h op hop => ?_, fun h this ptr hmem => h _ hmem⟩
    cases op with
    | reset this ptr =>
      cases ptr with
      | none => trivial
      | some ptr => exact h this ptr hop
    | _ => trivial
  rw [hall]
  exact ⟨fun h => h.forall_of_meets (hiff.mp h), fun h => hiff.mpr (Machine.Meets.of_forall h)⟩

/-- A value which two pointer objects share, one of which is destroyed. -/
theorem refCount_exact_iff_shared :
    (machine (· == · : Nat → Nat → Bool)).Holds World.Exact World.empty
      [.alloc 5, .construct (some 0), .copy 0, .destroy 0] := by
  refine (refCount_exact_iff _ _ ?_).mpr (by simp)
  refine .cons trivial rfl (.cons ?_ rfl (.cons ⟨some 0, rfl⟩ rfl (.cons ⟨some 0, rfl⟩ rfl ?_)))
  · rintro a ⟨rfl⟩
    exact Option.some_ne_none (5 : Nat)
  · trivial

/-- After `reset(new int(5))` the counter of the cell is two, with one pointer object. -/
theorem refCount_reset_counts_twice :
    (machine (· == · : Nat → Nat → Bool)).Legal World.empty
        [.construct none, .alloc 5, .reset 0 (some 0)] ∧
      ¬ (machine (· == · : Nat → Nat → Bool)).Holds World.Exact World.empty
        [.construct none, .alloc 5, .reset 0 (some 0)] := by
  constructor
  · refine .cons (World.valid_none _) rfl (.cons trivial rfl (.cons ⟨⟨none, rfl⟩, ?_⟩ rfl trivial))
    rintro a ⟨rfl⟩
    exact Option.some_ne_none (5 : Nat)
  · intro h
    have hexact := h.result rfl
    have hcounter := hexact.counter ⟨0, 0, 2⟩ (List.mem_singleton_self _)
    exact absurd hcounter (by decide)

end Utilmm.Smart
