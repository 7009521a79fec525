import Utilmm.Core.Keys
import Utilmm.Smart.Pointer

/-!
# The memory of the smart pointers

The counters of the memory count references to its cells. The functions of the manager add a
reference or take one away, and a cell goes away with its last reference. No two cells have equal
values, and none has a value which is deleted.
-/

namespace Utilmm.Smart

variable {Ty : Type} {equal : Ty → Ty → Bool}

/-- A cell without its counter. -/
def Cell.key (cell : Cell) : Nat × Nat := (cell.id, cell.first)

/-- The references to the cells are `refs`. -/
structure Memory (equal : Ty → Ty → Bool) (w : World Ty) (refs : Multiset Nat) : Prop where
  mem_iff : ∀ c, c ∈ refs ↔ ∃ cell ∈ w.cells, cell.id = c
  counter : ∀ cell ∈ w.cells, cell.second = refs.count cell.id
  nodup : (w.cells.map Cell.id).Nodup
  lt : ∀ cell ∈ w.cells, cell.id < w.nextCell
  alive : ∀ cell ∈ w.cells, w.heap cell.first ≠ none
  distinct : w.cells.Pairwise fun cell cell' => World.eqPtr equal w.heap cell.first cell'.first = false
  heap_lt : ∀ a, w.heap a ≠ none → a < w.nextAddress
  deleted_nodup : w.deleted.Nodup
  deleted : ∀ a ∈ w.deleted, w.heap a = none ∧ a < w.nextAddress

/-- The reference to a cell which may be null. -/
def single (c : Option Nat) : Multiset Nat := c.elim 0 ({·})

@[simp] lemma single_none : single none = 0 := rfl
@[simp] lemma single_some (c : Nat) : single (some c) = {c} := rfl

namespace World

variable {w w' : World Ty} {a b c n : Nat} {cell : Cell}

lemma eqPtr_self (heap : Nat → Option Ty) : eqPtr equal heap a a = true := by simp [eqPtr]

lemma eqPtr_congr {heap heap' : Nat → Option Ty} (ha : heap' a = heap a)
    (hb : heap' b = heap b) : eqPtr equal heap' a b = eqPtr equal heap a b := by
  rw [eqPtr, eqPtr, ha, hb]

lemma cell_eq_ok (hnodup : (w.cells.map Cell.id).Nodup) (hcell : cell ∈ w.cells) :
    w.cell cell.id = .ok cell := by
  rw [World.cell, List.find?_key hnodup hcell]

/-- The cells after their counters change. -/
lemma mem_putSecond : cell ∈ (w.putSecond c n).cells ↔
    ∃ cell' ∈ w.cells, cell = if cell'.id = c then { cell' with second := n } else cell' := by
  simp [putSecond, eq_comm]

lemma map_key_putSecond : (w.putSecond c n).cells.map Cell.key = w.cells.map Cell.key :=
  List.map_modify_key c fun _ => rfl

lemma map_id_putSecond : (w.putSecond c n).cells.map Cell.id = w.cells.map Cell.id :=
  List.map_modify_key c fun _ => rfl

lemma filter_putSecond : (w.putSecond c n).cells.filter (fun cell => cell.id ≠ c) =
    w.cells.filter fun cell => cell.id ≠ c :=
  List.filter_modify_key c fun _ => rfl

end World

namespace Memory

variable {w w' : World Ty} {refs : Multiset Nat} {a c n : Nat} {cell : Cell}

lemma exists_cell (h : Memory equal w refs) (hc : c ∈ refs) :
    ∃ cell ∈ w.cells, cell.id = c ∧ w.cell c = .ok cell ∧ cell.second = refs.count c := by
  obtain ⟨cell, hcell, rfl⟩ := (h.mem_iff c).mp hc
  exact ⟨cell, hcell, rfl, World.cell_eq_ok h.nodup hcell, h.counter cell hcell⟩

/-- The counter of a cell follows its references. -/
lemma putSecond (h : Memory equal w refs) {refs' : Multiset Nat} {n : Nat}
    (hn : refs'.count c = n) (hmem : ∀ c', c' ∈ refs' ↔ c' ∈ refs)
    (hother : ∀ c', c' ≠ c → refs'.count c' = refs.count c') :
    Memory equal (w.putSecond c n) refs' where
  mem_iff c' := by
    rw [hmem, h.mem_iff]
    have hids : ∀ cells : List Cell, (∃ cell ∈ cells, cell.id = c') ↔ c' ∈ cells.map Cell.id :=
      fun cells => List.mem_map.symm
    rw [hids, hids, World.map_id_putSecond]
  counter cell hcell := by
    obtain ⟨cell', hcell', rfl⟩ := World.mem_putSecond.mp hcell
    by_cases hid : cell'.id = c
    · rw [if_pos hid, hid, hn]
    · rw [if_neg hid, hother _ hid]
      exact h.counter cell' hcell'
  nodup := by
    rw [World.map_id_putSecond]
    exact h.nodup
  lt cell hcell := by
    obtain ⟨cell', hcell', rfl⟩ := World.mem_putSecond.mp hcell
    split
    · exact h.lt cell' hcell'
    · exact h.lt cell' hcell'
  alive cell hcell := by
    obtain ⟨cell', hcell', rfl⟩ := World.mem_putSecond.mp hcell
    split
    · exact h.alive cell' hcell'
    · exact h.alive cell' hcell'
  distinct := by
    have hpair := h.distinct
    rw [World.putSecond, List.pairwise_map]
    apply hpair.imp
    intro cell cell' hr
    by_cases hid : cell.id = c <;> by_cases hid' : cell'.id = c <;> simpa [hid, hid'] using hr
  heap_lt := h.heap_lt
  deleted_nodup := h.deleted_nodup
  deleted := h.deleted

/-- What the pointers are does not matter to the memory. -/
lemma congr (h : Memory equal w refs) (hheap : w'.heap = w.heap)
    (haddress : w'.nextAddress = w.nextAddress) (hcells : w'.cells = w.cells)
    (hnext : w'.nextCell = w.nextCell) (hdeleted : w'.deleted = w.deleted) :
    Memory equal w' refs := by
  obtain ⟨h₁, h₂, h₃, h₄, h₅, h₆, h₇, h₈, h₉⟩ := h
  refine ⟨?_, ?_, ?_, ?_, ?_, ?_, ?_, ?_, ?_⟩
  · rwa [hcells]
  · rwa [hcells]
  · rwa [hcells]
  · rwa [hcells, hnext]
  · rwa [hcells, hheap]
  · rwa [hcells, hheap]
  · rwa [hheap, haddress]
  · rwa [hdeleted]
  · rwa [hdeleted, hheap, haddress]

/-! ### References come and go -/

/-- `assign` adds a reference. -/
lemma assign (h : Memory equal w refs) {c : Option Nat} (hc : ∀ c', c = some c' → c' ∈ refs) :
    ∃ w', w.assign c = .ok w' ∧ Memory equal w' (single c + refs) ∧ w'.pointers = w.pointers ∧
      w'.dropped = w.dropped ∧ w'.heap = w.heap ∧ w'.deleted = w.deleted ∧
      w'.cells.map Cell.key = w.cells.map Cell.key := by
  cases c with
  | none => exact ⟨w, rfl, by simpa using h, rfl, rfl, rfl, rfl, rfl⟩
  | some c =>
    have hmem := hc c rfl
    obtain ⟨cell, hcell, hid, hok, hsecond⟩ := h.exists_cell hmem
    refine ⟨w.putSecond c (cell.second + 1), ?_, ?_, rfl, rfl, rfl, rfl,
      World.map_key_putSecond⟩
    · rw [World.assign, hok]
      rfl
    · rw [single_some, Multiset.singleton_add]
      refine h.putSecond ?_ (fun c' => ?_) fun c' hne => Multiset.count_cons_of_ne hne _
      · rw [Multiset.count_cons_self, hsecond]
      · rw [Multiset.mem_cons]
        exact ⟨fun h => h.elim (· ▸ hmem) id, .inr⟩

/-- A value is deleted which is in no cell. -/
lemma delete (h : Memory equal w refs) (ha : w.heap a ≠ none)
    (hcells : ∀ cell ∈ w.cells, cell.first ≠ a) :
    ∃ w', w.delete a = .ok w' ∧ Memory equal w' refs ∧ w'.pointers = w.pointers ∧
      w'.dropped = w.dropped ∧ w'.cells = w.cells ∧ w'.deleted = w.deleted ++ [a] ∧
      w'.heap = Function.update w.heap a none := by
  have hheap : ∀ cell ∈ w.cells, Function.update w.heap a none cell.first = w.heap cell.first :=
    fun cell hcell => Function.update_of_ne (hcells cell hcell) _ _
  have hsub : ∀ b, Function.update w.heap a none b ≠ none → w.heap b ≠ none := by
    intro b hb
    by_cases hba : b = a
    · simp [hba] at hb
    · rwa [Function.update_of_ne hba] at hb
  refine ⟨_, if_pos (Option.isSome_iff_ne_none.mpr ha), ?_, rfl, rfl, rfl, rfl, rfl⟩
  refine ⟨h.mem_iff, h.counter, h.nodup, h.lt, ?_, ?_, ?_, ?_, ?_⟩
  · intro cell hcell
    exact (hheap cell hcell).trans_ne (h.alive cell hcell)
  · refine h.distinct.imp_of_mem fun {cell cell'} hcell hcell' hne => ?_
    exact (World.eqPtr_congr (hheap cell hcell) (hheap cell' hcell')).trans hne
  · exact fun b hb => h.heap_lt b (hsub b hb)
  · rw [List.nodup_append]
    refine ⟨h.deleted_nodup, List.nodup_singleton a, ?_⟩
    rintro b hb b' hb' rfl
    rw [List.mem_singleton.mp hb'] at hb
    exact ha (h.deleted a hb).1
  · intro b hb
    rcases List.mem_append.mp hb with hb | hb
    · obtain ⟨hnone, hlt⟩ := h.deleted b hb
      exact ⟨not_not.mp fun hne => hsub b hne hnone, hlt⟩
    · rw [List.mem_singleton.mp hb]
      exact ⟨Function.update_self _ _ _, h.heap_lt a ha⟩

/-- A raw pointer which was passed to the memory is now in the cell `c`, or it was deleted, and the
cell `c` has the equal value which was stored before. -/
def Interned (equal : Ty → Ty → Bool) (w : World Ty) (a c : Nat) (w' : World Ty) : Prop :=
  ∃ cell ∈ w'.cells, cell.id = c ∧
    ((∃ stored ∈ w.cells, World.eqPtr equal w.heap stored.first a = true ∧
        cell.key = stored.key ∧ (stored.first ≠ a → a ∈ w'.deleted)) ∨
      (∀ stored ∈ w.cells, World.eqPtr equal w.heap stored.first a = false) ∧ cell.first = a)

/-- What is interned stays so as long as there is a reference to the cell. -/
lemma Interned.mono {w₁ : World Ty} (h : Interned equal w a c w') (hw₁ : Memory equal w₁ refs)
    (hc : c ∈ refs) (hnodup : (w'.cells.map Cell.id).Nodup)
    (hkey : w₁.cells.map Cell.key ⊆ w'.cells.map Cell.key) (hdeleted : w'.deleted ⊆ w₁.deleted) :
    Interned equal w a c w₁ := by
  obtain ⟨cell, hcell, hid, hinterned⟩ := h
  obtain ⟨cell₁, hcell₁, hid₁⟩ := (hw₁.mem_iff c).mp hc
  obtain ⟨cell', hcell', hkey'⟩ := List.mem_map.mp (hkey (List.mem_map_of_mem hcell₁))
  have hid' : cell'.id = cell.id := (congrArg Prod.fst hkey').trans (hid₁.trans hid.symm)
  obtain rfl : cell' = cell := List.inj_on_of_nodup_map hnodup hcell' hcell hid'
  refine ⟨cell₁, hcell₁, hid₁, hinterned.imp ?_ ?_⟩
  · rintro ⟨stored, hstored, heq, hcellKey, hdel⟩
    exact ⟨stored, hstored, heq, hkey'.symm.trans hcellKey, fun hne => hdeleted (hdel hne)⟩
  · rintro ⟨hnew, hfirst⟩
    exact ⟨hnew, (congrArg Prod.snd hkey').symm.trans hfirst⟩

/-- A value which is equal to none is put into a new cell. -/
lemma insert (h : Memory equal w refs) (ha : w.heap a ≠ none)
    (hnew : ∀ cell ∈ w.cells, World.eqPtr equal w.heap cell.first a = false) :
    Memory equal { w with
      cells := w.cells ++ [⟨w.nextCell, a, 1⟩], nextCell := w.nextCell + 1 }
      (w.nextCell ::ₘ refs) := by
  have hfresh : w.nextCell ∉ refs := by
    intro hmem
    obtain ⟨cell, hcell, hid⟩ := (h.mem_iff _).mp hmem
    exact absurd (hid ▸ h.lt cell hcell) (lt_irrefl _)
  refine ⟨fun c => ?_, ?_, ?_, ?_, ?_, ?_, h.heap_lt, h.deleted_nodup, h.deleted⟩
  · rw [Multiset.mem_cons, h.mem_iff]
    simp [or_and_right, exists_or, eq_comm, or_comm]
  · intro cell hcell
    rcases List.mem_append.mp hcell with hcell | hcell
    · rw [h.counter cell hcell, Multiset.count_cons_of_ne (ne_of_lt (h.lt cell hcell))]
    · rw [List.mem_singleton.mp hcell]
      show 1 = Multiset.count w.nextCell _
      rw [Multiset.count_cons_self, Multiset.count_eq_zero_of_notMem hfresh]
  · rw [List.map_append, List.nodup_append]
    refine ⟨h.nodup, List.nodup_singleton _, ?_⟩
    rintro c hc c' hc' rfl
    obtain ⟨cell, hcell, rfl⟩ := List.mem_map.mp hc
    exact absurd (List.mem_singleton.mp hc') (ne_of_lt (h.lt cell hcell))
  · intro cell hcell
    rcases List.mem_append.mp hcell with hcell | hcell
    · exact Nat.lt_succ_of_lt (h.lt cell hcell)
    · rw [List.mem_singleton.mp hcell]
      exact Nat.lt_succ_self _
  · intro cell hcell
    rcases List.mem_append.mp hcell with hcell | hcell
    · exact h.alive cell hcell
    · rw [List.mem_singleton.mp hcell]
      exact ha
  · rw [List.pairwise_append]
    refine ⟨h.distinct, List.pairwise_singleton _ _, fun cell hcell cell' hcell' => ?_⟩
    rw [List.mem_singleton.mp hcell']
    exact hnew cell hcell

/-- The cell of the last reference is erased. -/
lemma erase (h : Memory equal w (c ::ₘ refs)) (hc : c ∉ refs) :
    Memory equal { w with cells := w.cells.filter fun cell => cell.id ≠ c } refs := by
  have hmem : ∀ {cell}, cell ∈ w.cells.filter (fun cell => cell.id ≠ c) →
      cell ∈ w.cells ∧ cell.id ≠ c := by
    intro cell hcell
    simpa using hcell
  refine ⟨fun c' => ?_, ?_, ?_, ?_, ?_, ?_, h.heap_lt, h.deleted_nodup, h.deleted⟩
  · have hiff := h.mem_iff c'
    rw [Multiset.mem_cons] at hiff
    constructor
    · intro hc'
      obtain ⟨cell, hcell, rfl⟩ := hiff.mp (.inr hc')
      have hne : cell.id ≠ c := fun heq => hc (heq ▸ hc')
      exact ⟨cell, by simpa using ⟨hcell, hne⟩, rfl⟩
    · rintro ⟨cell, hcell, rfl⟩
      obtain ⟨hcell, hne⟩ := hmem hcell
      exact (hiff.mpr ⟨cell, hcell, rfl⟩).resolve_left hne
  · intro cell hcell
    obtain ⟨hcell, hne⟩ := hmem hcell
    rw [h.counter cell hcell, Multiset.count_cons_of_ne hne]
  · exact h.nodup.sublist (List.filter_sublist.map _)
  · exact fun cell hcell => h.lt cell (hmem hcell).1
  · exact fun cell hcell => h.alive cell (hmem hcell).1
  · exact h.distinct.sublist List.filter_sublist

/-- No other cell has the raw pointer of a cell. -/
lemma first_ne_of_id (h : Memory equal w refs) (hcell : cell ∈ w.cells) {cell' : Cell}
    (hcell' : cell' ∈ w.cells) (hne : cell'.id ≠ cell.id) : cell'.first ≠ cell.first := by
  intro heq
  have hpair : (w.cells.map Cell.first).Nodup := by
    refine List.pairwise_map.mpr (h.distinct.imp fun {cell cell'} hfalse heq => ?_)
    rw [heq, World.eqPtr_self] at hfalse
    cases hfalse
  exact hne (congrArg Cell.id (List.inj_on_of_nodup_map hpair hcell' hcell heq))

/-- Only the cell which is found can have the raw pointer. -/
lemma first_ne (h : Memory equal w refs)
    (hfind : (w.cells.find? fun cell => World.eqPtr equal w.heap cell.first a) = some cell)
    (hne : cell.first ≠ a) : ∀ cell' ∈ w.cells, cell'.first ≠ a := by
  obtain ⟨hcell, cells, cells', hsplit, hbefore⟩ := List.find?_eq_some_iff_append.mp hfind
  have hpair := h.distinct
  rw [hsplit, List.pairwise_append, List.pairwise_cons] at hpair
  rintro cell' hcell' rfl
  rw [hsplit] at hcell'
  rcases List.mem_append.mp hcell' with hcell' | hcell'
  · have := hbefore cell' hcell'
    rw [World.eqPtr_self] at this
    cases this
  · rcases List.mem_cons.mp hcell' with rfl | hcell'
    · exact hne rfl
    · rw [hpair.2.1.1 cell' hcell'] at hcell
      cases hcell

lemma manage_eq {w₁ : World Ty} (hcreate : w.create equal a = .ok (c, w₁))
    (hassign : w₁.assign (some c) = .ok w') :
    w.manage equal (some a) = .ok (some c, w') := by
  simp only [World.manage, hcreate, Except.ok_bind, hassign]
  rfl

/-- The first reference to a new cell. -/
lemma assign_append (hne : ∀ cell ∈ w.cells, cell.id ≠ c) :
    World.assign { w with cells := w.cells ++ [⟨c, a, 0⟩], nextCell := n } (some c) =
      .ok { w with cells := w.cells ++ [⟨c, a, 1⟩], nextCell := n } := by
  have hfind : (w.cells.find? fun cell => cell.id = c) = none := by simpa using hne
  have hmap : w.cells.map (fun cell => if cell.id = c then { cell with second := 1 } else cell) =
      w.cells :=
    (List.map_congr_left fun cell hcell => if_neg (hne cell hcell)).trans (List.map_id _)
  simp [World.assign, World.cell, World.putSecond, List.find?_append, hfind, hmap]

/-- `manage` adds a reference to the cell of the value. -/
lemma manage_some (h : Memory equal w refs) (ha : w.heap a ≠ none) :
    ∃ c w', w.manage equal (some a) = .ok (some c, w') ∧ Memory equal w' (c ::ₘ refs) ∧
      w'.pointers = w.pointers ∧ w'.dropped = w.dropped ∧ Interned equal w a c w' := by
  cases hfind : w.cells.find? fun cell => World.eqPtr equal w.heap cell.first a with
  | some cell =>
    have hcell : cell ∈ w.cells := List.mem_of_find?_eq_some hfind
    have heq : World.eqPtr equal w.heap cell.first a = true := by
      simpa using List.find?_some hfind
    have hmem : cell.id ∈ refs := (h.mem_iff _).mpr ⟨cell, hcell, rfl⟩
    -- the raw pointer is deleted unless it is the one which is stored
    obtain ⟨w₁, hcreate, hmemory₁, hpointers₁, hdropped₁, hcells₁, hdeleted₁⟩ :
        ∃ w₁, w.create equal a = .ok (cell.id, w₁) ∧ Memory equal w₁ refs ∧
          w₁.pointers = w.pointers ∧ w₁.dropped = w.dropped ∧ w₁.cells = w.cells ∧
          (cell.first ≠ a → a ∈ w₁.deleted) := by
      by_cases hne : cell.first = a
      · refine ⟨w, ?_, h, rfl, rfl, rfl, fun hne' => absurd hne hne'⟩
        simp only [World.create, hfind, hne, ne_eq, not_true_eq_false, if_false]
        rfl
      · obtain ⟨w₁, hdelete, hmemory₁, hpointers₁, hdropped₁, hcells₁, hdeleted₁, -⟩ :=
          h.delete ha (h.first_ne hfind hne)
        refine ⟨w₁, ?_, hmemory₁, hpointers₁, hdropped₁, hcells₁, fun _ => by simp [hdeleted₁]⟩
        simp only [World.create, hfind, ne_eq, hne, not_false_iff, if_true, hdelete]
        rfl
    obtain ⟨w', hassign, hmemory, hpointers, hdropped, -, hdeleted, hkey⟩ :=
      hmemory₁.assign (c := some cell.id) fun c' hc' => Option.some.inj hc' ▸ hmem
    refine ⟨cell.id, w', manage_eq hcreate hassign, by simpa using hmemory,
      hpointers.trans hpointers₁, hdropped.trans hdropped₁, ?_⟩
    rw [hcells₁] at hkey
    have hstill : cell.key ∈ w'.cells.map Cell.key := by
      rw [hkey]
      exact List.mem_map_of_mem hcell
    obtain ⟨cell', hcell', hkey'⟩ := List.mem_map.mp hstill
    exact ⟨cell', hcell', congrArg Prod.fst hkey',
      .inl ⟨cell, hcell, heq, hkey', fun hne => hdeleted ▸ hdeleted₁ hne⟩⟩
  | none =>
    have hnew : ∀ cell ∈ w.cells, World.eqPtr equal w.heap cell.first a = false := by
      simpa using hfind
    have hlt : ∀ cell ∈ w.cells, cell.id ≠ w.nextCell := fun cell hcell => (h.lt cell hcell).ne
    refine ⟨w.nextCell, _, manage_eq (by rw [World.create, hfind]; rfl)
      (assign_append hlt), h.insert ha hnew, rfl, rfl, ⟨w.nextCell, a, 1⟩, ?_, rfl,
      .inr ⟨hnew, rfl⟩⟩
    simp

lemma manage (h : Memory equal w refs) {ptr : Option Nat} (hptr : w.Valid ptr) :
    ∃ c w', w.manage equal ptr = .ok (c, w') ∧ Memory equal w' (single c + refs) ∧
      w'.pointers = w.pointers ∧ w'.dropped = w.dropped ∧ (ptr = none ↔ c = none) ∧
      ∀ a c', ptr = some a → c = some c' → Interned equal w a c' w' := by
  cases ptr with
  | none => exact ⟨none, w, rfl, by simpa using h, rfl, rfl, by simp, by simp⟩
  | some a =>
    obtain ⟨c, w', hmanage, hmemory, hpointers, hdropped, hinterned⟩ := h.manage_some (hptr a rfl)
    refine ⟨some c, w', hmanage, by simpa using hmemory, hpointers, hdropped, by simp, ?_⟩
    rintro _ _ ⟨rfl⟩ ⟨rfl⟩
    exact hinterned

/-- `release` takes a reference away, and the last one with its cell. -/
lemma release {c : Option Nat} (h : Memory equal w (single c + refs)) :
    ∃ w', w.release c = .ok w' ∧ Memory equal w' refs ∧ w'.pointers = w.pointers ∧
      w'.dropped = w.dropped ∧ w'.cells.map Cell.key ⊆ w.cells.map Cell.key ∧
      w.deleted ⊆ w'.deleted := by
  cases c with
  | none => exact ⟨w, rfl, by simpa using h, rfl, rfl, List.Subset.refl _, List.Subset.refl _⟩
  | some c =>
    rw [single_some, Multiset.singleton_add] at h
    obtain ⟨cell, hcell, hid, hok, hsecond⟩ := h.exists_cell (Multiset.mem_cons_self c refs)
    rw [Multiset.count_cons_self] at hsecond
    by_cases hc : c ∈ refs
    · have hpos : 0 < refs.count c := Multiset.count_pos.mpr hc
      refine ⟨w.putSecond c (cell.second - 1), ?_, ?_, rfl, rfl,
        by rw [World.map_key_putSecond]; exact List.Subset.refl _, List.Subset.refl _⟩
      · have hlast : ¬ cell.second ≤ 1 := by omega
        simp only [World.release, hok, Except.ok_bind, hlast, if_false]
        rfl
      · refine h.putSecond (by omega) (fun c' => ?_) fun c' hne => ?_
        · rw [Multiset.mem_cons]
          exact ⟨.inr, fun h => h.elim (· ▸ hc) id⟩
        · rw [Multiset.count_cons_of_ne hne]
    · have hlast : cell.second ≤ 1 := by
        rw [hsecond, Multiset.count_eq_zero_of_notMem hc]
      have hothers : ∀ cell' ∈ w.cells.filter (fun cell => cell.id ≠ c),
          cell'.first ≠ cell.first := by
        intro cell' hcell'
        obtain ⟨hcell', hne⟩ : cell' ∈ w.cells ∧ cell'.id ≠ c := by simpa using hcell'
        exact h.first_ne_of_id hcell hcell' (hid.symm ▸ hne)
      obtain ⟨w', hdelete, hmemory, hpointers, hdropped, hcells, hdeleted, -⟩ :=
        (h.erase hc).delete (h.alive cell hcell) hothers
      refine ⟨w', ?_, hmemory, hpointers, hdropped, ?_, ?_⟩
      rotate_left
      · rw [hcells]
        exact (List.filter_sublist.map _).subset
      · rw [hdeleted]
        exact List.subset_append_left _ _
      have hcell₁ : (w.putSecond c (cell.second - 1)).cell c =
          .ok { cell with second := cell.second - 1 } := by
        have hput : { cell with second := cell.second - 1 } ∈
            (w.putSecond c (cell.second - 1)).cells :=
          World.mem_putSecond.mpr ⟨cell, hcell, (if_pos hid).symm⟩
        rw [← hid] at hput ⊢
        exact World.cell_eq_ok (World.map_id_putSecond.symm ▸ h.nodup) hput
      simp only [World.release, hok, Except.ok_bind, hlast, if_true, World.destroy, hcell₁,
        World.filter_putSecond]
      exact hdelete

/-- The allocation of a value. -/
lemma alloc (h : Memory equal w refs) (value : Ty) : Memory equal (w.alloc value) refs := by
  have hheap : ∀ a, a ≠ w.nextAddress → (w.alloc value).heap a = w.heap a :=
    fun a ha => Function.update_of_ne ha _ _
  have hcells : ∀ cell ∈ w.cells, (w.alloc value).heap cell.first = w.heap cell.first :=
    fun cell hcell => hheap _ (h.heap_lt _ (h.alive cell hcell)).ne
  refine ⟨h.mem_iff, h.counter, h.nodup, h.lt, ?_, ?_, ?_, h.deleted_nodup, ?_⟩
  · intro cell hcell
    rw [hcells cell hcell]
    exact h.alive cell hcell
  · refine h.distinct.imp_of_mem fun {cell cell'} hcell hcell' hne => ?_
    exact (World.eqPtr_congr (hcells cell hcell) (hcells cell' hcell')).trans hne
  · intro a ha
    show a < w.nextAddress + 1
    by_cases hne : a = w.nextAddress
    · exact hne ▸ Nat.lt_succ_self a
    · rw [hheap a hne] at ha
      exact Nat.lt_succ_of_lt (h.heap_lt a ha)
  · intro a ha
    obtain ⟨hnone, hlt⟩ := h.deleted a ha
    exact ⟨(hheap a hlt.ne).trans hnone, Nat.lt_succ_of_lt hlt⟩

/-- The memory goes away, and another one takes its place. -/
lemma drop (h : Memory equal w refs) (dropped : List Nat) :
    Memory equal { w with cells := [], dropped } 0 := by
  refine ⟨?_, ?_, ?_, ?_, ?_, ?_, h.heap_lt, h.deleted_nodup, h.deleted⟩ <;> simp

end Memory

end Utilmm.Smart
