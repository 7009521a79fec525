import Mathlib.Tactic
import Mathlib.Data.List.TakeWhile
import Mathlib.Order.Defs.LinearOrder

/-!
# Ordered multimaps

A multimap is a sequence of entries in ascending key order. Entries with equal keys keep the
order in which they were inserted, so that a key names a list of values. Every operation is
described by its effect on these lists, and two multimaps with the same lists are equal.
-/

/-- Entries in ascending key order. -/
@[ext] structure Multimap (K V : Type*) [LinearOrder K] where
  entries : List (K × V)
  sorted : entries.Pairwise fun a b => a.1 ≤ b.1
deriving DecidableEq

namespace Multimap

variable {K V : Type*} [LinearOrder K]

/-! ### Operations -/

instance : EmptyCollection (Multimap K V) := ⟨⟨[], .nil⟩⟩

/-- Place an entry after every entry whose key is not greater. -/
def insertEntry (e : K × V) : List (K × V) → List (K × V)
  | [] => [e]
  | x :: xs => if e.1 < x.1 then e :: x :: xs else x :: insertEntry e xs

lemma mem_insertEntry {e x : K × V} {xs : List (K × V)} :
    x ∈ insertEntry e xs ↔ x = e ∨ x ∈ xs := by
  induction xs with
  | nil => simp [insertEntry]
  | cons y ys ih =>
    simp only [insertEntry]
    split_ifs
    · simp
    · simp only [List.mem_cons, ih]
      tauto

lemma sorted_insertEntry (e : K × V) {xs : List (K × V)}
    (h : xs.Pairwise fun a b => a.1 ≤ b.1) :
    (insertEntry e xs).Pairwise fun a b => a.1 ≤ b.1 := by
  induction xs with
  | nil => simp [insertEntry]
  | cons x xs ih =>
    obtain ⟨hx, hxs⟩ := List.pairwise_cons.mp h
    simp only [insertEntry]
    split_ifs with hlt
    · refine List.pairwise_cons.mpr ⟨fun y hy => ?_, h⟩
      rcases List.mem_cons.mp hy with rfl | hy
      · exact hlt.le
      · exact hlt.le.trans (hx y hy)
    · refine List.pairwise_cons.mpr ⟨fun y hy => ?_, ih hxs⟩
      rcases mem_insertEntry.mp hy with rfl | hy
      · exact not_lt.mp hlt
      · exact hx y hy

/-- Add an entry behind those with the same key. -/
def insert (m : Multimap K V) (k : K) (v : V) : Multimap K V :=
  ⟨insertEntry (k, v) m.entries, sorted_insertEntry _ m.sorted⟩

/-- Remove every entry with the given key. -/
def erase (m : Multimap K V) (k : K) : Multimap K V :=
  ⟨m.entries.filter (·.1 ≠ k), m.sorted.filter _⟩

/-- The entries from the first one with the given key on; empty when there is none. -/
def find (m : Multimap K V) (k : K) : List (K × V) :=
  m.entries.dropWhile (·.1 ≠ k)

/-- The values of a key, in insertion order. -/
def equalRange (m : Multimap K V) (k : K) : List V :=
  (m.entries.filter (·.1 = k)).map Prod.snd

/-- Insert a sequence of entries, first to last. -/
def insertAll (m : Multimap K V) (es : List (K × V)) : Multimap K V :=
  es.foldl (fun m e => m.insert e.1 e.2) m

@[simp] lemma insertAll_nil (m : Multimap K V) : m.insertAll [] = m := rfl

@[simp] lemma insertAll_append_singleton (m : Multimap K V) (es : List (K × V)) (e : K × V) :
    m.insertAll (es ++ [e]) = (m.insertAll es).insert e.1 e.2 := by
  rw [insertAll, List.foldl_append]
  rfl

lemma perm_insertEntry (e : K × V) (xs : List (K × V)) : (insertEntry e xs).Perm (e :: xs) := by
  induction xs with
  | nil => exact .refl _
  | cons x xs ih =>
    simp only [insertEntry]
    split_ifs
    · exact .refl _
    · exact (ih.cons x).trans (.swap e x xs)

/-- Insertions neither lose nor duplicate entries. -/
lemma perm_insertAll (m : Multimap K V) (es : List (K × V)) :
    (m.insertAll es).entries.Perm (m.entries ++ es) := by
  induction es generalizing m with
  | nil => simp
  | cons e es ih =>
    have hcons : (m.insert e.1 e.2).entries.Perm (e :: m.entries) := perm_insertEntry e m.entries
    have hmiddle : (e :: m.entries ++ es).Perm (m.entries ++ e :: es) := List.perm_middle.symm
    exact (ih (m.insert e.1 e.2)).trans ((hcons.append_right es).trans hmiddle)

/-! ### The lists of values -/

@[simp] lemma entries_empty : (∅ : Multimap K V).entries = [] := rfl

@[simp] lemma equalRange_empty (k : K) : (∅ : Multimap K V).equalRange k = [] := rfl

lemma filter_insertEntry_self (e : K × V) {xs : List (K × V)}
    (h : xs.Pairwise fun a b => a.1 ≤ b.1) :
    (insertEntry e xs).filter (·.1 = e.1) = xs.filter (·.1 = e.1) ++ [e] := by
  induction xs with
  | nil => simp [insertEntry]
  | cons x xs ih =>
    obtain ⟨hx, hxs⟩ := List.pairwise_cons.mp h
    simp only [insertEntry]
    split_ifs with hlt
    · have hnone : (x :: xs).filter (·.1 = e.1) = [] := by
        refine List.filter_eq_nil_iff.mpr fun y hy => ?_
        rcases List.mem_cons.mp hy with rfl | hy
        · simpa using hlt.ne'
        · simpa using (hlt.trans_le (hx y hy)).ne'
      rw [List.filter_cons_of_pos (by simp), hnone, List.nil_append]
    · by_cases hxe : x.1 = e.1 <;> simp [hxe, ih hxs]

lemma filter_insertEntry_of_ne {e : K × V} {k : K} (hk : e.1 ≠ k) (xs : List (K × V)) :
    (insertEntry e xs).filter (·.1 = k) = xs.filter (·.1 = k) := by
  induction xs with
  | nil => simp [insertEntry, hk]
  | cons x xs ih =>
    simp only [insertEntry]
    split_ifs
    · simp [List.filter_cons, hk]
    · simp [List.filter_cons, ih]

@[simp] lemma equalRange_insert_self (m : Multimap K V) (k : K) (v : V) :
    (m.insert k v).equalRange k = m.equalRange k ++ [v] := by
  simp only [equalRange, insert, filter_insertEntry_self (k, v) m.sorted, List.map_append,
    List.map_cons, List.map_nil]

lemma equalRange_insert_of_ne (m : Multimap K V) {k k' : K} (h : k ≠ k') (v : V) :
    (m.insert k v).equalRange k' = m.equalRange k' := by
  simp only [equalRange, insert]
  rw [filter_insertEntry_of_ne (e := (k, v)) h]

@[simp] lemma equalRange_erase_self (m : Multimap K V) (k : K) :
    (m.erase k).equalRange k = [] := by
  simp [equalRange, erase, List.filter_filter]

lemma equalRange_erase_of_ne (m : Multimap K V) {k k' : K} (h : k ≠ k') :
    (m.erase k).equalRange k' = m.equalRange k' := by
  simp only [equalRange, erase, List.filter_filter]
  congr 1
  refine List.filter_congr fun e _ => ?_
  by_cases he : e.1 = k' <;> simp [he, h.symm]

lemma equalRange_insertAll (es : List (K × V)) (m : Multimap K V) (k : K) :
    (m.insertAll es).equalRange k
      = m.equalRange k ++ (es.filter (·.1 = k)).map Prod.snd := by
  induction es generalizing m with
  | nil => simp [insertAll]
  | cons e es ih =>
    obtain ⟨k', v⟩ := e
    rw [show m.insertAll ((k', v) :: es) = (m.insert k' v).insertAll es from rfl, ih]
    by_cases hk : k' = k
    · subst hk
      simp
    · simp [equalRange_insert_of_ne m hk, hk]

/-! ### Lookup -/

lemma find_eq_nil_iff {m : Multimap K V} {k : K} : m.find k = [] ↔ m.equalRange k = [] := by
  simp [find, equalRange, List.dropWhile_eq_nil_iff, List.filter_eq_nil_iff]

lemma takeWhile_eq_filter {k : K} {xs : List (K × V)}
    (h : xs.Pairwise fun a b => a.1 ≤ b.1) (hk : ∀ x ∈ xs, k ≤ x.1) :
    xs.takeWhile (·.1 = k) = xs.filter (·.1 = k) := by
  induction xs with
  | nil => rfl
  | cons x xs ih =>
    obtain ⟨hx, hxs⟩ := List.pairwise_cons.mp h
    by_cases hxk : x.1 = k
    · simp [hxk, ih hxs fun y hy => hk y (List.mem_cons_of_mem _ hy)]
    · have hlt : k < x.1 := lt_of_le_of_ne (hk x List.mem_cons_self) (Ne.symm hxk)
      have hnone : xs.filter (·.1 = k) = [] :=
        List.filter_eq_nil_iff.mpr fun y hy => by simpa using (hlt.trans_le (hx y hy)).ne'
      simp [hxk, hnone]

/-- Walking from `find` while the key stays the same visits the values of the key. -/
lemma find_takeWhile (m : Multimap K V) (k : K) :
    ((m.find k).takeWhile (·.1 = k)).map Prod.snd = m.equalRange k := by
  obtain ⟨xs, h⟩ := m
  simp only [find, equalRange]
  congr 1
  induction xs with
  | nil => rfl
  | cons x xs ih =>
    obtain ⟨hx, hxs⟩ := List.pairwise_cons.mp h
    by_cases hxk : x.1 = k
    · rw [List.dropWhile_cons_of_neg (by simpa using hxk)]
      refine takeWhile_eq_filter h fun y hy => ?_
      rcases List.mem_cons.mp hy with rfl | hy
      · exact hxk.ge
      · exact hxk ▸ hx y hy
    · rw [List.dropWhile_cons_of_pos (by simpa using hxk),
        List.filter_cons_of_neg (by simpa using hxk)]
      exact ih hxs

/-! ### Equality -/

/-- Sorted entries are determined by the entries of each key. -/
lemma entries_ext {xs ys : List (K × V)} (hx : xs.Pairwise fun a b => a.1 ≤ b.1)
    (hy : ys.Pairwise fun a b => a.1 ≤ b.1)
    (h : ∀ k, xs.filter (·.1 = k) = ys.filter (·.1 = k)) : xs = ys := by
  induction xs generalizing ys with
  | nil =>
    cases ys with
    | nil => rfl
    | cons y ys => simpa using h y.1
  | cons x xs ih =>
    cases ys with
    | nil => simpa using h x.1
    | cons y ys =>
      obtain ⟨hxs, hx'⟩ := List.pairwise_cons.mp hx
      obtain ⟨hys, hy'⟩ := List.pairwise_cons.mp hy
      -- the head of either list is among the entries of the other
      have hmem : x ∈ y :: ys := List.mem_of_mem_filter (p := (·.1 = x.1)) (by rw [← h]; simp)
      have hmem' : y ∈ x :: xs := List.mem_of_mem_filter (p := (·.1 = y.1)) (by rw [h]; simp)
      have hkey : x.1 = y.1 := by
        apply le_antisymm
        · rcases List.mem_cons.mp hmem' with rfl | hmem'
          · exact le_rfl
          · exact hxs y hmem'
        · rcases List.mem_cons.mp hmem with rfl | hmem
          · exact le_rfl
          · exact hys x hmem
      have hhead : x = y := by
        have hx := h x.1
        rw [List.filter_cons_of_pos (by simp), List.filter_cons_of_pos (by simp [hkey])] at hx
        exact (List.cons_eq_cons.mp hx).1
      subst hhead
      congr 1
      refine ih hx' hy' fun k => ?_
      have hk := h k
      by_cases hxk : x.1 = k
      · simpa [hxk] using hk
      · simpa [hxk] using hk

/-- Multimaps with the same lists of values are equal. -/
lemma ext_equalRange {m m' : Multimap K V} (h : ∀ k, m.equalRange k = m'.equalRange k) :
    m = m' := by
  refine Multimap.ext (entries_ext m.sorted m'.sorted fun k => ?_)
  have hkey : ∀ es : List (K × V),
      es.filter (·.1 = k) = ((es.filter (·.1 = k)).map Prod.snd).map (Prod.mk k) := by
    intro es
    have hpair : ∀ e ∈ es.filter (·.1 = k), id e = (k, e.2) := by
      intro e he
      have hek : e.1 = k := by simpa using List.of_mem_filter he
      exact Prod.ext hek rfl
    calc es.filter (·.1 = k) = (es.filter (·.1 = k)).map id := (List.map_id _).symm
      _ = (es.filter (·.1 = k)).map fun e => (k, e.2) := List.map_congr_left hpair
      _ = _ := by rw [List.map_map]; rfl
  rw [hkey m.entries, hkey m'.entries]
  exact congrArg _ (h k)

end Multimap
