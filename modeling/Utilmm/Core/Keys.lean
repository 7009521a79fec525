import Mathlib.Tactic

/-!
# Lists of records with distinct keys

The record of a key is found by it, and a change to the record leaves the keys and the other records
alone.
-/

namespace List

universe u v w

variable {α : Type u} {κ : Type v} [DecidableEq κ] {key : α → κ} {l : List α} {a : α}

lemma find?_key (hnodup : (l.map key).Nodup) (ha : a ∈ l) :
    (l.find? fun b => key b = key a) = some a := by
  induction l with
  | nil => cases ha
  | cons b l ih =>
    rw [map_cons, nodup_cons] at hnodup
    rcases mem_cons.mp ha with rfl | ha
    · simp
    · have hne : key b ≠ key a := fun heq => hnodup.1 (heq ▸ mem_map_of_mem ha)
      rw [find?_cons_of_neg (by simpa using hne), ih hnodup.2 ha]

/-- A change which keeps a property of the records keeps the list of it. -/
lemma map_modify_key {β : Type w} {f : α → β} {g : α → α} (k : κ) (hg : ∀ a, f (g a) = f a) :
    (l.map fun a => if key a = k then g a else a).map f = l.map f := by
  rw [map_map]
  refine map_congr_left fun a _ => ?_
  by_cases h : key a = k <;> simp [h, hg]

/-- The other records are left alone. -/
lemma filter_modify_key {g : α → α} (k : κ) (hg : ∀ a, key (g a) = key a) :
    (l.map fun a => if key a = k then g a else a).filter (fun a => key a ≠ k) =
      l.filter fun a => key a ≠ k := by
  induction l with
  | nil => rfl
  | cons a l ih =>
    by_cases h : key a = k
    · simpa [h, hg] using ih
    · simpa [h] using ih

end List
