import Mathlib.Data.List.Perm.Basic
import Mathlib.Data.Multiset.Count
import Mathlib.Tactic

/-!
# Ledgers

A resource is there as long as references to it are left. A ledger is the multiset of the references
which somebody holds. If it is balanced, there is one holder for each reference, and nothing is left
where nobody holds anything.
-/

namespace Ledger

variable {ρ : Type*} [DecidableEq ρ]

/-- The holders have the references, one each. -/
def Balanced (refs : ρ → Nat) (held : Multiset ρ) : Prop := ∀ r, refs r = held.count r

namespace Balanced

variable {refs refs' : ρ → Nat} {held : Multiset ρ} {r : ρ}

lemma empty : Balanced (fun _ : ρ => 0) 0 := fun r => (Multiset.count_zero r).symm

/-- A new reference. -/
lemma acquire (h : Balanced refs held) (r : ρ) :
    Balanced (Function.update refs r (refs r + 1)) (r ::ₘ held) := by
  intro r'
  by_cases heq : r' = r
  · subst heq
    rw [Function.update_self, Multiset.count_cons_self, h]
  · rw [Function.update_of_ne heq, Multiset.count_cons_of_ne heq, h]

/-- A reference less. -/
lemma release (h : Balanced refs (r ::ₘ held)) :
    Balanced (Function.update refs r (refs r - 1)) held := by
  intro r'
  by_cases heq : r' = r
  · subst heq
    rw [Function.update_self, h, Multiset.count_cons_self, Nat.add_sub_cancel]
  · rw [Function.update_of_ne heq, h, Multiset.count_cons_of_ne heq]

lemma pos_iff (h : Balanced refs held) : 0 < refs r ↔ r ∈ held := by
  rw [h r, Multiset.count_pos]

lemma eq_zero_iff (h : Balanced refs held) : refs r = 0 ↔ r ∉ held := by
  rw [h r, Multiset.count_eq_zero]

/-- What can be referred to only once is held only once. -/
lemma nodup (h : Balanced refs held) (hle : ∀ r, refs r ≤ 1) : held.Nodup :=
  Multiset.nodup_iff_count_le_one.mpr fun r => h r ▸ hle r

end Balanced

/-! ### Resources with one reference -/

/-- There is one reference to what is alive. -/
def single (alive : ρ → Bool) (r : ρ) : Nat := (alive r).toNat

namespace Balanced

variable {alive : ρ → Bool} {held : Multiset ρ} {r : ρ}

lemma alive_iff (h : Balanced (single alive) held) : alive r = true ↔ r ∈ held := by
  rw [← h.pos_iff, single]
  cases alive r <;> simp

lemma not_alive_iff (h : Balanced (single alive) held) : alive r = false ↔ r ∉ held := by
  rw [← h.alive_iff, Bool.not_eq_true]

lemma single_nodup (h : Balanced (single alive) held) : held.Nodup :=
  h.nodup fun r => Bool.toNat_le (alive r)

/-- Something new. -/
lemma create (h : Balanced (single alive) held) (hr : alive r = false) :
    Balanced (single (Function.update alive r true)) (r ::ₘ held) := by
  have hrefs : single (Function.update alive r true) =
      Function.update (single alive) r (single alive r + 1) := by
    funext r'
    by_cases heq : r' = r
    · subst heq
      simp [single, hr]
    · simp [single, heq]
  exact hrefs ▸ h.acquire r

/-- The one who holds it deletes it. -/
lemma delete (h : Balanced (single alive) (r ::ₘ held)) : alive r = true ∧
    Balanced (single (Function.update alive r false)) held := by
  have hr : alive r = true := h.alive_iff.mpr (Multiset.mem_cons_self r held)
  have hrefs : single (Function.update alive r false) =
      Function.update (single alive) r (single alive r - 1) := by
    funext r'
    by_cases heq : r' = r
    · subst heq
      simp [single, hr]
    · simp [single, heq]
  exact ⟨hr, hrefs ▸ h.release⟩

end Balanced

/-! ### Slots

Holders which come and go, each with a number of its own.
-/

section Slots

variable {α : Type*} {f : α → Option ρ} {slots : List α} {i : Nat} {a : α}

omit [DecidableEq ρ] in
/-- What the holder in slot `i` has, and the rest. -/
lemma filterMap_eq (h : slots[i]? = some a) : (slots.filterMap f : Multiset ρ) =
    (f a).toList + (slots.eraseIdx i).filterMap f := by
  obtain ⟨hlt, rfl⟩ := List.getElem?_eq_some_iff.mp h
  have hperm := ((List.getElem_cons_eraseIdx_perm hlt).symm).filterMap f
  rw [List.filterMap_cons] at hperm
  rw [Multiset.coe_add, Multiset.coe_eq_coe]
  cases hf : f slots[i] with
  | none =>
    rw [hf] at hperm
    exact hperm
  | some r =>
    rw [hf] at hperm
    exact hperm

omit [DecidableEq ρ] in
/-- Slot `i` gets something else. -/
lemma filterMap_set (h : i < slots.length) (a : α) : ((slots.set i a).filterMap f : Multiset ρ) =
    (f a).toList + (slots.eraseIdx i).filterMap f := by
  have hget : (slots.set i a)[i]? = some a := List.getElem?_set_self h
  rw [filterMap_eq hget, List.eraseIdx_set_eq]

end Slots

end Ledger
