import Mathlib.Tactic
import Mathlib.Data.List.Destutter

/-!
# Runs of a letter

Every maximal run of a letter in a list is replaced by a single one. Whoever takes one letter out of
a pair of neighbours, as long as there is one, arrives at the same list.
-/

namespace List

universe u

variable {α : Type u} [DecidableEq α] {a b : α} {s t : List α}

/-- Leave out the letter `a` behind another `a`. -/
def squeeze (a : α) (s : List α) : List α := s.destutter fun x y => ¬ (x = a ∧ y = a)

/-- `t` is `s` with every maximal run of the letter `a` replaced by a single `a`. -/
inductive Squeezes (a : α) : List α → List α → Prop
  | nil : Squeezes a [] []
  | other {b : α} {s t : List α} (hb : b ≠ a) (h : Squeezes a s t) : Squeezes a (b :: s) (b :: t)
  | run {s t : List α} (n : Nat) (hs : s.head? ≠ some a) (h : Squeezes a s t) :
      Squeezes a (replicate (n + 1) a ++ s) (a :: t)

@[simp] lemma squeeze_nil (a : α) : squeeze a [] = [] := rfl

/-- A letter in front of the same letter is left out. -/
lemma squeeze_cons_self (hs : s.head? = some a) : squeeze a (a :: s) = squeeze a s := by
  cases s with
  | nil => cases hs
  | cons b s =>
    cases hs
    rw [squeeze, destutter_cons', destutter'_cons_neg]
    · rfl
    · simp

/-- Every other letter is kept. -/
lemma squeeze_cons (h : b ≠ a ∨ s.head? ≠ some a) : squeeze a (b :: s) = b :: squeeze a s := by
  cases s with
  | nil => rfl
  | cons c s =>
    rw [squeeze, destutter_cons', destutter'_cons_pos]
    · rfl
    · rintro ⟨hb, hc⟩
      rcases h with h | h
      · exact h hb
      · exact h (by rw [hc]; rfl)

lemma squeeze_replicate_append (n : Nat) (hs : s.head? ≠ some a) :
    squeeze a (replicate (n + 1) a ++ s) = a :: squeeze a s := by
  induction n with
  | zero => exact squeeze_cons (Or.inr hs)
  | succ n ih =>
    rw [replicate_succ, cons_append, squeeze_cons_self rfl, ih]

lemma Squeezes.eq (h : Squeezes a s t) : t = squeeze a s := by
  induction h with
  | nil => rfl
  | other hb _ ih => rw [squeeze_cons (Or.inl hb), ih]
  | run n hs _ ih => rw [squeeze_replicate_append n hs, ih]

lemma squeezes_squeeze (a : α) (s : List α) : Squeezes a s (squeeze a s) := by
  induction s with
  | nil => exact .nil
  | cons b s ih =>
    by_cases hb : b = a
    · subst hb
      by_cases hs : s.head? = some b
      · -- the letter lengthens the run at the head of the rest
        rw [squeeze_cons_self hs]
        generalize squeeze b s = t at ih
        cases ih with
        | nil => cases hs
        | other hne _ => exact absurd (Option.some.inj hs) hne
        | run n hs' h => exact .run (n + 1) hs' h
      · rw [squeeze_cons (Or.inr hs)]
        exact .run 0 hs ih
    · rw [squeeze_cons (Or.inl hb)]
      exact .other hb ih

/-- There is just one such list. -/
lemma squeezes_iff : Squeezes a s t ↔ t = squeeze a s := by
  refine ⟨Squeezes.eq, ?_⟩
  rintro rfl
  exact squeezes_squeeze a s

/-- To take a letter out of a pair of neighbours does not matter. -/
lemma squeeze_append_pair (a : α) (s t : List α) :
    squeeze a (s ++ a :: a :: t) = squeeze a (s ++ a :: t) := by
  induction s with
  | nil => exact squeeze_cons_self rfl
  | cons b s ih =>
    have hhead : (s ++ a :: a :: t).head? = (s ++ a :: t).head? := by cases s <;> rfl
    rw [cons_append, cons_append]
    by_cases h : b ≠ a ∨ (s ++ a :: t).head? ≠ some a
    · rw [squeeze_cons h, squeeze_cons (hhead ▸ h), ih]
    · rw [not_or, not_not, not_not] at h
      obtain ⟨rfl, h⟩ := h
      rw [squeeze_cons_self h, squeeze_cons_self (hhead.trans h), ih]

/-- There is nothing to do just where no two letters are neighbours. -/
lemma squeeze_eq_self_iff : squeeze a s = s ↔ ¬ [a, a] <:+: s := by
  rw [squeeze, destutter_eq_self_iff, isChain_iff_forall_rel_of_append_cons_cons]
  constructor
  · rintro h ⟨l₁, l₂, hs⟩
    exact h (by rw [← hs, append_assoc]; rfl) ⟨rfl, rfl⟩
  · rintro h x y l₁ l₂ rfl ⟨rfl, rfl⟩
    exact h ⟨l₁, l₂, by rw [append_assoc]; rfl⟩

lemma not_infix_squeeze (a : α) (s : List α) : ¬ [a, a] <:+: squeeze a s :=
  squeeze_eq_self_iff.mp (destutter_idem _ _)

lemma length_squeeze_le (a : α) (s : List α) : (squeeze a s).length ≤ s.length :=
  (destutter_sublist _ s).length_le

end List
