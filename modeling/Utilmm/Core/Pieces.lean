import Mathlib.Tactic

/-!
# The pieces between separators

A list is cut at the occurrences of a separator, from left to right. The separator is not empty, so
every cut leaves a shorter list. To put the separator between the pieces gives the list back.
-/

namespace List

universe u

variable {α : Type u} [DecidableEq α] {sep s : List α} {n : Nat}

/-- Where the word occurs first. -/
def occurrence (word : List α) : List α → Option Nat
  | [] => if word = [] then some 0 else none
  | a :: s => if word <+: a :: s then some 0 else (occurrence word s).map (· + 1)

lemma occurrence_nil_left (s : List α) : occurrence [] s = some 0 := by
  cases s <;> simp [occurrence]

/-- The word stands where it occurs. -/
lemma take_append_drop_of_occurrence (h : occurrence sep s = some n) :
    s.take n ++ (sep ++ s.drop (n + sep.length)) = s := by
  induction s generalizing n with
  | nil =>
    rw [occurrence] at h
    split_ifs at h with hsep
    cases h
    simp [hsep]
  | cons a s ih =>
    rw [occurrence] at h
    split_ifs at h with hprefix
    · cases h
      obtain ⟨t, ht⟩ := hprefix
      rw [Nat.zero_add, ← ht]
      simp
    · obtain ⟨m, hm, rfl⟩ := Option.map_eq_some_iff.mp h
      rw [Nat.add_right_comm, take_succ_cons, drop_succ_cons, cons_append, ih hm]

lemma occurrence_le (h : occurrence sep s = some n) : n + sep.length ≤ s.length := by
  induction s generalizing n with
  | nil =>
    rw [occurrence] at h
    split_ifs at h with hsep
    cases h
    simp [hsep]
  | cons a s ih =>
    rw [occurrence] at h
    split_ifs at h with hprefix
    · cases h
      simpa using hprefix.length_le
    · obtain ⟨m, hm, rfl⟩ := Option.map_eq_some_iff.mp h
      have hle := ih hm
      rw [length_cons]
      omega

/-- Nothing is found just where the word does not occur. -/
lemma occurrence_eq_none_iff : occurrence sep s = none ↔ ¬ sep <:+: s := by
  induction s with
  | nil => simp [occurrence]
  | cons a s ih =>
    rw [occurrence, infix_cons_iff, not_or, ← ih]
    split_ifs with hword
    · simp [hword]
    · simp [hword]

/-- The pieces between the occurrences of a separator. -/
def pieces (sep : List α) (hsep : sep ≠ []) (s : List α) : List (List α) :=
  match _h : occurrence sep s with
  | none => [s]
  | some n => s.take n :: pieces sep hsep (s.drop (n + sep.length))
termination_by s.length
decreasing_by
  have hle := occurrence_le _h
  have hpos := length_pos_iff.mpr hsep
  rw [length_drop]
  omega

lemma pieces_of_none {hsep : sep ≠ []} (h : occurrence sep s = none) :
    pieces sep hsep s = [s] := by
  rw [pieces]
  split <;> simp_all

lemma pieces_of_some {hsep : sep ≠ []} (h : occurrence sep s = some n) :
    pieces sep hsep s = s.take n :: pieces sep hsep (s.drop (n + sep.length)) := by
  rw [pieces]
  split <;> simp_all

lemma pieces_ne_nil (hsep : sep ≠ []) (s : List α) : pieces sep hsep s ≠ [] := by
  cases h : occurrence sep s with
  | none => simp [pieces_of_none h]
  | some n => simp [pieces_of_some h]

omit [DecidableEq α] in
lemma intercalate_cons {x : List α} {xs : List (List α)} (h : xs ≠ []) (sep : List α) :
    intercalate sep (x :: xs) = x ++ (sep ++ intercalate sep xs) := by
  obtain ⟨y, ys, rfl⟩ := exists_cons_of_ne_nil h
  simp [intercalate]

/-- With the separator in between, the pieces are the list. -/
theorem intercalate_pieces (hsep : sep ≠ []) (s : List α) :
    intercalate sep (pieces sep hsep s) = s := by
  fun_induction pieces sep hsep s with
  | case1 s h => simp [intercalate]
  | case2 s n h ih =>
    rw [intercalate_cons (pieces_ne_nil _ _), ih, take_append_drop_of_occurrence h]

/-- A separator of one element. -/
theorem pieces_singleton (a : α) (s : List α) :
    pieces [a] (cons_ne_nil a []) s = s.splitOn a := by
  induction s with
  | nil => rw [pieces_of_none rfl, splitOn_nil]
  | cons b s ih =>
    rw [splitOn_cons_eq_if_modifyHead, ← ih]
    by_cases hb : b = a
    · subst hb
      have hocc : occurrence [b] (b :: s) = some 0 := by simp [occurrence]
      rw [pieces_of_some hocc, if_pos (beq_self_eq_true b)]
      rfl
    · have hocc : occurrence [a] (b :: s) = (occurrence [a] s).map (· + 1) := by
        simp [occurrence, Ne.symm hb]
      rw [if_neg (by simpa using hb)]
      cases h : occurrence [a] s with
      | none => rw [pieces_of_none h, pieces_of_none (by rw [hocc, h]; rfl), modifyHead_cons]
      | some n =>
        rw [h, Option.map_some] at hocc
        rw [pieces_of_some h, pieces_of_some hocc, modifyHead_cons, take_succ_cons,
          Nat.add_right_comm, drop_succ_cons]

/-! ### Separators of one element -/

lemma length_le_of_mem_splitOn {a : α} {x : List α} (h : x ∈ s.splitOn a) :
    x.length ≤ s.length := by
  induction s generalizing x with
  | nil =>
    rw [splitOn_nil, mem_singleton] at h
    rw [h]
  | cons b s ih =>
    rw [splitOn_cons_eq_if_modifyHead] at h
    obtain ⟨y, l, hsplit⟩ := exists_cons_of_ne_nil (splitOn_ne_nil a s)
    rw [hsplit] at h ih
    rw [length_cons]
    split_ifs at h
    · rcases mem_cons.mp h with rfl | h
      · exact Nat.zero_le _
      · exact Nat.le_succ_of_le (ih h)
    · rcases mem_cons.mp h with rfl | h
      · exact Nat.succ_le_succ (ih mem_cons_self)
      · exact Nat.le_succ_of_le (ih (mem_cons_of_mem y h))

lemma head?_splitOn (a : α) (s : List α) :
    (s.splitOn a).head? = some (s.takeWhile (· ≠ a)) := by
  induction s with
  | nil => rw [splitOn_nil]; rfl
  | cons b s ih =>
    rw [splitOn_cons_eq_if_modifyHead]
    by_cases hb : b = a
    · simp [hb]
    · simp [hb, ih]

/-- The first piece that is not empty. -/
theorem head?_filter_splitOn (a : α) (s : List α) :
    ((s.splitOn a).filter (· ≠ [])).head? =
      if s.any (· ≠ a) then some ((s.dropWhile (· = a)).takeWhile (· ≠ a)) else none := by
  induction s with
  | nil => simp
  | cons b s ih =>
    rw [splitOn_cons_eq_if_modifyHead]
    by_cases hb : b = a
    · subst hb
      simpa using ih
    · have hhead := head?_splitOn a s
      obtain ⟨x, l, hsplit⟩ := exists_cons_of_ne_nil (splitOn_ne_nil a s)
      rw [hsplit] at hhead ⊢
      simp only [head?_cons, Option.some.injEq] at hhead
      simp [hb, hhead]

end List
