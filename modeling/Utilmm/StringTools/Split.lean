import Utilmm.Core.Pieces
import Utilmm.Text

/-!
# Cutting and joining texts

`split` cuts a text at the occurrences of a separator and `join` puts the separator back. The loop of
`split` has no bound of its own: it goes on after the occurrence it has found, and what it finds
next is farther on only because the separator is not empty.
-/

namespace Utilmm

namespace StringTools

/-- `s.find(sep, from)`; `none` stands for the result `npos`. -/
def find (s sep : Str) (start : Nat) : Option Nat :=
  if s.length < start then none
  else (List.occurrence sep (s.drop start)).map (start + ·)

/-- The loop of `split`, from a start position on; there is no result without fuel. -/
def splitLoop (s sep : Str) (ignoreEmpty : Bool) : Nat → Nat → List Str → Option (List Str)
  | 0, _, _ => none
  | fuel + 1, start, l =>
    match find s sep start with
    | none =>
      some (if start < s.length || !ignoreEmpty then l ++ [s.drop start] else l)
    | some stop =>
      splitLoop s sep ignoreEmpty fuel (stop + sep.length)
        (if stop > start || !ignoreEmpty then l ++ [(s.drop start).take (stop - start)] else l)

def split (fuel : Nat) (s sep : Str) (ignoreEmpty : Bool) : Option (List Str) :=
  splitLoop s sep ignoreEmpty fuel 0 []

def join : List Str → Str → Str
  | [], _ => []
  | x :: l, sep => l.foldl (fun s y => s ++ (sep ++ y)) x

/-- The start positions of the loop's iterations. -/
inductive Reached (s sep : Str) : Nat → Prop
  | first : Reached s sep 0
  | next {start stop : Nat} : Reached s sep start → find s sep start = some stop →
      Reached s sep (stop + sep.length)

/-- The pieces that are kept. -/
def kept (ignoreEmpty : Bool) (l : List Str) : List Str :=
  if ignoreEmpty then l.filter (· ≠ []) else l

variable {s sep : Str} {ignoreEmpty : Bool} {start stop fuel : Nat}

lemma kept_append (l l' : List Str) :
    kept ignoreEmpty (l ++ l') = kept ignoreEmpty l ++ kept ignoreEmpty l' := by
  cases ignoreEmpty <;> simp [kept]

lemma kept_singleton (x : Str) :
    kept ignoreEmpty [x] = if x ≠ [] || !ignoreEmpty then [x] else [] := by
  cases ignoreEmpty <;> cases x <;> rfl

lemma kept_cons (x : Str) (l : List Str) :
    kept ignoreEmpty (x :: l) = kept ignoreEmpty [x] ++ kept ignoreEmpty l :=
  kept_append [x] l

lemma find_eq_none (h : find s sep start = none) (hstart : start ≤ s.length) :
    List.occurrence sep (s.drop start) = none := by
  rw [find, if_neg (Nat.not_lt.mpr hstart)] at h
  exact Option.map_eq_none_iff.mp h

lemma find_eq_some (h : find s sep start = some stop) : start ≤ s.length ∧
    ∃ n, List.occurrence sep (s.drop start) = some n ∧ stop = start + n := by
  rw [find] at h
  split_ifs at h with hstart
  obtain ⟨n, hn, rfl⟩ := Option.map_eq_some_iff.mp h
  exact ⟨Nat.not_lt.mp hstart, n, hn, rfl⟩

/-- What is found stands between the start and the end of the text. -/
lemma find_bounds (h : find s sep start = some stop) :
    start ≤ stop ∧ stop + sep.length ≤ s.length := by
  obtain ⟨hstart, n, hn, rfl⟩ := find_eq_some h
  have hle := List.occurrence_le hn
  rw [List.length_drop] at hle
  omega

/-- The empty text is found at once. -/
lemma find_nil (hstart : start ≤ s.length) : find s [] start = some start := by
  rw [find, if_neg (Nat.not_lt.mpr hstart), List.occurrence_nil_left]
  rfl

/-- The loop adds the pieces of the rest of the text. -/
lemma splitLoop_eq (hsep : sep ≠ []) (hstart : start ≤ s.length) (hfuel : s.length - start < fuel)
    (l : List Str) : splitLoop s sep ignoreEmpty fuel start l =
      some (l ++ kept ignoreEmpty (List.pieces sep hsep (s.drop start))) := by
  induction fuel generalizing start l with
  | zero => exact absurd hfuel (Nat.not_lt_zero _)
  | succ fuel ih =>
    rw [splitLoop]
    cases hfind : find s sep start with
    | none =>
      have hne : s.drop start ≠ [] ↔ start < s.length := by simp
      rw [List.pieces_of_none (find_eq_none hfind hstart), kept_singleton]
      simp only [hne]
      split_ifs <;> simp
    | some stop =>
      have hbounds := find_bounds hfind
      obtain ⟨-, n, hn, rfl⟩ := find_eq_some hfind
      have hpos := List.length_pos_iff.mpr hsep
      have hne : (s.drop start).take n ≠ [] ↔ start + n > start := by
        rw [← List.length_pos_iff, List.length_take, List.length_drop]
        omega
      rw [List.pieces_of_some hn, kept_cons, kept_singleton]
      simp only [hne, Nat.add_sub_cancel_left]
      rw [ih hbounds.2 (by omega), List.drop_drop, Nat.add_assoc]
      split_ifs <;> simp

lemma split_eq (hsep : sep ≠ []) (hfuel : s.length < fuel) :
    split fuel s sep ignoreEmpty = some (kept ignoreEmpty (List.pieces sep hsep s)) := by
  rw [split, splitLoop_eq hsep (Nat.zero_le _) hfuel]
  rfl

/-- With the empty separator the loop stays where it is. -/
lemma splitLoop_nil (hstart : start ≤ s.length) (l : List Str) :
    splitLoop s [] ignoreEmpty fuel start l = none := by
  induction fuel generalizing l with
  | zero => rfl
  | succ fuel ih =>
    rw [splitLoop, find_nil hstart]
    exact ih _

lemma split_nil : split fuel s [] ignoreEmpty = none := splitLoop_nil (Nat.zero_le _) []

lemma join_eq_intercalate (l : List Str) : join l sep = List.intercalate sep l := by
  cases l with
  | nil => rfl
  | cons x l =>
    rw [join]
    induction l generalizing x with
    | nil => simp [List.intercalate]
    | cons y l ih =>
      rw [List.foldl_cons, ih, List.intercalate_cons (List.cons_ne_nil y l)]
      cases l with
      | nil => simp [List.intercalate]
      | cons z l => simp only [List.intercalate_cons (List.cons_ne_nil z l), List.append_assoc]

/-- `join` undoes `split`, and `split` undoes `join` where no text holds the separator. The empty
pieces are left out on demand. -/
theorem split_join_inverse :
    (∀ s sep : Str, sep ≠ [] → ∃ k, ∀ fuel, k ≤ fuel → ∃ l, split fuel s sep false = some l ∧
      join l sep = s ∧ split fuel s sep true = some (l.filter (· ≠ []))) ∧
    ∀ (a : Char) (l : List Str), l ≠ [] → (∀ x ∈ l, a ∉ x) → ∃ k, ∀ fuel, k ≤ fuel →
      split fuel (join l [a]) [a] false = some l ∧
        split fuel (join l [a]) [a] true = some (l.filter (· ≠ [])) := by
  constructor
  · intro s sep hsep
    refine ⟨s.length + 1, fun fuel hfuel => ⟨List.pieces sep hsep s, split_eq hsep hfuel, ?_,
      split_eq hsep hfuel⟩⟩
    rw [join_eq_intercalate, List.intercalate_pieces]
  · intro a l hne hl
    have hpieces := List.splitOn_intercalate a hl hne
    rw [← List.pieces_singleton, ← join_eq_intercalate] at hpieces
    refine ⟨(join l [a]).length + 1, fun fuel hfuel => ?_⟩
    rw [split_eq (List.cons_ne_nil a []) hfuel, split_eq (List.cons_ne_nil a []) hfuel, hpieces]
    exact ⟨rfl, rfl⟩

theorem split_join_inverse_words :
    (∃ k, ∀ fuel, k ≤ fuel → ∃ l, split fuel "aaab".toList "aa".toList false = some l ∧
      join l "aa".toList = "aaab".toList ∧
      split fuel "aaab".toList "aa".toList true = some (l.filter (· ≠ []))) ∧
    ∃ k, ∀ fuel, k ≤ fuel →
      split fuel "a__b".toList "_".toList false = some ["a".toList, [], "b".toList] ∧
        split fuel "a__b".toList "_".toList true = some ["a".toList, "b".toList] :=
  ⟨split_join_inverse.1 "aaab".toList "aa".toList (by decide),
    split_join_inverse.2 '_' ["a".toList, [], "b".toList] (by decide) (by decide)⟩

/-- The loop comes to an end, and every iteration gets on, unless the separator is empty. -/
theorem split_ends_iff (s sep : Str) (ignoreEmpty : Bool) :
    ((∃ fuel l, split fuel s sep ignoreEmpty = some l) ↔ sep ≠ []) ∧
    ((∀ start stop, Reached s sep start → find s sep start = some stop →
      start < stop + sep.length ∧ stop + sep.length ≤ s.length) ↔ sep ≠ []) := by
  refine ⟨⟨?_, fun hsep => ⟨_, _, split_eq hsep (Nat.lt_succ_self _)⟩⟩, ⟨?_, ?_⟩⟩
  · rintro ⟨fuel, l, hsplit⟩ rfl
    rw [split_nil] at hsplit
    cases hsplit
  · rintro hsteps rfl
    exact (Nat.lt_irrefl 0) (hsteps 0 0 .first (find_nil (Nat.zero_le _))).1
  · intro hsep start stop _ hfind
    have hbounds := find_bounds hfind
    have hpos := List.length_pos_iff.mpr hsep
    omega

theorem not_split_ends_emptySeparator :
    ¬ ∃ fuel l, split fuel "a".toList [] true = some l := by
  rintro ⟨fuel, l, hsplit⟩
  rw [split_nil] at hsplit
  cases hsplit

end StringTools

end Utilmm
