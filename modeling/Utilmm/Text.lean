import Mathlib.Tactic
import Mathlib.Data.List.TakeWhile
import Mathlib.Data.List.Infix

/-!
# Texts

A `std::string` is the list of its characters, and a position in it is a natural number. The
character classes are those of the "C" locale, with the reading that Boost.Regex documents for
`[[:blank:]]`: white space that does not separate lines.
-/

namespace Utilmm

/-- A `std::string`. -/
abbrev Str := List Char

/-! ### Character classes -/

/-- `[[:blank:]]`: space, horizontal tab and vertical tab. -/
def isBlank (c : Char) : Bool := c = ' ' || c = '\t' || c = Char.ofNat 11

/-- `[[:alnum:]]` -/
def isAlnum (c : Char) : Bool := c.isAlphanum

/-- `\w` -/
def isWord (c : Char) : Bool := isAlnum c || c = '_'

/-- `[\w-]`, also written `[[:alnum:]_-]`: the characters of names and keys. -/
def isIdent (c : Char) : Bool := isWord c || c = '-'

lemma not_isBlank_of_isIdent {c : Char} (h : isIdent c) : isBlank c = false := by
  by_contra hb
  simp only [isBlank, Bool.not_eq_false, Bool.or_eq_true, decide_eq_true_eq] at hb
  rcases hb with (rfl | rfl) | rfl <;> revert h <;> decide

lemma isIdent_ne {c d : Char} (hc : isIdent c) (hd : isIdent d = false) : c ≠ d := by
  rintro rfl
  simp [hc] at hd

/-! ### Searching and cutting -/

/-- The first character left by `dropWhile` fails the test. -/
lemma not_of_dropWhile {p : Char → Bool} {s t : Str} {c : Char} (h : s.dropWhile p = c :: t) :
    p c = false := by
  have hne : s.dropWhile p ≠ [] := by rw [h]; exact List.cons_ne_nil c t
  have hhead := List.head_dropWhile_not p hne
  simpa only [h, List.head_cons] using hhead

/-- A run of a class ends where a text follows that does not go on with the class. -/
lemma takeWhile_append_of_head {p : Char → Bool} {t : Str} (h : ∀ c ∈ t.head?, p c = false)
    (s : Str) : (s ++ t).takeWhile p = s.takeWhile p := by
  induction s with
  | nil =>
    cases t with
    | nil => rfl
    | cons c t => simp [h c rfl]
  | cons a s ih =>
    rw [List.cons_append, List.takeWhile_cons, List.takeWhile_cons, ih]

lemma dropWhile_append_of_head {p : Char → Bool} {t : Str} (h : ∀ c ∈ t.head?, p c = false)
    (s : Str) : (s ++ t).dropWhile p = s.dropWhile p ++ t := by
  induction s with
  | nil =>
    cases t with
    | nil => rfl
    | cons c t => simp [h c rfl]
  | cons a s ih =>
    rw [List.cons_append, List.dropWhile_cons, List.dropWhile_cons, ih]
    split_ifs <;> rfl

/-- `std::string::npos` -/
def npos : Nat := 2 ^ 64 - 1

/-- `find_first_of(allowed, pos)`; `none` stands for the result `npos`. -/
def findFirstOf (source allowed : Str) (pos : Nat) : Option Nat :=
  ((source.drop pos).findIdx? (· ∈ allowed)).map (pos + ·)

/-- `starts_with(str, start)`: the prefix of `str` as long as `start` is `start`. -/
def startsWith (str start : Str) : Bool := str.take start.length = start

lemma startsWith_iff {str start : Str} : startsWith str start ↔ ∃ v, str = start ++ v := by
  simp only [startsWith, decide_eq_true_eq]
  constructor
  · intro h
    have hsplit := List.take_append_drop start.length str
    rw [h] at hsplit
    exact ⟨str.drop start.length, hsplit.symm⟩
  · rintro ⟨v, rfl⟩
    simp

end Utilmm
