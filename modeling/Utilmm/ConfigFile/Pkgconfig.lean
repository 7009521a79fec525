import Mathlib.Data.List.DropRight
import Utilmm.Core.Except
import Utilmm.StringTools.Split

/-!
# The list of packages

`pkgconfig::packages` takes the output of `pkg-config --list-all`, strips it, and keeps the first word
of each line. The output can be any text.
-/

namespace Utilmm

namespace Pkgconfig

open StringTools

inductive Fault
  /-- A `std::string` is constructed from a position behind the end. -/
  | outOfRange
  /-- `front()` of an empty list. -/
  | emptyList
  /-- The fuel did not last for a `split`. -/
  | noFuel
  deriving DecidableEq, Repr

/-- The characters `" \t\n"`. -/
def isStripped (c : Char) : Bool := c ∈ " \t\n".toList

/-- `s.find_first_not_of(" \t\n")`; `none` stands for the result `npos`. -/
def findFirstNotOf (s : Str) : Option Nat := s.findIdx? (!isStripped ·)

/-- `s.find_last_not_of(" \t\n")` -/
def findLastNotOf (s : Str) : Option Nat :=
  (s.reverse.findIdx? (!isStripped ·)).map (s.length - 1 - ·)

/-- `string(s, pos)` -/
def substrFrom (s : Str) (pos : Nat) : Except Fault Str :=
  if s.length < pos then .error .outOfRange else .ok (s.drop pos)

/-- `string(s, pos, n)` -/
def substr (s : Str) (pos n : Nat) : Except Fault Str :=
  if s.length < pos then .error .outOfRange else .ok ((s.drop pos).take n)

def front : List Str → Except Fault Str
  | [] => .error .emptyList
  | x :: _ => .ok x

def splitText (fuel : Nat) (s sep : Str) : Except Fault (List Str) :=
  match split fuel s sep true with
  | some l => .ok l
  | none => .error .noFuel

/-- The body of the loop over the lines. -/
def firstField (fuel : Nat) (line : Str) : Except Fault Str := do
  let fields ← splitText fuel line " ".toList
  front fields

def packages (fuel : Nat) (output : Str) : Except Fault (List Str) := do
  let first := findFirstNotOf output
  let output := if first.isNone then [] else output
  let last := findLastNotOf output
  let output ← if last.isNone then substrFrom output (first.getD npos) else pure output
  let out ← substr output (first.getD npos) (last.getD npos - first.getD npos + 1)
  let lines ← splitText fuel out "\n".toList
  lines.mapM (firstField fuel)

/-! ### The words of a text -/

/-- A text without blanks and newlines at both ends. -/
def strip (s : Str) : Str := (s.dropWhile isStripped).rdropWhile isStripped

/-- The line holds a character other than a space. -/
def hasWord (line : Str) : Bool := line.any (· ≠ ' ')

def firstWord (line : Str) : Str := (line.dropWhile (· = ' ')).takeWhile (· ≠ ' ')

/-- The first word of each line that has one. -/
def listed (output : Str) : List Str :=
  (((strip output).splitOn '\n').filter hasWord).map firstWord

/-! ### What is stripped -/

lemma findIdx?_append_cons {p : Char → Bool} {s t : Str} {c : Char} (hs : ∀ a ∈ s, p a = true)
    (hc : p c = false) : (s ++ c :: t).findIdx? (!p ·) = some s.length := by
  rw [List.findIdx?_append, List.findIdx?_eq_none_iff.mpr (by simpa using hs),
    List.findIdx?_cons]
  simp [hc]

/-- A text that is not blank starts and ends with a blank part, and what is in between does not. -/
lemma exists_eq_strip {s : Str} (h : ∃ c ∈ s, isStripped c = false) : ∃ a b, s = a ++ (strip s ++ b) ∧
    (∀ c ∈ a, isStripped c = true) ∧ (∀ c ∈ b, isStripped c = true) ∧
    (∃ c t, strip s = c :: t ∧ isStripped c = false) ∧
    ∃ c t, strip s = t ++ [c] ∧ isStripped c = false := by
  have hne : s.dropWhile isStripped ≠ [] := by
    rw [Ne, List.dropWhile_eq_nil_iff]
    obtain ⟨c, hc, hstripped⟩ := h
    exact fun hall => absurd (hall c hc) (by simp [hstripped])
  obtain ⟨c, t, hct⟩ := List.exists_cons_of_ne_nil hne
  have hc := not_of_dropWhile hct
  have hstrip : strip s ≠ [] := by
    rw [strip, Ne, List.rdropWhile_eq_nil_iff, hct]
    exact fun hall => absurd (hall c List.mem_cons_self) (by simp [hc])
  have hlast := List.rdropWhile_last_not isStripped _ hstrip
  refine ⟨s.takeWhile isStripped, (s.dropWhile isStripped).rtakeWhile isStripped, ?_, ?_, ?_, ?_,
    ?_⟩
  · rw [strip, List.rdropWhile_append_rtakeWhile, List.takeWhile_append_dropWhile]
  · exact fun a => List.mem_takeWhile_imp
  · exact fun a => List.mem_rtakeWhile_imp
  · obtain ⟨c', t', hct'⟩ := List.exists_cons_of_ne_nil hstrip
    have hprefix : strip s <+: c :: t := hct ▸ List.rdropWhile_prefix _ _
    rw [hct', List.cons_prefix_cons] at hprefix
    exact ⟨c', t', hct', hprefix.1 ▸ hc⟩
  · exact ⟨_, _, (List.dropLast_append_getLast hstrip).symm, by simpa [strip] using hlast⟩

lemma length_strip_le (s : Str) : (strip s).length ≤ s.length :=
  (List.rdropWhile_prefix _ _).length_le.trans (List.length_dropWhile_le _ _)

/-- The three searches find the ends of the stripped text. -/
lemma exists_find_ends {output : Str} (h : ∃ c ∈ output, isStripped c = false) : ∃ first last,
    findFirstNotOf output = some first ∧ findLastNotOf output = some last ∧
      substr output first (last - first + 1) = .ok (strip output) := by
  obtain ⟨a, b, hsplit, ha, hb, ⟨c, t, hct, hc⟩, d, t', htd, hd⟩ := exists_eq_strip h
  have hlength := congrArg List.length hsplit
  have hcore : 0 < (strip output).length := by simp [hct]
  simp only [List.length_append] at hlength
  refine ⟨a.length, output.length - 1 - b.length, ?_, ?_, ?_⟩
  · rw [findFirstNotOf, hsplit, hct]
    exact findIdx?_append_cons ha hc
  · have hreverse : output.reverse = b.reverse ++ d :: (a ++ t').reverse := by
      rw [hsplit, htd]
      simp
    rw [findLastNotOf, hreverse, findIdx?_append_cons (by simpa using hb) hd, List.length_reverse]
    rfl
  · have hcount : output.length - 1 - b.length - a.length + 1 = (strip output).length := by omega
    have hdrop : output.drop a.length = strip output ++ b := by
      conv_lhs => rw [hsplit]
      exact List.drop_left
    rw [substr, if_neg (by omega), hcount, hdrop, List.take_left]

/-- A blank text has no position to start from. -/
lemma packages_of_blank {output : Str} (h : ∀ c ∈ output, isStripped c = true) (fuel : Nat) :
    packages fuel output = .error .outOfRange := by
  have hfirst : findFirstNotOf output = none := by
    rw [findFirstNotOf, List.findIdx?_eq_none_iff]
    simpa using h
  rw [packages, hfirst]
  rfl

/-! ### Lines and their first fields -/

lemma splitText_eq {fuel : Nat} {s : Str} {a : Char} (hfuel : s.length < fuel) :
    splitText fuel s [a] = .ok ((s.splitOn a).filter (· ≠ [])) := by
  rw [splitText, split_eq (List.cons_ne_nil a []) hfuel, List.pieces_singleton]
  rfl

lemma firstField_eq {fuel : Nat} {line : Str} (hfuel : line.length < fuel) :
    firstField fuel line = if hasWord line then .ok (firstWord line) else .error .emptyList := by
  have hhead : ((line.splitOn ' ').filter (· ≠ [])).head? =
      if hasWord line then some (firstWord line) else none := List.head?_filter_splitOn ' ' line
  show splitText fuel line [' '] >>= front = _
  rw [splitText_eq hfuel, Except.ok_bind]
  by_cases hword : hasWord line
  · rw [if_pos hword] at hhead ⊢
    obtain ⟨fields, hfields⟩ := List.head?_eq_some_iff.mp hhead
    rw [hfields]
    rfl
  · rw [if_neg hword, List.head?_eq_none_iff] at hhead
    rw [if_neg hword, hhead]
    rfl

/-- The loop over lines which have words. -/
lemma mapM_firstField {fuel : Nat} {lines : List Str} (hfuel : ∀ line ∈ lines, line.length < fuel)
    (h : ∀ line ∈ lines, hasWord line) :
    lines.mapM (firstField fuel) = .ok (lines.map firstWord) := by
  induction lines with
  | nil => rfl
  | cons line lines ih =>
    rw [List.forall_mem_cons] at hfuel h
    rw [List.mapM_cons, firstField_eq hfuel.1, if_pos h.1, ih hfuel.2 h.2]
    rfl

/-- The loop ends at the first line without a word. -/
lemma mapM_firstField_of_not {fuel : Nat} {lines : List Str}
    (hfuel : ∀ line ∈ lines, line.length < fuel) (h : ¬ ∀ line ∈ lines, hasWord line) :
    lines.mapM (firstField fuel) = .error .emptyList := by
  induction lines with
  | nil => exact absurd (fun _ hmem => absurd hmem List.not_mem_nil) h
  | cons line lines ih =>
    rw [List.forall_mem_cons] at hfuel h
    rw [List.mapM_cons, firstField_eq hfuel.1]
    by_cases hline : hasWord line
    · rw [if_pos hline, ih hfuel.2 fun hlines => h ⟨hline, hlines⟩]
      rfl
    · rw [if_neg hline]
      rfl

/-- A text that is not blank is stripped and cut into lines. -/
lemma packages_eq {output : Str} (h : ∃ c ∈ output, isStripped c = false) {fuel : Nat}
    (hfuel : output.length < fuel) : packages fuel output =
      (((strip output).splitOn '\n').filter (· ≠ [])).mapM (firstField fuel) := by
  obtain ⟨first, last, hfirst, hlast, hout⟩ := exists_find_ends h
  have hlines : splitText fuel (strip output) "\n".toList =
      .ok (((strip output).splitOn '\n').filter (· ≠ [])) :=
    splitText_eq (Nat.lt_of_le_of_lt (length_strip_le output) hfuel)
  rw [packages, hfirst]
  simp only [Option.isNone_some, Bool.false_eq_true, if_false, hlast, Option.getD_some]
  show substr output first (last - first + 1) >>= _ = _
  rw [hout, Except.ok_bind, hlines, Except.ok_bind]

lemma length_lt_of_mem_lines {output line : Str} {fuel : Nat} (hfuel : output.length < fuel)
    (h : line ∈ ((strip output).splitOn '\n').filter (· ≠ [])) : line.length < fuel :=
  (List.length_le_of_mem_splitOn (List.mem_of_mem_filter h)).trans_lt
    ((length_strip_le output).trans_lt hfuel)

/-- The packages are listed if and only if the output is not blank and none of its lines consists
of spaces only. -/
theorem packages_listed_iff (output : Str) :
    (∃ k, ∀ fuel, k ≤ fuel → packages fuel output = .ok (listed output)) ↔
      (∃ c ∈ output, isStripped c = false) ∧
        ∀ line ∈ (strip output).splitOn '\n', line ≠ [] → hasWord line := by
  have hwords : (∀ line ∈ (strip output).splitOn '\n', line ≠ [] → hasWord line) ↔
      ∀ line ∈ ((strip output).splitOn '\n').filter (· ≠ []), hasWord line := by
    simp only [List.mem_filter, decide_eq_true_eq, and_imp]
  rw [hwords]
  constructor
  · rintro ⟨k, hk⟩
    have hlisted := hk (k + output.length + 1) (by omega)
    have hfuel : output.length < k + output.length + 1 := by omega
    have hne : ∃ c ∈ output, isStripped c = false := by
      by_contra hblank
      simp only [not_exists, not_and, Bool.not_eq_false] at hblank
      cases hlisted.symm.trans (packages_of_blank hblank _)
    refine ⟨hne, ?_⟩
    by_contra hlines
    rw [packages_eq hne hfuel,
      mapM_firstField_of_not (fun _ => length_lt_of_mem_lines hfuel) hlines] at hlisted
    cases hlisted
  · rintro ⟨hne, hlines⟩
    refine ⟨output.length + 1, fun fuel hfuel => ?_⟩
    have hkept : ((strip output).splitOn '\n').filter (· ≠ []) =
        ((strip output).splitOn '\n').filter hasWord := by
      refine List.filter_congr fun line hmem => ?_
      by_cases hline : line = []
      · rw [hline]
        rfl
      · have hkeep := decide_eq_true hline
        rw [hlines line (List.mem_filter.mpr ⟨hmem, hkeep⟩)]
        exact hkeep
    rw [packages_eq hne hfuel, mapM_firstField (fun _ => length_lt_of_mem_lines hfuel) hlines,
      hkept, listed]

/-- Without packages there is no output, and `string(output, first)` throws. -/
theorem not_packages_listed_empty :
    ¬ ∃ k, ∀ fuel, k ≤ fuel → packages fuel [] = .ok (listed []) := by
  rintro ⟨k, hk⟩
  cases (hk k le_rfl).symm.trans (packages_of_blank (fun _ h => absurd h List.not_mem_nil) k)

end Pkgconfig

end Utilmm
