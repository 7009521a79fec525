import Utilmm.Core.Regexp
import Utilmm.Text

/-!
# `shell_expand`

The loop copies the text before a match, the value of the variable that was matched, and goes on
after the match. So every variable is replaced in one pass from left to right, and a value is not
looked at again.
-/

namespace Utilmm

open Regexp (Found)

/-- The environment. -/
abbrev Getenv := Str → Option Str

/-- `\$(\w+)` -/
def rxShellvalue : Regexp Char := .seq (.cls (· = '$')) (.group 1 (.plus (.cls isWord)))

/-- The loop over the matches. -/
def expandLoop (getenv : Getenv) : Nat → Found Char → Str → Option Str
  | 0, _, _ => none
  | fuel + 1, result, expanded =>
    let expanded := expanded ++ result.before
    let envKey := Regexp.capture result.captures 1
    let expanded :=
      match getenv envKey with
      | some envValue => expanded ++ envValue
      | none => expanded
    let lastMatch := result.after
    match rxShellvalue.search lastMatch with
    | some result => expandLoop getenv fuel result expanded
    | none => some (expanded ++ lastMatch)

def shellExpand (getenv : Getenv) (fuel : Nat) (text : Str) : Option Str :=
  match rxShellvalue.search text with
  | none => some text
  | some result => expandLoop getenv fuel result []

/-! ### Substitution -/

/-- The text where each `$` that has a word behind it is replaced, with the longest such word, by
the value of that variable. -/
def substitute (getenv : Getenv) : Str → Str
  | [] => []
  | c :: rest =>
    if c = '$' ∧ rest.takeWhile isWord ≠ [] then
      (getenv (rest.takeWhile isWord)).getD [] ++ substitute getenv (rest.dropWhile isWord)
    else c :: substitute getenv rest
termination_by text => text.length
decreasing_by
  · exact Nat.lt_succ_of_le (List.length_dropWhile_le _ _)
  · exact Nat.lt_succ_self _

/-- A variable is matched with the longest word behind the `$`. -/
lemma matchHere_shellvalue (c : Char) (rest : Str) :
    rxShellvalue.matchHere (c :: rest) =
      if c = '$' ∧ rest.takeWhile isWord ≠ [] then
        some ⟨[], [(1, rest.takeWhile isWord)], rest.dropWhile isWord⟩
      else none := by
  rw [Regexp.matchHere, rxShellvalue, Regexp.exec]
  by_cases hc : c = '$'
  · subst hc
    rw [Regexp.exec_cls_cons (by simp), Regexp.exec]
    cases rest with
    | nil => simp [Regexp.plus, Regexp.exec]
    | cons a t =>
      by_cases ha : isWord a
      · rw [Regexp.exec_plus_cls isWord a t ha _ _ rfl, if_pos (by simp [ha])]
        have htake := Regexp.take_length_sub_dropWhile isWord (a :: t)
        rw [List.dropWhile_cons_of_pos ha] at htake
        rw [htake, List.dropWhile_cons_of_pos ha]
      · simp [Regexp.plus, Regexp.exec, ha]
  · rw [if_neg (by simp [hc])]
    simp [Regexp.exec, hc]

/-! ### The loop substitutes -/

variable {getenv : Getenv}

lemma substitute_variable {rest : Str} (h : rest.takeWhile isWord ≠ []) :
    substitute getenv ('$' :: rest) = (getenv (rest.takeWhile isWord)).getD [] ++
      substitute getenv (rest.dropWhile isWord) := by
  rw [substitute, if_pos ⟨rfl, h⟩]

lemma substitute_char {c : Char} {rest : Str} (h : ¬(c = '$' ∧ rest.takeWhile isWord ≠ [])) :
    substitute getenv (c :: rest) = c :: substitute getenv rest := by
  rw [substitute, if_neg h]

/-- Where nothing is matched there is nothing to replace. -/
lemma substitute_of_search_none {text : Str} (h : rxShellvalue.search text = none) :
    substitute getenv text = text := by
  induction text with
  | nil => rw [substitute]
  | cons c rest ih =>
    rw [Regexp.search, matchHere_shellvalue] at h
    split_ifs at h with hvar
    · cases h
    · rw [Option.none_or, Option.map_eq_none_iff] at h
      rw [substitute_char hvar, ih h]

/-- The first variable is replaced, and the rest of the text is left to be done. -/
lemma substitute_of_search_some (getenv : Getenv) {text : Str} {m : Found Char}
    (h : rxShellvalue.search text = some m) :
    m.after.length < text.length ∧ substitute getenv text = m.before ++
      ((getenv (Regexp.capture m.captures 1)).getD [] ++ substitute getenv m.after) := by
  induction text generalizing m with
  | nil => simp [Regexp.search, Regexp.matchHere, rxShellvalue, Regexp.exec] at h
  | cons c rest ih =>
    rw [Regexp.search, matchHere_shellvalue] at h
    split_ifs at h with hvar
    · rw [Option.some_or, Option.some.injEq] at h
      subst h
      obtain ⟨rfl, hne⟩ := hvar
      refine ⟨Nat.lt_succ_of_le (List.length_dropWhile_le _ _), ?_⟩
      rw [substitute_variable hne]
      rfl
    · rw [Option.none_or, Option.map_eq_some_iff] at h
      obtain ⟨m, hm, rfl⟩ := h
      obtain ⟨hlength, heq⟩ := ih hm
      exact ⟨Nat.lt_succ_of_lt hlength, by rw [substitute_char hvar, heq, List.cons_append]⟩

/-- The loop appends what is before a match and its value, until nothing is matched. -/
lemma expandLoop_eq {fuel : Nat} {m : Found Char} (hfuel : m.after.length < fuel)
    (expanded : Str) : expandLoop getenv fuel m expanded = some (expanded ++ (m.before ++
      ((getenv (Regexp.capture m.captures 1)).getD [] ++ substitute getenv m.after))) := by
  induction fuel generalizing m expanded with
  | zero => cases hfuel
  | succ fuel ih =>
    have hvalue : (match getenv (Regexp.capture m.captures 1) with
        | some envValue => expanded ++ m.before ++ envValue
        | none => expanded ++ m.before) =
        expanded ++ (m.before ++ (getenv (Regexp.capture m.captures 1)).getD []) := by
      cases getenv (Regexp.capture m.captures 1) <;> simp
    simp only [expandLoop, hvalue]
    cases hsearch : rxShellvalue.search m.after with
    | none =>
      rw [substitute_of_search_none hsearch]
      simp
    | some m' =>
      obtain ⟨hlength, heq⟩ := substitute_of_search_some getenv hsearch
      simp only [ih (Nat.lt_of_lt_of_le hlength (Nat.le_of_lt_succ hfuel)), heq, List.append_assoc]

lemma shellExpand_eq_substitute {fuel : Nat} {text : Str} (hfuel : text.length ≤ fuel) :
    shellExpand getenv fuel text = some (substitute getenv text) := by
  rw [shellExpand]
  cases hsearch : rxShellvalue.search text with
  | none => simp only [substitute_of_search_none hsearch]
  | some m =>
    obtain ⟨hlength, heq⟩ := substitute_of_search_some getenv hsearch
    simp only [expandLoop_eq (Nat.lt_of_lt_of_le hlength hfuel), heq, List.nil_append]

/-- No variable runs on into a text that does not start with a word. -/
lemma substitute_append {b : Str} (hb : ∀ c ∈ b.head?, isWord c = false) (a : Str) :
    substitute getenv (a ++ b) = substitute getenv a ++ substitute getenv b := by
  fun_induction substitute getenv a with
  | case1 => rfl
  | case2 c rest hvar ih =>
    obtain ⟨rfl, hne⟩ := hvar
    have hrun := takeWhile_append_of_head hb rest
    rw [List.cons_append, substitute_variable (by rwa [hrun]), hrun,
      dropWhile_append_of_head hb, ih, List.append_assoc]
  | case3 c rest hvar ih =>
    rw [List.cons_append, substitute_char (by rwa [takeWhile_append_of_head hb]), ih,
      List.cons_append]

/-- `shell_expand` ends and replaces the variables in one pass, so it can be applied to two texts
apart, where the second one does not go on with a word. -/
theorem shellExpand_eq (getenv : Getenv) :
    (∀ text, ∃ k, ∀ fuel, k ≤ fuel →
      shellExpand getenv fuel text = some (substitute getenv text)) ∧
    ∀ a b, (∀ c ∈ b.head?, isWord c = false) → ∃ k, ∀ fuel, k ≤ fuel → ∃ x y,
      shellExpand getenv fuel a = some x ∧ shellExpand getenv fuel b = some y ∧
        shellExpand getenv fuel (a ++ b) = some (x ++ y) := by
  refine ⟨fun text => ⟨text.length, fun fuel hfuel => shellExpand_eq_substitute hfuel⟩,
    fun a b hb => ⟨(a ++ b).length, fun fuel hfuel => ?_⟩⟩
  have hlength : (a ++ b).length = a.length + b.length := List.length_append
  refine ⟨substitute getenv a, substitute getenv b, shellExpand_eq_substitute (by omega),
    shellExpand_eq_substitute (by omega), ?_⟩
  rw [shellExpand_eq_substitute hfuel, substitute_append hb]

theorem shellExpand_eq_twoVariables : ∃ k, ∀ fuel, k ≤ fuel → ∃ x y,
    shellExpand (fun _ => some "$B".toList) fuel "$A".toList = some x ∧
      shellExpand (fun _ => some "$B".toList) fuel "$B".toList = some y ∧
        shellExpand (fun _ => some "$B".toList) fuel ("$A".toList ++ "$B".toList) =
          some (x ++ y) :=
  (shellExpand_eq (fun _ => some "$B".toList)).2 "$A".toList "$B".toList (by simp; decide)

example : shellExpand (fun k => if k = "A".toList then some "$B".toList else none) 3
    "$$A-$B$".toList = some "$$B-$".toList := by decide

end Utilmm
