import Utilmm.Core.Squeeze
import Utilmm.StringTools.Split

/-!
# Cleaning a path

`clean_path` erases the first slash of the first `//` of a text until there is none, and then leaves
the text to the normalisation of Boost.Filesystem. That there is none shows in the result `npos` of
`find`, which is no position in the text.
-/

namespace Utilmm

namespace StringTools

/-- A `std::string`. Its length is always below `npos`. -/
structure BoundedStr where
  text : Str
  length_lt : text.length < npos

namespace BoundedStr

def length (str : BoundedStr) : Nat := str.text.length

/-- `str.find(sep)`: a position or `npos`. -/
def find (str : BoundedStr) (sep : Str) : Nat := (StringTools.find str.text sep 0).getD npos

/-- `str.erase(i, n)` at a position of the text. -/
def erase (str : BoundedStr) (i n : Nat) : BoundedStr where
  text := str.text.take i ++ str.text.drop (i + n)
  length_lt := by
    refine lt_of_le_of_lt ?_ str.length_lt
    rw [List.length_append, List.length_take, List.length_drop]
    omega

end BoundedStr

/-- The loop of `clean_path`, where `i` is what `find` has returned; there is no result without
fuel. -/
def cleanLoop : Nat → BoundedStr → Nat → Option BoundedStr
  | 0, _, _ => none
  | fuel + 1, str, i =>
    if i < str.length then
      let str := str.erase i 1
      cleanLoop fuel str (str.find ['/', '/'])
    else some str

section

variable {Path : Type} (path : Str → Path) (normalize : Path → Path)

/-- `clean_path`. The constructor of paths and `normalize` are those of Boost.Filesystem. -/
def cleanPath (fuel : Nat) (str : BoundedStr) : Option Path := do
  let str ← cleanLoop fuel str (str.find ['/', '/'])
  return normalize (path str.text)

end

/-! ### What the loop leaves -/

namespace BoundedStr

variable {str : BoundedStr}

/-- The text with each run of slashes replaced by one slash. -/
def squeeze (str : BoundedStr) : BoundedStr where
  text := List.squeeze '/' str.text
  length_lt := (List.length_squeeze_le _ _).trans_lt str.length_lt

/-- Either a pair of slashes is found, which splits the text, or there is none and the result is no
position. -/
lemma find_cases (str : BoundedStr) :
    (∃ s t, str.text = s ++ '/' :: '/' :: t ∧ str.find ['/', '/'] = s.length) ∨
      (¬ ['/', '/'] <:+: str.text ∧ str.find ['/', '/'] = npos) := by
  rw [find]
  cases hfind : StringTools.find str.text ['/', '/'] 0 with
  | none =>
    refine Or.inr ⟨?_, rfl⟩
    rw [← List.occurrence_eq_none_iff]
    exact find_eq_none hfind (Nat.zero_le _)
  | some i =>
    obtain ⟨-, n, hn, rfl⟩ := find_eq_some hfind
    rw [List.drop_zero] at hn
    refine Or.inl ⟨str.text.take n, str.text.drop (n + 2), ?_, ?_⟩
    · exact (List.take_append_drop_of_occurrence hn).symm
    · have hle := Nat.le_of_add_right_le (List.occurrence_le hn)
      rw [Option.getD_some, Nat.zero_add, List.length_take, min_eq_left hle]

lemma squeeze_eq_self (h : ¬ ['/', '/'] <:+: str.text) : str.squeeze = str := by
  cases str
  simp only [squeeze, mk.injEq]
  exact List.squeeze_eq_self_iff.mpr h

/-- To erase the first slash of a pair leaves a shorter text with the same runs. -/
lemma erase_pair {s t : Str} (h : str.text = s ++ '/' :: '/' :: t) :
    (str.erase s.length 1).squeeze = str.squeeze ∧
      (str.erase s.length 1).length + 1 = str.length := by
  have herase : (str.erase s.length 1).text = s ++ '/' :: t := by
    simp [erase, h]
  constructor
  · simp only [squeeze, mk.injEq]
    rw [herase, h, List.squeeze_append_pair]
  · rw [length, length, herase, h]
    simp only [List.length_append, List.length_cons]
    omega

end BoundedStr

/-- With as much fuel as there are characters, the loop comes to an end. -/
lemma cleanLoop_eq {fuel : Nat} {str : BoundedStr} (hfuel : str.length < fuel) :
    cleanLoop fuel str (str.find ['/', '/']) = some str.squeeze := by
  induction fuel generalizing str with
  | zero => exact absurd hfuel (Nat.not_lt_zero _)
  | succ fuel ih =>
    rw [cleanLoop]
    obtain ⟨s, t, htext, hfind⟩ | ⟨hnone, hfind⟩ := str.find_cases
    · obtain ⟨hsqueeze, hlength⟩ := BoundedStr.erase_pair htext
      have hi : s.length < str.length := by
        rw [BoundedStr.length, htext, List.length_append, List.length_cons]
        omega
      rw [hfind, if_pos hi, ih (by omega), hsqueeze]
    · have hi : ¬ npos < str.length := not_lt.mpr str.length_lt.le
      rw [hfind, if_neg hi, BoundedStr.squeeze_eq_self hnone]

/-- The loop comes to an end and leaves the text in which each maximal run of slashes is one slash.
There it finds nothing more to do, and this is what is normalised. -/
theorem cleanPath_squeezes {Path : Type} (path : Str → Path) (normalize : Path → Path)
    (str : BoundedStr) : ∃ (r : BoundedStr) (k : Nat),
      (∀ fuel, k ≤ fuel → cleanLoop fuel str (str.find ['/', '/']) = some r ∧
        cleanLoop fuel r (r.find ['/', '/']) = some r ∧
        cleanPath path normalize fuel str = some (normalize (path r.text))) ∧
      (∀ t, List.Squeezes '/' str.text t ↔ t = r.text) ∧ ¬ ['/', '/'] <:+: r.text := by
  have hr : str.squeeze.squeeze = str.squeeze :=
    BoundedStr.squeeze_eq_self (List.not_infix_squeeze _ _)
  have hle : str.squeeze.length ≤ str.length := List.length_squeeze_le _ _
  refine ⟨str.squeeze, str.length + 1, fun fuel hfuel => ⟨?_, ?_, ?_⟩, fun t => ?_, ?_⟩
  · exact cleanLoop_eq hfuel
  · rw [cleanLoop_eq (hle.trans_lt hfuel), hr]
  · rw [cleanPath, cleanLoop_eq hfuel]
    rfl
  · exact List.squeezes_iff
  · exact List.not_infix_squeeze _ _

example : cleanPath id id 10 ⟨"//a/./b//".toList, by decide⟩ = some "/a/./b/".toList := by decide

end StringTools

end Utilmm
