import Mathlib.Tactic

/-!
# Words as bytes

The bytes of a word, from the lowest to the highest, and the word that a list of bytes stands for.
-/

namespace Bytes

variable {w w' : Nat}

/-- The `n` lowest bytes of a word. -/
def ofWord (n : Nat) (x : BitVec w) : List (BitVec 8) :=
  (List.range n).map fun i => x.extractLsb' (8 * i) 8

/-- The word with the given bytes. -/
def toWord (w : Nat) : List (BitVec 8) → BitVec w
  | [] => 0#w
  | b :: bs => (toWord w bs <<< 8) ||| b.setWidth w

variable {n m : Nat} {x y : BitVec w}

@[simp] lemma length_ofWord : (ofWord n x).length = n := by simp [ofWord]

lemma getElem_ofWord {i : Nat} (h : i < (ofWord n x).length) :
    (ofWord n x)[i] = x.extractLsb' (8 * i) 8 := by
  simp [ofWord]

/-- Bit `j` of a word is in its byte `j / 8`. -/
lemma getLsbD_toWord (bs : List (BitVec 8)) (j : Nat) : (toWord w bs).getLsbD j =
    (decide (j < w) && (bs[j / 8]?.getD 0).getLsbD (j % 8)) := by
  induction bs generalizing j with
  | nil => simp [toWord]
  | cons b bs ih =>
    rw [toWord, BitVec.getLsbD_or, BitVec.getLsbD_shiftLeft, BitVec.getLsbD_setWidth, ih]
    rcases Nat.lt_or_ge j 8 with hlt | hge
    · simp [hlt, Nat.div_eq_of_lt hlt, Nat.mod_eq_of_lt hlt]
    · obtain ⟨k, rfl⟩ := Nat.exists_eq_add_of_le hge
      have hdiv : (8 + k) / 8 = k / 8 + 1 := by omega
      have hmod : (8 + k) % 8 = k % 8 := by omega
      have hout : b.getLsbD (8 + k) = false := BitVec.getLsbD_of_ge _ _ hge
      rw [hdiv, hmod, hout, List.getElem?_cons_succ]
      by_cases hw : 8 + k < w
      · simp [hw, Nat.lt_of_add_left_lt hw]
      · simp [hw]

/-- A word is the word of its bytes. -/
lemma toWord_ofWord (hw : w = 8 * n) (x : BitVec w) : toWord w (ofWord n x) = x := by
  refine BitVec.eq_of_getLsbD_eq fun j hj => ?_
  have hlt : j / 8 < n := by omega
  have hbits : 8 * (j / 8) + j % 8 = j := Nat.div_add_mod j 8
  rw [getLsbD_toWord, List.getElem?_eq_getElem (by simpa using hlt), Option.getD_some,
    getElem_ofWord, BitVec.getLsbD_extractLsb', hbits]
  simp [hj, Nat.mod_lt]

/-- The bytes of `y` are those of `x` from the highest to the lowest. -/
lemma ofWord_eq_reverse
    (h : ∀ i < n, y.extractLsb' (8 * i) 8 = x.extractLsb' (8 * (n - 1 - i)) 8) :
    ofWord n y = (ofWord n x).reverse := by
  refine List.ext_getElem (by simp) fun i hi _ => ?_
  rw [length_ofWord] at hi
  rw [getElem_ofWord, List.getElem_reverse, getElem_ofWord, length_ofWord, h i hi]

/-- The bytes of two words, one behind the other. -/
lemma ofWord_append (n m : Nat) (high : BitVec w') (low : BitVec w) (hw : w = 8 * n) :
    ofWord (n + m) (high ++ low) = ofWord n low ++ ofWord m high := by
  rw [ofWord, List.range_add, List.map_append, List.map_map]
  congr 1
  · refine List.map_congr_left fun i hi => ?_
    have hlt := List.mem_range.mp hi
    exact BitVec.extractLsb'_append_eq_of_add_le (by omega)
  · refine List.map_congr_left fun i hi => ?_
    have hsub : 8 * (n + i) - w = 8 * i := by omega
    rw [Function.comp_apply, BitVec.extractLsb'_append_eq_of_le (by omega), hsub]

end Bytes
