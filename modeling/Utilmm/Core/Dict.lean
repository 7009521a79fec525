import Mathlib.Tactic

/-!
# Finite maps up to an equality of keys

A map from keys to values, where the equality of keys is a parameter. A value once inserted stays
until its key is erased.
-/

universe u v

/-- The value under each key. -/
def Dict (K : Type u) (V : Type v) := K → Option V

namespace Dict

variable {K : Type u} {V : Type v} (eq : K → K → Bool)

/-- The map without keys. -/
def empty : Dict K V := fun _ => none

/-- A value is inserted unless its key is present. -/
def insert (d : Dict K V) (k : K) (v : V) : Dict K V :=
  fun k' => if (d k).isSome then d k' else if eq k' k then some v else d k'

/-- The keys `ks` are erased. -/
def erase (d : Dict K V) (ks : List K) : Dict K V :=
  fun k => if ks.any (eq k) then none else d k

/-- There are `n` keys present, where equal keys count once. -/
def HasSize (d : Dict K V) (n : Nat) : Prop :=
  ∃ ks : List K, ks.length = n ∧ ks.Pairwise (fun k k' => eq k k' = false) ∧
    ∀ k, (d k).isSome ↔ ∃ k' ∈ ks, eq k k' = true

variable {eq}

lemma insert_of_isSome {d : Dict K V} {k : K} (h : (d k).isSome) (v : V) :
    d.insert eq k v = d := by
  funext k'
  rw [insert, if_pos h]

lemma insert_of_none {d : Dict K V} {k : K} (h : d k = none) (v : V) (k' : K) :
    d.insert eq k v k' = if eq k' k then some v else d k' := by
  rw [insert, h]
  rfl

/-- Equal keys are erased together. -/
lemma erase_singleton_congr {k k' : K} (h : ∀ k₁, eq k₁ k = eq k₁ k') (d : Dict K V) :
    d.erase eq [k] = d.erase eq [k'] := by
  funext k₁
  rw [erase, erase, List.any_cons, List.any_cons, h]

/-- To erase absent keys changes nothing. -/
lemma erase_of_none {d : Dict K V} {ks : List K}
    (h : ∀ k, ks.any (eq k) = true → d k = none) : d.erase eq ks = d := by
  funext k
  rw [erase]
  split_ifs with hk
  · exact (h k hk).symm
  · rfl

end Dict
