import Mathlib.Tactic
import Mathlib.Data.List.TakeWhile

/-!
# The environment of a process

An environment is a list of texts, each a name with a value behind a separator. The functions are
those of the C library, for any type of characters and any separator. A name is not empty and has
no separator in it.
-/

namespace Environ

variable {α : Type*} [DecidableEq α] (sep : α)

/-- The name in front of the separator. -/
def name (s : List α) : List α := s.takeWhile (· ≠ sep)

/-- The value behind the separator, if there is one. -/
def value (s : List α) : Option (List α) := (s.dropWhile (· ≠ sep)).tail?

/-- The text gives a value to the name. -/
def About (x s : List α) : Prop := sep ∈ s ∧ name sep s = x

instance (x s : List α) : Decidable (About sep x s) := inferInstanceAs (Decidable (_ ∧ _))

/-- The value of the first text about the name. -/
def getenv (environ : List (List α)) (x : List α) : Option (List α) :=
  (environ.find? (About sep x ·)).bind (value sep)

/-- The first text about the same name is replaced, and if there is none the text is appended. -/
def store (s : List α) : List (List α) → List (List α)
  | [] => [s]
  | e :: environ => if About sep (name sep s) e then s :: environ else e :: store s environ

/-- A text without a separator removes its name. -/
def putenv (environ : List (List α)) (s : List α) : List (List α) :=
  if sep ∈ s then store sep s environ
  else if s = [] then environ
  else environ.filter (¬ About sep s ·)

variable {sep} {environ : List (List α)} {s x : List α}

lemma name_append (h : sep ∉ x) (v : List α) : name sep (x ++ sep :: v) = x := by
  have hx : ∀ a ∈ x, decide (a ≠ sep) = true := fun a ha =>
    decide_eq_true (ne_of_mem_of_not_mem ha h)
  rw [name, List.takeWhile_append_of_pos hx, List.takeWhile_cons_of_neg (by simp),
    List.append_nil]

lemma value_append (h : sep ∉ x) (v : List α) : value sep (x ++ sep :: v) = some v := by
  have hx : ∀ a ∈ x, decide (a ≠ sep) = true := fun a ha =>
    decide_eq_true (ne_of_mem_of_not_mem ha h)
  rw [value, List.dropWhile_append_of_pos hx, List.dropWhile_cons_of_neg (by simp)]
  rfl

lemma name_of_not_mem (h : sep ∉ s) : name sep s = s :=
  List.takeWhile_eq_self_iff.mpr fun _ ha => decide_eq_true (ne_of_mem_of_not_mem ha h)

lemma value_of_not_mem (h : sep ∉ s) : value sep s = none := by
  have hs : s.dropWhile (· ≠ sep) = [] :=
    List.dropWhile_eq_nil_iff.mpr fun _ ha => decide_eq_true (ne_of_mem_of_not_mem ha h)
  rw [value, hs]
  rfl

lemma getenv_cons (e : List α) :
    getenv sep (e :: environ) x = if About sep x e then value sep e else getenv sep environ x := by
  by_cases he : About sep x e <;> simp [getenv, he]

lemma getenv_store (hs : sep ∈ s) :
    getenv sep (store sep s environ) x
      = if name sep s = x then value sep s else getenv sep environ x := by
  have hself : About sep x s ↔ name sep s = x := and_iff_right hs
  induction environ with
  | nil => simp only [store, getenv_cons, hself]
  | cons e environ ih =>
    rw [store]
    split_ifs with he hx hx
    · rw [getenv_cons, if_pos (hself.mpr hx)]
    · have hex : ¬ About sep x e := fun h => hx (he.2.symm.trans h.2)
      rw [getenv_cons, if_neg (mt hself.mp hx), getenv_cons, if_neg hex]
    · rw [getenv_cons, if_neg (hx ▸ he), ih, if_pos hx]
    · rw [getenv_cons, getenv_cons, ih, if_neg hx]

/-- A name that is removed has no value, and the others keep theirs. -/
lemma getenv_filter :
    getenv sep (environ.filter (¬ About sep s ·)) x
      = if s = x then none else getenv sep environ x := by
  induction environ with
  | nil => split_ifs <;> rfl
  | cons e environ ih =>
    rw [List.filter_cons]
    by_cases he : About sep s e
    · rw [if_neg (by simpa using he), ih, getenv_cons]
      split_ifs with hx hex
      · rfl
      · exact absurd (he.2.symm.trans hex.2) hx
      · rfl
    · rw [if_pos (by simpa using he), getenv_cons, getenv_cons, ih]
      split_ifs with hex hx
      · exact absurd (hx ▸ hex) he
      all_goals rfl

/-- What a name stands for behind a call of `putenv`. -/
theorem getenv_putenv (hx : x ≠ []) :
    getenv sep (putenv sep environ s) x
      = if name sep s = x then value sep s else getenv sep environ x := by
  by_cases hs : sep ∈ s
  · rw [putenv, if_pos hs, getenv_store hs]
  · rw [putenv, if_neg hs, name_of_not_mem hs, value_of_not_mem hs]
    by_cases hnil : s = []
    · rw [if_pos hnil, if_neg (hnil ▸ Ne.symm hx)]
    · rw [if_neg hnil, getenv_filter]

/-- After many calls the last one about the name decides. -/
theorem getenv_foldl_putenv (hx : x ≠ []) (ss : List (List α)) :
    getenv sep (ss.foldl (putenv sep) environ) x
      = match (ss.filter (name sep · = x)).getLast? with
        | none => getenv sep environ x
        | some s => value sep s := by
  induction ss using List.reverseRecOn with
  | nil => rfl
  | append_singleton ss s ih =>
    rw [List.foldl_append, List.foldl_cons, List.foldl_nil, getenv_putenv hx, ih,
      List.filter_append, List.getLast?_append]
    by_cases hname : name sep s = x
    · simp [hname]
    · simp [hname]

end Environ
