import Utilmm.ConfigFile.ConfigSet
import Utilmm.Core.Except

/-!
# Typed access to a `config_set`

`get<T>` reads the values of a name and converts each of them. The conversion to `bool` is part of
the class; every other type goes through `boost::lexical_cast`, which is a parameter here.
-/

namespace Utilmm

/-- How `get` ends when it does not return. `frontOfEmpty` is the call of `front()` on an empty
list. -/
inductive GetFailure where
  | badLexicalCast
  | frontOfEmpty
deriving DecidableEq

namespace ConfigSet

variable {α : Type}

/-! ### `get` -/

/-- `convert<bool>` -/
def convertBool (value : Str) : Except GetFailure Bool :=
  if value = "true".toList ∨ value = "1".toList then .ok true
  else if value = "false".toList ∨ value = "0".toList then .ok false
  else .error .badLexicalCast

/-- `get<stringlist>` -/
def getStringlist (s : ConfigSet) (name : Str) (defval : List Str) : List Str :=
  if (s.stringlist name).isEmpty then defval else s.stringlist name

/-- `get` of a list type. -/
def getList (convert : Str → Except GetFailure α) (s : ConfigSet) (name : Str)
    (defval : List α) : Except GetFailure (List α) :=
  let values := s.getStringlist name []
  if values.isEmpty then .ok defval else values.mapM convert

/-- `get` of any other type: the first of the converted values. -/
def getScalar (convert : Str → Except GetFailure α) (s : ConfigSet) (name : Str) (defval : α) :
    Except GetFailure α := do
  match ← getList convert s name [defval] with
  | [] => .error .frontOfEmpty
  | value :: _ => return value

/-! ### When `get` returns -/

lemma mapM_returns_iff {convert : Str → Except GetFailure α} {values : List Str} :
    (∃ xs, values.mapM convert = .ok xs) ↔ ∀ v ∈ values, ∃ x, convert v = .ok x := by
  induction values with
  | nil => simp [Except.pure_eq_ok]
  | cons v values ih =>
    simp only [List.mapM_cons, Except.bind_eq_ok, Except.pure_eq_ok, List.forall_mem_cons, ← ih]
    constructor
    · intro ⟨_, x, hx, xs, hxs, _⟩
      exact ⟨⟨x, hx⟩, xs, hxs⟩
    · intro ⟨⟨x, hx⟩, xs, hxs⟩
      exact ⟨x :: xs, x, hx, xs, hxs, rfl⟩

lemma mapM_ne_nil {convert : Str → Except GetFailure α} {values : List Str} {xs : List α}
    (h : values.mapM convert = .ok xs) (hv : values ≠ []) : xs ≠ [] := by
  cases values with
  | nil => exact absurd rfl hv
  | cons v values =>
    simp only [List.mapM_cons, Except.bind_eq_ok, Except.pure_eq_ok] at h
    obtain ⟨x, _, xs', _, rfl⟩ := h
    exact List.cons_ne_nil x xs'

lemma getList_eq (convert : Str → Except GetFailure α) (s : ConfigSet) (name : Str)
    (defval : List α) :
    getList convert s name defval
      = if s.valuesOf name = [] then .ok defval else (s.valuesOf name).mapM convert := by
  rw [getList, getStringlist, stringlist_eq]
  cases s.valuesOf name <;> rfl

/-- A list `get` returns when every value of the name can be converted. -/
theorem getList_returns_iff {convert : Str → Except GetFailure α} {s : ConfigSet} {name : Str}
    (defval : List α) :
    (∃ xs, getList convert s name defval = .ok xs) ↔
      ∀ v ∈ s.valuesOf name, ∃ x, convert v = .ok x := by
  rw [getList_eq]
  split_ifs with h
  · simp [h]
  · exact mapM_returns_iff

/-- A scalar `get` converts every value of the name, too, and then has a first one. -/
theorem getScalar_returns_iff {convert : Str → Except GetFailure α} {s : ConfigSet} {name : Str}
    (defval : α) :
    (∃ x, getScalar convert s name defval = .ok x) ↔
      ∀ v ∈ s.valuesOf name, ∃ x, convert v = .ok x := by
  rw [← getList_returns_iff [defval], getScalar]
  constructor
  · intro ⟨x, hx⟩
    obtain ⟨xs, hxs, -⟩ := Except.bind_eq_ok.mp hx
    exact ⟨xs, hxs⟩
  · intro ⟨xs, hxs⟩
    have hne : xs ≠ [] := by
      rw [getList_eq] at hxs
      split_ifs at hxs with h
      · cases hxs
        exact List.cons_ne_nil defval []
      · exact mapM_ne_nil hxs h
    cases xs with
    | nil => exact absurd rfl hne
    | cons x xs => exact ⟨x, Except.bind_eq_ok.mpr ⟨x :: xs, hxs, rfl⟩⟩

lemma convertBool_returns_iff {v : Str} :
    (∃ b, convertBool v = .ok b) ↔
      v = "1".toList ∨ v = "0".toList ∨ v = "false".toList ∨ v = "true".toList := by
  rw [convertBool]
  split_ifs with h₁ h₂
  · exact iff_of_true ⟨true, rfl⟩ (by tauto)
  · exact iff_of_true ⟨false, rfl⟩ (by tauto)
  · exact iff_of_false (by simp) (by tauto)

end ConfigSet

/-! ### The conversion to `int` -/

/-- The number that decimal digits denote. -/
def decimal (digits : Str) : Nat := digits.foldl (fun n c => 10 * n + (c.toNat - '0'.toNat)) 0

/-- Whether a text starts with `-`, and what follows the sign. -/
def splitSign : Str → Bool × Str
  | '-' :: digits => (true, digits)
  | '+' :: digits => (false, digits)
  | digits => (false, digits)

/-- The 32-bit `int` that a text denotes: an optional sign and decimal digits. -/
def int32Value (s : Str) : Option Int :=
  let (negative, digits) := splitSign s
  let value : Int := if negative then -(decimal digits : Int) else decimal digits
  if digits ≠ [] ∧ digits.all Char.isDigit ∧ -2 ^ 31 ≤ value ∧ value < 2 ^ 31 then some value
  else none

/-- What `boost::lexical_cast<int>` does. -/
structure IsLexicalCastInt (cast : Str → Except GetFailure Int) : Prop where
  ok : ∀ {s n}, int32Value s = some n → cast s = .ok n
  throws : ∀ {s}, int32Value s = none → cast s = .error .badLexicalCast

/-- `boost::lexical_cast<int>` as it is documented. -/
def lexicalCastInt (s : Str) : Except GetFailure Int :=
  match int32Value s with
  | some n => .ok n
  | none => .error .badLexicalCast

lemma isLexicalCastInt_lexicalCastInt : IsLexicalCastInt lexicalCastInt := by
  constructor
  · intro s n h
    rw [lexicalCastInt, h]
  · intro s h
    rw [lexicalCastInt, h]

lemma IsLexicalCastInt.returns_iff {cast : Str → Except GetFailure Int}
    (hcast : IsLexicalCastInt cast) {s : Str} :
    (∃ n, cast s = .ok n) ↔ (int32Value s).isSome := by
  cases h : int32Value s with
  | none => simp [hcast.throws h]
  | some n => simp [hcast.ok h]

lemma splitSign_of_digits {s : Str} (hs : ∀ c ∈ s, c.isDigit) : splitSign s = (false, s) := by
  cases s with
  | nil => rfl
  | cons c s =>
    have hc : c.isDigit := hs c List.mem_cons_self
    have hminus : c ≠ '-' := fun h => absurd (h ▸ hc) (by decide)
    have hplus : c ≠ '+' := fun h => absurd (h ▸ hc) (by decide)
    simp [splitSign, hminus, hplus]

/-- A text of digits denotes an `int` when it is small enough. -/
lemma int32Value_isSome_iff {s : Str} (hne : s ≠ []) (hs : ∀ c ∈ s, c.isDigit) :
    (int32Value s).isSome ↔ decimal s < 2 ^ 31 := by
  have hall : s.all Char.isDigit := by simpa using hs
  simp only [int32Value, splitSign_of_digits hs, Bool.false_eq_true, if_false]
  split_ifs with h
  · simp only [Option.isSome_some, true_iff]
    exact_mod_cast h.2.2.2
  · simp only [Option.isSome_none, Bool.false_eq_true, false_iff]
    intro hlt
    apply h
    exact ⟨hne, hall, by omega, by exact_mod_cast hlt⟩

end Utilmm
