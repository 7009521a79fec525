import Utilmm.Core.Multimap
import Utilmm.Text
import Mathlib.Data.List.Lex
import Mathlib.Order.Lattice.Nat
import Mathlib.Data.Char

/-!
# `config_set`

A scope of a configuration: values under names, and child scopes under names. Child scopes are
reached through pointers, so a `ConfigSet` is one object, and `SetId` names an object.
-/

namespace Utilmm

/-- A pointer to a `config_set`. -/
abbrev SetId := Nat

structure ConfigSet where
  parent : Option SetId
  values : Multimap Str Str
  children : Multimap Str SetId
deriving DecidableEq

namespace ConfigSet

/-- The constructor. -/
def new (parent : Option SetId) : ConfigSet := ⟨parent, ∅, ∅⟩

/-! ### Accessors -/

/-- `exists`: whether there is an attribute or a child of this name. -/
def existsName (s : ConfigSet) (name : Str) : Bool :=
  !(s.values.find name).isEmpty || !(s.children.find name).isEmpty

/-- `children`: the child scopes of this name, in order. -/
def childrenNamed (s : ConfigSet) (name : Str) : List SetId := s.children.equalRange name

/-- The loop of `get<stringlist>`: collect values from the first entry on while the key is the
same. -/
def stringlist (s : ConfigSet) (name : Str) : List Str :=
  ((s.values.find name).takeWhile (·.1 = name)).map Prod.snd

/-! ### Mutators -/

def insert (s : ConfigSet) (name value : Str) : ConfigSet :=
  { s with values := s.values.insert name value }

def insertChild (s : ConfigSet) (name : Str) (child : SetId) : ConfigSet :=
  { s with children := s.children.insert name child }

def erase (s : ConfigSet) (name : Str) : ConfigSet :=
  { s with values := s.values.erase name }

def set (s : ConfigSet) (name value : Str) : ConfigSet := (s.erase name).insert name value

/-! ### The values of a name -/

/-- The values stored under a name, in order. -/
def valuesOf (s : ConfigSet) (name : Str) : List Str := s.values.equalRange name

lemma stringlist_eq (s : ConfigSet) (name : Str) : s.stringlist name = s.valuesOf name := by
  rw [valuesOf, ← Multimap.find_takeWhile, stringlist]
  congr!

lemma existsName_iff {s : ConfigSet} {name : Str} :
    s.existsName name ↔ s.valuesOf name ≠ [] ∨ s.childrenNamed name ≠ [] := by
  simp [existsName, valuesOf, childrenNamed, Multimap.find_eq_nil_iff]

@[simp] lemma valuesOf_new (p : Option SetId) (name : Str) : (new p).valuesOf name = [] := rfl

@[simp] lemma valuesOf_insert_self (s : ConfigSet) (name value : Str) :
    (s.insert name value).valuesOf name = s.valuesOf name ++ [value] := by
  simp [valuesOf, insert]

lemma valuesOf_insert_of_ne (s : ConfigSet) {name name' : Str} (h : name ≠ name')
    (value : Str) : (s.insert name value).valuesOf name' = s.valuesOf name' :=
  s.values.equalRange_insert_of_ne h value

@[simp] lemma valuesOf_set_self (s : ConfigSet) (name value : Str) :
    (s.set name value).valuesOf name = [value] := by
  simp [valuesOf, set, insert, erase]

lemma valuesOf_set_of_ne (s : ConfigSet) {name name' : Str} (h : name ≠ name') (value : Str) :
    (s.set name value).valuesOf name' = s.valuesOf name' := by
  rw [set, valuesOf_insert_of_ne _ h]
  exact s.values.equalRange_erase_of_ne h

@[simp] lemma children_insert (s : ConfigSet) (name value : Str) :
    (s.insert name value).children = s.children := rfl

@[simp] lemma children_set (s : ConfigSet) (name value : Str) :
    (s.set name value).children = s.children := rfl

@[simp] lemma parent_insert (s : ConfigSet) (name value : Str) :
    (s.insert name value).parent = s.parent := rfl

@[simp] lemma parent_set (s : ConfigSet) (name value : Str) :
    (s.set name value).parent = s.parent := rfl

/-- Scopes with the same parent and the same contents are equal. -/
lemma ext_valuesOf {s s' : ConfigSet} (hparent : s.parent = s'.parent)
    (hchildren : s.children = s'.children) (h : ∀ name, s.valuesOf name = s'.valuesOf name) :
    s = s' := by
  obtain ⟨parent, values, children⟩ := s
  obtain ⟨parent', values', children'⟩ := s'
  have hvalues : values = values' := Multimap.ext_equalRange h
  simp only at hparent hchildren
  rw [hparent, hchildren, hvalues]

/-- Attributes of different names can be set in any order. -/
lemma set_comm (s : ConfigSet) {name name' : Str} (h : name ≠ name') (value value' : Str) :
    (s.set name value).set name' value' = (s.set name' value').set name value := by
  refine ext_valuesOf rfl rfl fun key => ?_
  by_cases hkey : name = key
  · subst hkey
    rw [valuesOf_set_of_ne _ h.symm]
    simp
  · by_cases hkey' : name' = key
    · subst hkey'
      rw [valuesOf_set_of_ne (s.set name' value') h]
      simp
    · simp only [valuesOf_set_of_ne _ hkey, valuesOf_set_of_ne _ hkey']

end ConfigSet

end Utilmm
