import Utilmm.ConfigFile.Get

/-!
# A `config_set` as a map

Whatever was done with a `config_set`, under each name it has the list of the values which were
inserted there since the name was last set or erased. The accessors read this list, and the
conversions work on all of it.
-/

namespace Utilmm

namespace ConfigSet

/-- `insert` of a list: one value after the other. -/
def insertList (s : ConfigSet) (name : Str) (values : List Str) : ConfigSet :=
  values.foldl (fun s value => s.insert name value) s

/-- `set` of a list. -/
def setList (s : ConfigSet) (name : Str) (values : List Str) : ConfigSet :=
  (s.erase name).insertList name values

/-! ### One mutation -/

/-- The mutators. -/
inductive Mutation
  | insert (name value : Str)
  | insertList (name : Str) (values : List Str)
  | set (name value : Str)
  | setList (name : Str) (values : List Str)
  | erase (name : Str)
  | insertChild (name : Str) (child : SetId)
deriving DecidableEq

namespace Mutation

/-- The name a mutation is about. -/
def name : Mutation → Str
  | insert name _ | insertList name _ | set name _ | setList name _ | erase name
  | insertChild name _ => name

/-- The values a mutation inserts. -/
def added : Mutation → List Str
  | insert _ value | set _ value => [value]
  | insertList _ values | setList _ values => values
  | erase _ | insertChild _ _ => []

/-- Whether a mutation drops the old values. -/
def resets : Mutation → Bool
  | set _ _ | setList _ _ | erase _ => true
  | insert _ _ | insertList _ _ | insertChild _ _ => false

/-- The children a mutation inserts. -/
def addedChildren : Mutation → List SetId
  | insertChild _ child => [child]
  | _ => []

/-- The values of a name after a mutation. -/
def values (name : Str) (old : List Str) (op : Mutation) : List Str :=
  if op.name = name then (if op.resets then [] else old) ++ op.added else old

/-- The children of a name after a mutation. -/
def children (name : Str) (old : List SetId) (op : Mutation) : List SetId :=
  if op.name = name then old ++ op.addedChildren else old

end Mutation

def mutate (s : ConfigSet) : Mutation → ConfigSet
  | .insert name value => s.insert name value
  | .insertList name values => s.insertList name values
  | .set name value => s.set name value
  | .setList name values => s.setList name values
  | .erase name => s.erase name
  | .insertChild name child => s.insertChild name child

variable (s : ConfigSet) {name name' : Str}

@[simp] lemma valuesOf_insertList_self (name : Str) (values : List Str) :
    (s.insertList name values).valuesOf name = s.valuesOf name ++ values := by
  induction values generalizing s with
  | nil => simp [insertList]
  | cons value values ih =>
    have hrest := ih (s.insert name value)
    rw [valuesOf_insert_self, List.append_assoc] at hrest
    exact hrest

lemma valuesOf_insertList_of_ne (h : name ≠ name') (values : List Str) :
    (s.insertList name values).valuesOf name' = s.valuesOf name' := by
  induction values generalizing s with
  | nil => rfl
  | cons value values ih => exact (ih (s.insert name value)).trans (s.valuesOf_insert_of_ne h value)

@[simp] lemma children_insertList (name : Str) (values : List Str) :
    (s.insertList name values).children = s.children := by
  induction values generalizing s with
  | nil => rfl
  | cons value values ih => exact ih (s.insert name value)

@[simp] lemma valuesOf_erase_self (name : Str) : (s.erase name).valuesOf name = [] :=
  s.values.equalRange_erase_self name

lemma valuesOf_erase_of_ne (h : name ≠ name') : (s.erase name).valuesOf name' = s.valuesOf name' :=
  s.values.equalRange_erase_of_ne h

@[simp] lemma children_erase (name : Str) : (s.erase name).children = s.children := rfl

lemma valuesOf_mutate_self (op : Mutation) :
    (s.mutate op).valuesOf op.name = (if op.resets then [] else s.valuesOf op.name) ++ op.added := by
  cases op <;> simp [mutate, Mutation.name, Mutation.resets, Mutation.added, setList]
  rfl

/-- Operations on one name do not change another one's values. -/
lemma valuesOf_mutate_of_ne {op : Mutation} (h : op.name ≠ name) :
    (s.mutate op).valuesOf name = s.valuesOf name := by
  cases op with
  | insert _ value => exact s.valuesOf_insert_of_ne h value
  | insertList _ values => exact s.valuesOf_insertList_of_ne h values
  | set _ value => exact s.valuesOf_set_of_ne h value
  | setList n values =>
    exact ((s.erase n).valuesOf_insertList_of_ne h values).trans (s.valuesOf_erase_of_ne h)
  | erase _ => exact s.valuesOf_erase_of_ne h
  | insertChild _ _ => rfl

/-- Operations on values do not change the children. -/
lemma children_mutate {op : Mutation} (h : op.addedChildren = []) :
    (s.mutate op).children = s.children := by
  cases op with
  | insertChild name child => cases h
  | _ => simp [mutate, setList]

lemma valuesOf_mutate (op : Mutation) (name : Str) :
    (s.mutate op).valuesOf name = op.values name (s.valuesOf name) := by
  by_cases h : op.name = name
  · subst h
    rw [Mutation.values, if_pos rfl]
    exact s.valuesOf_mutate_self op
  · rw [Mutation.values, if_neg h]
    exact s.valuesOf_mutate_of_ne h

lemma childrenNamed_mutate (op : Mutation) (name : Str) :
    (s.mutate op).childrenNamed name = op.children name (s.childrenNamed name) := by
  cases op with
  | insertChild name' child =>
    by_cases h : name' = name
    · subst h
      simp only [Mutation.children, Mutation.name, if_true]
      exact s.children.equalRange_insert_self _ _
    · simp only [Mutation.children, Mutation.name, h, if_false]
      exact s.children.equalRange_insert_of_ne h child
  | _ => simp [childrenNamed, mutate, setList, Mutation.children, Mutation.addedChildren]

/-! ### A history -/

/-- A `config_set` after some mutations. -/
def mutateAll (s : ConfigSet) (ops : List Mutation) : ConfigSet := ops.foldl mutate s

/-- The values inserted under a name since it was last set or erased. -/
def valuesSince (name : Str) (old : List Str) (ops : List Mutation) : List Str :=
  ops.foldl (Mutation.values name) old

/-- The children inserted under a name. -/
def childrenSince (name : Str) (old : List SetId) (ops : List Mutation) : List SetId :=
  ops.foldl (Mutation.children name) old

lemma valuesOf_mutateAll (ops : List Mutation) (name : Str) :
    (s.mutateAll ops).valuesOf name = valuesSince name (s.valuesOf name) ops := by
  induction ops generalizing s with
  | nil => rfl
  | cons op ops ih => exact (ih (s.mutate op)).trans (by rw [valuesOf_mutate]; rfl)

lemma childrenNamed_mutateAll (ops : List Mutation) (name : Str) :
    (s.mutateAll ops).childrenNamed name = childrenSince name (s.childrenNamed name) ops := by
  induction ops generalizing s with
  | nil => rfl
  | cons op ops ih => exact (ih (s.mutate op)).trans (by rw [childrenNamed_mutate]; rfl)

/-! ### What the accessors return -/

variable {α : Type} {convert : Str → Except GetFailure α} {values : List Str}

lemma getStringlist_eq (name : Str) (defval : List Str) :
    s.getStringlist name defval = if s.valuesOf name = [] then defval else s.valuesOf name := by
  rw [getStringlist, stringlist_eq]
  cases s.valuesOf name <;> rfl

/-- A conversion of a list fails with the failure of one of its elements. -/
lemma mapM_error {e : GetFailure} (h : values.mapM convert = .error e) :
    ∃ v ∈ values, convert v = .error e := by
  induction values with
  | nil => cases h
  | cons v values ih =>
    rw [List.mapM_cons] at h
    cases hv : convert v with
    | error e' =>
      rw [hv] at h
      cases h
      exact ⟨v, List.mem_cons_self, hv⟩
    | ok x =>
      rw [hv, Except.ok_bind] at h
      cases hvs : values.mapM convert with
      | ok xs =>
        rw [hvs, Except.ok_bind] at h
        cases h
      | error e' =>
        rw [hvs] at h
        cases h
        obtain ⟨w, hw, hfail⟩ := ih hvs
        exact ⟨w, List.mem_cons_of_mem _ hw, hfail⟩

/-- The list accessors for a name with the values `vs`. -/
structure ReadsList (s : ConfigSet) (name : Str) (vs : List Str) : Prop where
  strings : ∀ defval, s.getStringlist name defval = if vs = [] then defval else vs
  converted : ∀ (α : Type) (convert : Str → Except GetFailure α) (defval : List α),
    getList convert s name defval = if vs = [] then .ok defval else vs.mapM convert
  throws : ∀ (α : Type) (convert : Str → Except GetFailure α) (defval : List α),
    (∃ e, getList convert s name defval = .error e) ↔ ∃ v ∈ vs, ∃ e, convert v = .error e

/-- The scalar accessor for a name with the values `vs`. -/
structure ReadsScalar (s : ConfigSet) (name : Str) (vs : List Str) : Prop where
  first : ∀ (α : Type) (convert : Str → Except GetFailure α) (defval x : α),
    getScalar convert s name defval = .ok x → vs.head?.elim (.ok defval) convert = .ok x
  throws : ∀ (α : Type) (convert : Str → Except GetFailure α) (defval : α),
    (∃ e, getScalar convert s name defval = .error e) ↔ ∃ v ∈ vs, ∃ e, convert v = .error e
  failure : ∀ (α : Type) (convert : Str → Except GetFailure α) (defval : α) (e : GetFailure),
    getScalar convert s name defval = .error e → ∃ v ∈ vs, convert v = .error e

lemma returns_iff_not_throws {r : Except GetFailure α} : (∃ x, r = .ok x) ↔ ¬ ∃ e, r = .error e := by
  cases r <;> simp

lemma readsList (name : Str) : ReadsList s name (s.valuesOf name) := by
  refine ⟨s.getStringlist_eq name, fun _ convert => getList_eq convert s name,
    fun _ convert defval => ?_⟩
  rw [← not_iff_not, ← returns_iff_not_throws, getList_returns_iff]
  simp only [returns_iff_not_throws, not_exists, not_and]

lemma readsScalar (name : Str) : ReadsScalar s name (s.valuesOf name) := by
  have hthrows : ∀ (α : Type) (convert : Str → Except GetFailure α) (defval : α),
      (∃ e, getScalar convert s name defval = .error e) ↔
        ∃ v ∈ s.valuesOf name, ∃ e, convert v = .error e := by
    intro _ convert defval
    rw [← not_iff_not, ← returns_iff_not_throws, getScalar_returns_iff]
    simp only [returns_iff_not_throws, not_exists, not_and]
  refine ⟨fun _ convert defval x h => ?_, hthrows, fun _ convert defval e h => ?_⟩
  · rw [getScalar, getList_eq] at h
    cases hvs : s.valuesOf name with
    | nil =>
      rw [hvs] at h
      exact h
    | cons v vs =>
      rw [hvs, if_neg (List.cons_ne_nil _ _), List.mapM_cons] at h
      simp only [Except.bind_eq_ok, Except.pure_eq_ok] at h
      obtain ⟨xs, ⟨y, hy, ys, -, rfl⟩, hx⟩ := h
      cases hx
      exact hy
  · obtain ⟨v, hv, -⟩ := (hthrows _ convert defval).mp ⟨e, h⟩
    rw [getScalar, getList_eq, if_neg (List.ne_nil_of_mem hv)] at h
    cases hxs : (s.valuesOf name).mapM convert with
    | error e' =>
      rw [hxs] at h
      cases h
      exact mapM_error hxs
    | ok xs =>
      rw [hxs, Except.ok_bind] at h
      obtain ⟨x, xs', rfl⟩ := List.exists_cons_of_ne_nil (mapM_ne_nil hxs (List.ne_nil_of_mem hv))
      cases h

/-- After every history a `config_set` is a map from names to lists of values. -/
theorem config_set_map (s : ConfigSet) (ops : List Mutation) :
    (∀ name, ReadsList (s.mutateAll ops) name (valuesSince name (s.valuesOf name) ops) ∧
      ReadsScalar (s.mutateAll ops) name (valuesSince name (s.valuesOf name) ops) ∧
      ((s.mutateAll ops).existsName name ↔ valuesSince name (s.valuesOf name) ops ≠ [] ∨
        (s.mutateAll ops).childrenNamed name ≠ []) ∧
      (s.mutateAll ops).childrenNamed name = childrenSince name (s.childrenNamed name) ops) ∧
    ∀ op : Mutation,
      (∀ name, op.name ≠ name →
        ((s.mutateAll ops).mutate op).valuesOf name = (s.mutateAll ops).valuesOf name) ∧
      (op.addedChildren = [] →
        ((s.mutateAll ops).mutate op).children = (s.mutateAll ops).children) := by
  refine ⟨fun name => ?_, fun op => ⟨fun name h => ?_, fun h => ?_⟩⟩
  · rw [← valuesOf_mutateAll]
    exact ⟨readsList _ name, readsScalar _ name, existsName_iff, childrenNamed_mutateAll s ops name⟩
  · exact valuesOf_mutate_of_ne _ h
  · exact children_mutate _ h

end ConfigSet

end Utilmm
