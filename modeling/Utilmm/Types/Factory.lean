import Std.Data.TreeMap.Lemmas
import Utilmm.Core.Runs

/-!
# Factories

A factory keeps a production method under each identifier, in a `std::map`. `OrderId` is given by the
comparison of identifiers. The error policy and the call of a production method are parameters.
-/

namespace Utilmm

universe u v w

variable {Id : Type u} {Creator : Type v} {Result : Type w}

/-- The error policy, and what a production method returns. -/
structure Policy (Id : Type u) (Creator : Type v) (Result : Type w) where
  onUnknownId : Id → Result
  onUnknownType : Id → Creator
  call : Creator → Result

/-- `associations` -/
abbrev Factory (Id : Type u) (Creator : Type v) (cmp : Id → Id → Ordering) :=
  Std.TreeMap Id Creator cmp

namespace Factory

variable {cmp : Id → Id → Ordering} (s : Factory Id Creator cmp)

def add (id : Id) (creator : Creator) : Bool × Factory Id Creator cmp :=
  let (present, associations) := s.containsThenInsertIfNew id creator
  (!present, associations)

def remove (id : Id) : Bool × Factory Id Creator cmp := (s.contains id, s.erase id)

def makeAlias (fromId toId : Id) : Bool × Factory Id Creator cmp :=
  match s[toId]? with
  | none => (true, s)
  | some creator => add s fromId creator

def create (policy : Policy Id Creator Result) (id : Id) : Result :=
  match s[id]? with
  | none => policy.onUnknownId id
  | some creator => policy.call creator

def checkEntry (id : Id) : Bool := s.contains id

def getCreator (policy : Policy Id Creator Result) (id : Id) : Creator :=
  match s[id]? with
  | none => policy.onUnknownType id
  | some creator => creator

/-- Every access to the identifier leads to the production method. -/
def Resolves (policy : Policy Id Creator Result) (id : Id) (creator : Creator) : Prop :=
  s.checkEntry id = true ∧ s.getCreator policy id = creator ∧
    s.create policy id = policy.call creator

variable {s} {id : Id} {creator : Creator} [Std.TransCmp cmp]

lemma mem_iff_exists {id : Id} : id ∈ s ↔ ∃ creator, s[id]? = some creator :=
  Std.TreeMap.mem_iff_isSome_getElem?.trans Option.isSome_iff_exists

lemma resolves_of_some (policy : Policy Id Creator Result) (h : s[id]? = some creator) :
    s.Resolves policy id creator := by
  refine ⟨?_, by rw [getCreator, h], by rw [create, h]⟩
  rw [checkEntry, Std.TreeMap.contains_eq_isSome_getElem?, h]
  rfl

/-! ### What the operations do -/

lemma add_fst (s : Factory Id Creator cmp) (id : Id) (creator : Creator) :
    (s.add id creator).1 = true ↔ id ∉ s := by
  show (!(s.containsThenInsertIfNew id creator).1) = true ↔ id ∉ s
  rw [Std.TreeMap.containsThenInsertIfNew_fst, Bool.not_eq_true', ← Bool.not_eq_true,
    Std.TreeMap.mem_iff_contains]

lemma getElem?_add (s : Factory Id Creator cmp) (id : Id) (creator : Creator) (id' : Id) :
    (s.add id creator).2[id']? = if cmp id id' = .eq ∧ id ∉ s then some creator else s[id']? := by
  rw [add, Std.TreeMap.containsThenInsertIfNew_snd, Std.TreeMap.getElem?_insertIfNew]

omit [Std.TransCmp cmp] in
lemma remove_fst (s : Factory Id Creator cmp) (id : Id) : (s.remove id).1 = true ↔ id ∈ s := by
  rw [remove, Std.TreeMap.mem_iff_contains]

lemma getElem?_remove (s : Factory Id Creator cmp) (id id' : Id) :
    (s.remove id).2[id']? = if cmp id id' = .eq then none else s[id']? :=
  Std.TreeMap.getElem?_erase

omit [Std.TransCmp cmp] in
lemma makeAlias_of_some {toId : Id} (h : s[toId]? = some creator) (fromId : Id) :
    s.makeAlias fromId toId = s.add fromId creator := by
  rw [makeAlias, h]

lemma makeAlias_of_notMem {toId : Id} (h : toId ∉ s) (fromId : Id) :
    s.makeAlias fromId toId = (true, s) := by
  rw [makeAlias, Std.TreeMap.getElem?_eq_none h]

end Factory

namespace Factories

inductive Action (Id : Type u) (Creator : Type v)
  | add (id : Id) (creator : Creator)
  | remove (id : Id)
  | makeAlias (fromId toId : Id)

/-- The identifier which an action is on. -/
def Action.id : Action Id Creator → Id
  | .add id _ => id
  | .remove id => id
  | .makeAlias fromId _ => fromId

variable {cmp : Id → Id → Ordering}

/-- The result of an action and the factory after it. -/
def perform (s : Factory Id Creator cmp) : Action Id Creator → Bool × Factory Id Creator cmp
  | .add id creator => s.add id creator
  | .remove id => s.remove id
  | .makeAlias fromId toId => s.makeAlias fromId toId

/-- The factory after some actions. -/
def performAll (s : Factory Id Creator cmp) (as : List (Action Id Creator)) :
    Factory Id Creator cmp :=
  as.foldl (fun s a => (perform s a).2) s

/-- No action fails. -/
def machine (cmp : Id → Id → Ordering) :
    Machine (Factory Id Creator cmp) (Action Id Creator) Empty where
  legal _ _ := True
  step s a := .ok (perform s a).2

/-- The identifier is not removed by one of the actions. -/
def NotRemoved (cmp : Id → Id → Ordering) (id : Id) (as : List (Action Id Creator)) : Prop :=
  ∀ id', .remove id' ∈ as → cmp id' id ≠ .eq

/-- An action answers what it has done. An alias lasts until it is removed itself. -/
def Answers (policy : Policy Id Creator Result) (s : Factory Id Creator cmp)
    (a : Action Id Creator) (s' : Factory Id Creator cmp) : Prop :=
  match a with
  | .add _ _ | .remove _ => (perform s a).1 = true ↔ ∃ id : Id, s'[id]? ≠ s[id]?
  | .makeAlias fromId toId =>
    ((perform s a).1 = true ↔ toId ∈ s ∧ fromId ∉ s) ∧
    ((perform s a).1 = true → cmp toId fromId ≠ .eq ∧ ∃ creator, s[toId]? = some creator ∧
      ∀ as, NotRemoved cmp fromId as → (performAll s' as).Resolves policy fromId creator) ∧
    ((perform s a).1 = false → ∀ id : Id, s'[id]? = s[id]?)

/-- An action answers what it has done, and leaves the other identifiers alone. -/
def Truthful (policy : Policy Id Creator Result) (s : Factory Id Creator cmp)
    (a : Action Id Creator) (s' : Factory Id Creator cmp) : Prop :=
  Answers policy s a s' ∧ ∀ id : Id, cmp a.id id ≠ .eq → s'[id]? = s[id]?

/-- An alias is made for an identifier which is registered. -/
def Registered (s : Factory Id Creator cmp) : Action Id Creator → Prop
  | .add _ _ | .remove _ => True
  | .makeAlias _ toId => toId ∈ s

variable [Std.TransCmp cmp] {s : Factory Id Creator cmp} {id : Id} {creator : Creator}

/-- An action leaves the other identifiers alone. -/
lemma getElem?_perform_of_ne {a : Action Id Creator} (h : cmp a.id id ≠ .eq) :
    (perform s a).2[id]? = s[id]? := by
  cases a with
  | add id' creator => rw [perform, Factory.getElem?_add, if_neg fun heq => h heq.1]
  | remove id' =>
    rw [perform, Factory.getElem?_remove]
    exact if_neg h
  | makeAlias fromId toId =>
    rw [perform]
    by_cases hto : toId ∈ s
    · obtain ⟨creator, hcreator⟩ := Factory.mem_iff_exists.mp hto
      rw [Factory.makeAlias_of_some hcreator, Factory.getElem?_add, if_neg fun heq => h heq.1]
    · rw [Factory.makeAlias_of_notMem hto]

/-- What is registered stays until it is removed. -/
lemma getElem?_add_of_some (h : s[id]? = some creator) (id' : Id) (creator' : Creator) :
    (s.add id' creator').2[id]? = some creator := by
  rw [Factory.getElem?_add, if_neg, h]
  rintro ⟨heq, hmem⟩
  exact hmem (Factory.mem_iff_exists.mpr ⟨creator, by rw [Std.TreeMap.getElem?_congr heq, h]⟩)

lemma getElem?_perform_of_some (h : s[id]? = some creator) {a : Action Id Creator}
    (ha : NotRemoved cmp id [a]) : (perform s a).2[id]? = some creator := by
  cases a with
  | add id' creator' => exact getElem?_add_of_some h id' creator'
  | remove id' =>
    rw [perform, Factory.getElem?_remove, if_neg (ha id' List.mem_cons_self), h]
  | makeAlias fromId toId =>
    rw [perform, Factory.makeAlias]
    split
    · exact h
    · exact getElem?_add_of_some h _ _

lemma getElem?_performAll_of_some (h : s[id]? = some creator) {as : List (Action Id Creator)}
    (has : NotRemoved cmp id as) : (performAll s as)[id]? = some creator := by
  induction as generalizing s with
  | nil => exact h
  | cons a as ih =>
    refine ih (getElem?_perform_of_some h fun id' hmem => ?_)
      fun id' hmem => has id' (List.mem_cons_of_mem a hmem)
    exact has id' (List.mem_cons.mpr (.inl (List.mem_singleton.mp hmem)))

/-- An insertion answers whether it changes anything. -/
lemma add_fst_iff_changes (s : Factory Id Creator cmp) (id : Id) (creator : Creator) :
    (s.add id creator).1 = true ↔ ∃ id' : Id, (s.add id creator).2[id']? ≠ s[id']? := by
  rw [Factory.add_fst]
  constructor
  · intro hmem
    refine ⟨id, ?_⟩
    rw [Factory.getElem?_add, if_pos ⟨Std.ReflCmp.compare_self, hmem⟩,
      Std.TreeMap.getElem?_eq_none hmem]
    exact Option.some_ne_none creator
  · rintro ⟨id', hne⟩ hmem
    rw [Factory.getElem?_add, if_neg fun h => h.2 hmem] at hne
    exact hne rfl

lemma remove_fst_iff_changes (s : Factory Id Creator cmp) (id : Id) :
    (s.remove id).1 = true ↔ ∃ id' : Id, (s.remove id).2[id']? ≠ s[id']? := by
  rw [Factory.remove_fst]
  constructor
  · intro hmem
    obtain ⟨creator, h⟩ := Factory.mem_iff_exists.mp hmem
    refine ⟨id, ?_⟩
    rw [Factory.getElem?_remove, if_pos Std.ReflCmp.compare_self, h]
    exact (Option.some_ne_none creator).symm
  · rintro ⟨id', hne⟩
    rw [Factory.getElem?_remove] at hne
    by_contra hmem
    split_ifs at hne with heq
    · rw [← Std.TreeMap.getElem?_congr heq, Std.TreeMap.getElem?_eq_none hmem] at hne
      exact hne rfl
    · exact hne rfl

/-- An alias for what is registered is an insertion. -/
lemma answers_makeAlias (policy : Policy Id Creator Result) {toId : Id}
    (h : s[toId]? = some creator) (fromId : Id) :
    Answers policy s (.makeAlias fromId toId) (s.add fromId creator).2 := by
  have hto : toId ∈ s := Factory.mem_iff_exists.mpr ⟨creator, h⟩
  rw [Answers, perform, Factory.makeAlias_of_some h]
  refine ⟨by rw [Factory.add_fst, and_iff_right hto], fun hadd => ?_, fun hadd id => ?_⟩
  · have hfrom : (s.add fromId creator).2[fromId]? = some creator := by
      rw [Factory.getElem?_add,
        if_pos ⟨Std.ReflCmp.compare_self, (Factory.add_fst s fromId creator).mp hadd⟩]
    have hne : cmp toId fromId ≠ .eq := fun heq => (Factory.add_fst s fromId creator).mp hadd
      (Factory.mem_iff_exists.mpr ⟨creator, by rw [← Std.TreeMap.getElem?_congr heq, h]⟩)
    exact ⟨hne, creator, h,
      fun as has => Factory.resolves_of_some policy (getElem?_performAll_of_some hfrom has)⟩
  · by_contra hne
    rw [(add_fst_iff_changes s fromId creator).mpr ⟨id, hne⟩] at hadd
    cases hadd

lemma truthful_iff_registered (policy : Policy Id Creator Result) (s : Factory Id Creator cmp)
    (a : Action Id Creator) : Truthful policy s a (perform s a).2 ↔ Registered s a := by
  have hothers : ∀ id : Id, cmp a.id id ≠ .eq → (perform s a).2[id]? = s[id]? :=
    fun _ => getElem?_perform_of_ne
  rw [Truthful, and_iff_left hothers]
  cases a with
  | add id creator => exact iff_of_true (add_fst_iff_changes s id creator) trivial
  | remove id => exact iff_of_true (remove_fst_iff_changes s id) trivial
  | makeAlias fromId toId =>
    rw [Registered]
    constructor
    · rintro ⟨hresult, -, -⟩
      by_contra hto
      refine hto (hresult.mp ?_).1
      rw [perform, Factory.makeAlias_of_notMem hto]
    · intro hto
      obtain ⟨creator, h⟩ := Factory.mem_iff_exists.mp hto
      have hstep : (perform s (.makeAlias fromId toId)).2 = (s.add fromId creator).2 := by
        rw [perform, Factory.makeAlias_of_some h]
      rw [hstep]
      exact answers_makeAlias policy h fromId

/-- Every action of a run is truthful, if and only if every alias is made for an identifier which
is registered at that time. -/
theorem follows_truthful_iff (cmp : Id → Id → Ordering) [Std.TransCmp cmp]
    (policy : Policy Id Creator Result) (as : List (Action Id Creator)) :
    (machine cmp).Follows (Truthful policy) (∅ : Factory Id Creator cmp) as ↔
      (machine cmp).Meets Registered (∅ : Factory Id Creator cmp) as :=
  Machine.follows_iff_meets
    (fun s a _ => ⟨(perform s a).2, rfl, truthful_iff_registered policy s a⟩)
    (Machine.Legal.of_forall (fun _ _ => trivial) _ as)

theorem follows_truthful_iff_registered :
    (machine compare).Follows (Truthful ⟨fun _ : Nat => 0, fun _ => 0, fun n : Nat => n⟩) ∅
        [.add 1 7, .makeAlias 2 1, .remove 1] ↔
      (machine compare).Meets Registered (∅ : Factory Nat Nat compare)
        [.add 1 7, .makeAlias 2 1, .remove 1] :=
  follows_truthful_iff compare _ _

/-- An alias for an identifier that is not registered is announced and not made. -/
theorem not_follows_truthful_unknown :
    ¬ (machine compare).Follows (Truthful ⟨fun _ : Nat => 0, fun _ => 0, fun n : Nat => n⟩)
      (∅ : Factory Nat Nat compare) [.makeAlias 1 2] := by
  rintro ⟨s', hs', htruthful, -⟩
  obtain rfl := Except.ok.inj hs'
  have hregistered := (truthful_iff_registered _ _ _).mp htruthful
  exact Std.TreeMap.not_mem_emptyc hregistered

end Factories

end Utilmm
