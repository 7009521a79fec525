import Utilmm.Core.Except
import Utilmm.Hash.Models

/-!
# Functions with a cache

The class `cached_fn` of `functional/cached_fn.hh` keeps the results of a function `call` in a
`hash_map`. A new result is read through the iterator which `insert` returns.
-/

namespace Utilmm

namespace CachedFn

open HashToolbox

variable {Arg Ret : Type}

/-- The cache is a `hash_map` from arguments to results. -/
def cacheTraits (Ret : Type) (hash : Arg → Nat) (eq : Arg → Arg → Bool) :
    Traits Arg (Arg × Ret) := ⟨Prod.fst, hash, eq⟩

/-- What `max_size` returns, the greatest value of its type `size_t`. -/
def maxSize : Nat := 2 ^ 64 - 1

/-- The constructor. -/
def new : State (Arg × Ret) := ⟨Memory.empty, Table.new⟩

/-- A use of the function object. -/
inductive Request (Arg : Type)
  | emptyCache
  | invoke (arg : Arg)

/-- What a request has led to: `called` says whether `call` was evaluated. -/
inductive Event (Arg Ret : Type)
  | emptied
  | served (arg : Arg) (ret : Ret) (called : Bool)
deriving DecidableEq

section

variable (hash : Arg → Nat) (eq : Arg → Arg → Bool) (call : Arg → Ret)

/-- The operator `()`. Returns the result and whether `call` was evaluated. -/
def invoke (s : State (Arg × Ret)) (arg : Arg) :
    Except Fault (State (Arg × Ret) × Ret × Bool) := do
  let tr := cacheTraits Ret hash eq
  let cachedRes ← find tr s arg
  if cachedRes = endIter then
    let cacheCell := (arg, call arg)
    let s ← if s.table.nodeCount = maxSize then clear tr s else .ok s
    let (s, it, _) ← insertUnique tr s cacheCell
    let cachedRes ← it
    let n ← deref s.mem cachedRes
    return (s, n.val.2, true)
  else
    let n ← deref s.mem cachedRes
    return (s, n.val.2, false)

/-- Serve a request. -/
def serve (s : State (Arg × Ret)) :
    Request Arg → Except Fault (State (Arg × Ret) × Event Arg Ret)
  | .emptyCache => do
    let s ← clear (cacheTraits Ret hash eq) s
    return (s, .emptied)
  | .invoke arg => do
    let (s, ret, called) ← invoke hash eq call s arg
    return (s, .served arg ret called)

/-- Serve some requests one after the other. -/
def serveAll (s : State (Arg × Ret)) :
    List (Request Arg) → Except Fault (State (Arg × Ret) × List (Event Arg Ret))
  | [] => .ok (s, [])
  | r :: rs => do
    let (s, e) ← serve hash eq call s r
    let (s, es) ← serveAll s rs
    return (s, e :: es)

end

section

variable {hash : Arg → Nat} {eq : Arg → Arg → Bool} {call : Arg → Ret} {s s' s₁ : State (Arg × Ret)}

lemma serveAll_cons {r : Request Arg} {rs : List (Request Arg)} {es : List (Event Arg Ret)} :
    serveAll hash eq call s (r :: rs) = .ok (s', es) ↔
      ∃ s₁ e es', serve hash eq call s r = .ok (s₁, e) ∧
        serveAll hash eq call s₁ rs = .ok (s', es') ∧ e :: es' = es := by
  simp only [serveAll, Except.bind_eq_ok, Except.pure_eq_ok, Prod.exists, Prod.mk.injEq]
  constructor
  · rintro ⟨s₁, e, hserve, s₂, es', hrest, rfl, rfl⟩
    exact ⟨s₁, e, es', hserve, hrest, rfl⟩
  · rintro ⟨s₁, e, es', hserve, hrest, rfl⟩
    exact ⟨s₁, e, hserve, s', es', hrest, rfl, rfl⟩

lemma serve_emptyCache (h : clear (cacheTraits Ret hash eq) s = .ok s₁) :
    serve hash eq call s .emptyCache = .ok (s₁, .emptied) := by
  rw [serve, h]
  rfl

lemma serve_invoke {arg : Arg} {e : Event Arg Ret} :
    serve hash eq call s (.invoke arg) = .ok (s₁, e) ↔
      ∃ ret called, invoke hash eq call s arg = .ok (s₁, ret, called) ∧
        .served arg ret called = e := by
  simp only [serve, Except.bind_eq_ok, Except.pure_eq_ok, Prod.exists, Prod.mk.injEq]
  constructor
  · rintro ⟨s₂, ret, called, hinvoke, rfl, rfl⟩
    exact ⟨ret, called, hinvoke, rfl⟩
  · rintro ⟨ret, called, hinvoke, rfl⟩
    exact ⟨s₁, ret, called, hinvoke, rfl, rfl⟩

end

/-! ### Transparency -/

/-- Every result is the result of `call`. -/
def Answers (call : Arg → Ret) (es : List (Event Arg Ret)) : Prop :=
  ∀ arg ret called, .served arg ret called ∈ es → ret = call arg

/-- `call` is evaluated for no argument which is equal to one it was evaluated for since the cache
was emptied. These are the arguments `called`. -/
def EvaluatesOnce (eq : Arg → Arg → Bool) : List Arg → List (Event Arg Ret) → Prop
  | _, [] => True
  | _, .emptied :: es => EvaluatesOnce eq [] es
  | called, .served _ _ false :: es => EvaluatesOnce eq called es
  | called, .served arg _ true :: es =>
    (∀ b ∈ called, eq b arg = false) ∧ EvaluatesOnce eq (called ++ [arg]) es

/-- The requests are served as if there were no cache. -/
def Transparent (hash : Arg → Nat) (eq : Arg → Arg → Bool) (call : Arg → Ret)
    (rs : List (Request Arg)) : Prop :=
  ∃ s es, serveAll hash eq call new rs = .ok (s, es) ∧ Answers call es ∧ EvaluatesOnce eq [] es

/-! ### Classes of arguments -/

/-- Add an argument to one argument from each class. -/
def addClass (eq : Arg → Arg → Bool) (reps : List Arg) (arg : Arg) : List Arg :=
  if reps.any (eq arg) then reps else reps ++ [arg]

/-- Between two requests which empty the cache, the arguments are from less than 64 classes of equal
ones. The list `reps` has one from each class since the cache was emptied. -/
def FewClasses (eq : Arg → Arg → Bool) : List Arg → List (Request Arg) → Prop
  | _, [] => True
  | _, .emptyCache :: rs => FewClasses eq [] rs
  | reps, .invoke arg :: rs =>
    (addClass eq reps arg).length < 64 ∧ FewClasses eq (addClass eq reps arg) rs

instance FewClasses.decidable (eq : Arg → Arg → Bool) :
    (reps : List Arg) → (rs : List (Request Arg)) → Decidable (FewClasses eq reps rs)
  | _, [] => .isTrue trivial
  | _, .emptyCache :: rs => FewClasses.decidable eq [] rs
  | reps, .invoke arg :: rs =>
    @instDecidableAnd _ _ _ (FewClasses.decidable eq (addClass eq reps arg) rs)

lemma addClass_full {eq : Arg → Arg → Bool} {reps : List Arg} {arg : Arg} (hlen : reps.length < 64)
    (h : ¬ (addClass eq reps arg).length < 64) :
    reps.any (eq arg) = false ∧ reps.length = 63 := by
  rw [addClass] at h
  split_ifs at h with harg
  · exact absurd hlen h
  · rw [List.length_append, List.length_singleton] at h
    exact ⟨Bool.eq_false_iff.mpr harg, by omega⟩

/-! ### The cache below 64 elements -/

/-- The cache is one chain, with one cell for each of the arguments `reps` and its result. -/
structure Caches (hash : Arg → Nat) (eq : Arg → Arg → Bool) (call : Arg → Ret)
    (s : State (Arg × Ret)) (c : List (Addr × (Arg × Ret))) (reps : List Arg) : Prop where
  owns : Owns s [c]
  avg : s.table.avgBucketCount = 64
  distinct : Distinct (cacheTraits Ret hash eq) [c]
  keys : c.map (fun x => x.2.1) = reps
  answers : ∀ x ∈ c, x.2.2 = call x.2.1

/-- In a single chain each cell is in its place. -/
lemma placed_singleton {K V : Type} (tr : Traits K V) (c : List (Addr × V)) : Placed tr [c] := by
  intro i d hd x _
  have hi : i < 1 := (List.getElem?_eq_some_iff.mp hd).1
  rw [List.length_singleton, Nat.mod_one]
  exact (Nat.lt_one_iff.mp hi).symm

/-- A place in a single chain. -/
lemma place_singleton {V : Type} {pl : Place V} {c : List (Addr × V)} (h : pl.chains = [c]) :
    pl.pre = [] ∧ pl.post = [] ∧ pl.kept ++ pl.rest = c := by
  obtain ⟨pre, kept, rest, post⟩ := pl
  cases pre with
  | nil =>
    obtain ⟨hc, hpost⟩ := List.cons.inj h
    exact ⟨rfl, hpost, hc⟩
  | cons d pre =>
    have hlen := congrArg List.length h
    simp [Place.chains, Place.fill] at hlen

/-- An emptied cache. -/
lemma caches_clear (hash : Arg → Nat) (eq : Arg → Arg → Bool) (call : Arg → Ret)
    {s : State (Arg × Ret)} {cs : List (List (Addr × (Arg × Ret)))}
    (h : Rep s.mem s.table.bucket cs) (havg : s.table.avgBucketCount = 64) :
    ∃ s', clear (cacheTraits Ret hash eq) s = .ok s' ∧ Caches hash eq call s' [] [] := by
  obtain ⟨s', hclear, hup⟩ := @clear_eq _ _ (cacheTraits Ret hash eq) s cs h
  refine ⟨s', hclear, hup.owns, hup.avg.trans havg, List.Pairwise.nil, rfl, fun x hx => ?_⟩
  cases hx

namespace Caches

variable {hash : Arg → Nat} {eq : Arg → Arg → Bool} {call : Arg → Ret} {s : State (Arg × Ret)}
  {c : List (Addr × (Arg × Ret))} {reps : List Arg} {arg : Arg}

/-- The number of elements in the cache. -/
lemma count (h : Caches hash eq call s c reps) : s.table.nodeCount = reps.length := by
  have hcount := h.owns.count
  rw [hcount, ← h.keys, List.length_map, List.flatten_singleton]

/-- An argument with a class finds the cell of the class. -/
lemma find_hit (h : Caches hash eq call s c reps) (harg : reps.any (eq arg) = true) :
    ∃ x ∈ c, ∃ r, find (cacheTraits Ret hash eq) s arg = .ok (some x.1) ∧
      deref s.mem (some x.1) = .ok ⟨x.2, r⟩ ∧ eq arg x.2.1 = true := by
  obtain ⟨pl, hpl, hfind⟩ := @find_eq _ _ (cacheTraits Ret hash eq) s [c] h.owns.rep
    (placed_singleton _ c) Nat.one_pos arg
  obtain ⟨-, -, hc⟩ := place_singleton hpl.chains_eq
  cases hrest : pl.rest with
  | nil =>
    rw [hrest, List.append_nil] at hc
    rw [← h.keys, List.any_map, List.any_eq_true] at harg
    obtain ⟨x, hx, heq⟩ := harg
    have hfalse : eq arg x.2.1 = false := hpl.kept x (hc ▸ hx)
    exact absurd heq (by simp [hfalse])
  | cons x rest =>
    have hx : x ∈ c := by
      rw [← hc, hrest]
      simp
    obtain ⟨r, hn⟩ := h.owns.rep.node_of_mem (by simpa using hx)
    refine ⟨x, hx, r, ?_, ?_, hpl.rest x (by rw [hrest]; rfl)⟩
    · rw [hfind, hrest]
      rfl
    · rw [deref, hn]

/-- An argument of a new class is found at the end of the chain. -/
lemma finds_miss (h : Caches hash eq call s c reps) (harg : reps.any (eq arg) = false)
    {pl : Place (Arg × Ret)} (hpl : pl.Finds (cacheTraits Ret hash eq) arg [c]) :
    pl.rest = [] := by
  obtain ⟨-, -, hc⟩ := place_singleton hpl.chains_eq
  cases hrest : pl.rest with
  | nil => rfl
  | cons x rest =>
    have hx : x ∈ c := by
      rw [← hc, hrest]
      simp
    have heq : eq arg x.2.1 = true := hpl.rest x (by rw [hrest]; rfl)
    rw [← h.keys, List.any_map, List.any_eq_false] at harg
    exact absurd heq (harg x hx)

lemma find_miss (h : Caches hash eq call s c reps) (harg : reps.any (eq arg) = false) :
    find (cacheTraits Ret hash eq) s arg = .ok endIter := by
  obtain ⟨pl, hpl, hfind⟩ := @find_eq _ _ (cacheTraits Ret hash eq) s [c] h.owns.rep
    (placed_singleton _ c) Nat.one_pos arg
  rw [hfind, h.finds_miss harg hpl]
  rfl

/-- A hit reads the result of an equal argument. -/
lemma invoke_hit (h : Caches hash eq call s c reps)
    (hcall : ∀ a b, eq a b = true → call a = call b) (harg : reps.any (eq arg) = true) :
    invoke hash eq call s arg = .ok (s, call arg, false) := by
  obtain ⟨x, hx, r, hfind, hderef, heq⟩ := h.find_hit harg
  simp only [invoke, hfind, hderef, bind, Except.bind]
  rw [if_neg (by simp [endIter]), h.answers x hx, ← hcall _ _ heq]
  rfl

/-- The cell of a new argument is put at the end of the chain. -/
lemma insert_miss (h : Caches hash eq call s c reps) (harg : reps.any (eq arg) = false)
    (ret : Ret) :
    ∃ pl s' it, pl.chains = [c] ∧ pl.rest = [] ∧
      insertUnique (cacheTraits Ret hash eq) s (arg, ret) = .ok (s', it, true) ∧
      Inserted (cacheTraits Ret hash eq) s s' it pl (arg, ret) ∧
      pl.add (s.mem.size, (arg, ret)) = [c ++ [(s.mem.size, (arg, ret))]] := by
  obtain ⟨pl, hpl, ⟨x, rest, hrest, -⟩ | ⟨hrest, s', it, hok, hins⟩⟩ :=
    @insertUnique_eq _ _ (cacheTraits Ret hash eq) s [c] h.owns Nat.one_pos (arg, ret)
  · rw [h.finds_miss harg hpl] at hrest
    cases hrest
  · obtain ⟨hpre, hpost, hc⟩ := place_singleton hpl.chains_eq
    rw [hrest, List.append_nil] at hc
    refine ⟨pl, s', it, hpl.chains_eq, hrest, hok, hins, ?_⟩
    rw [Place.add, Place.fill, hpre, hpost, hrest, hc]
    rfl

/-- No element equals a new argument. -/
lemma eq_false (hlawful : (cacheTraits Ret hash eq).Lawful) (h : Caches hash eq call s c reps)
    (harg : reps.any (eq arg) = false) {x : Addr × (Arg × Ret)} (hx : x ∈ c) :
    eq x.2.1 arg = false := by
  apply hlawful.symm_false
  rw [← h.keys, List.any_map, List.any_eq_false] at harg
  exact Bool.eq_false_iff.mpr (harg x hx)

/-- A miss in a small cache evaluates `call` and reads the new cell. -/
lemma invoke_miss (hlawful : (cacheTraits Ret hash eq).Lawful) (h : Caches hash eq call s c reps)
    (harg : reps.any (eq arg) = false) (hlen : reps.length + 1 < 64) :
    ∃ s' c', invoke hash eq call s arg = .ok (s', call arg, true) ∧
      Caches hash eq call s' c' (reps ++ [arg]) := by
  obtain ⟨pl, s', it, hchains, -, hinsert, hins, hadd⟩ := h.insert_miss harg (call arg)
  have hup := hins.updates
  have hsized : sized (cacheTraits Ret hash eq) s.table.avgBucketCount
      (pl.add (s.mem.size, (arg, call arg))).flatten.length
        (pl.add (s.mem.size, (arg, call arg))) = [c ++ [(s.mem.size, (arg, call arg))]] := by
    have hc : c.length = reps.length := by rw [← h.keys, List.length_map]
    rw [hadd, sized, h.avg, List.flatten_singleton, List.length_append, List.length_singleton, hc,
      if_neg (Nat.succ_ne_zero _), if_neg]
    rw [List.length_singleton]
    omega
  rw [hsized] at hup
  have hit : it = .ok (some s.mem.size) := by
    apply hins.iter
    rw [h.avg, h.count, hchains, List.length_singleton]
    omega
  obtain ⟨r, hn⟩ := hup.owns.rep.node_of_mem (x := (s.mem.size, (arg, call arg))) (by simp)
  refine ⟨s', c ++ [(s.mem.size, (arg, call arg))], ?_, hup.owns, hup.avg.trans h.avg, ?_, ?_, ?_⟩
  · have hmax : s.table.nodeCount ≠ maxSize := by
      rw [h.count, maxSize]
      omega
    simp only [invoke, h.find_miss harg, bind, Except.bind, if_true, if_neg hmax, hinsert, hit,
      deref, hn]
    rfl
  · have hdistinct := h.distinct
    rw [Distinct, List.flatten_singleton] at hdistinct ⊢
    rw [List.pairwise_append]
    refine ⟨hdistinct, List.pairwise_singleton _ _, fun x hx y hy => ?_⟩
    rw [List.mem_singleton.mp hy]
    exact h.eq_false hlawful harg hx
  · rw [List.map_append, h.keys]
    rfl
  · intro x hx
    rcases List.mem_append.mp hx with hx | hx
    · exact h.answers x hx
    · rw [List.mem_singleton.mp hx]

/-- The 64th element makes the cache grow. Then `insert` returns no element or another one. -/
lemma insert_full (hlawful : (cacheTraits Ret hash eq).Lawful) (h : Caches hash eq call s c reps)
    (harg : reps.any (eq arg) = false) (hlen : reps.length = 63) (ret : Ret) :
    ∃ s' it, insertUnique (cacheTraits Ret hash eq) s (arg, ret) = .ok (s', .ok it, true) ∧
      (it = none ∨ ∃ y ∈ c, ∃ r, it = some y.1 ∧ s'.mem.node y.1 = some ⟨y.2, r⟩) := by
  have hclen : c.length = 63 := by rw [← hlen, ← h.keys, List.length_map]
  obtain ⟨pl, s', it, hchains, hrest, hinsert, hins, hadd⟩ := h.insert_miss harg ret
  obtain ⟨-, -, hc⟩ := place_singleton hchains
  rw [hrest, List.append_nil] at hc
  have hsame : ∀ x ∈ c, sameKey (cacheTraits Ret hash eq) x (s.mem.size, (arg, ret)) = false :=
    fun x hx => h.eq_false hlawful harg hx
  -- the new cell is the last one which is moved, so that it comes first in its new chain
  have hsized : sized (cacheTraits Ret hash eq) s.table.avgBucketCount
      (pl.add (s.mem.size, (arg, ret))).flatten.length (pl.add (s.mem.size, (arg, ret))) =
      (regroup (cacheTraits Ret hash eq) 2 [c]).modify (hash arg % 2)
        ([(s.mem.size, (arg, ret))] ++ ·) := by
    rw [hadd, sized, h.avg, List.flatten_singleton, List.length_append, List.length_singleton,
      hclen, if_neg (Nat.succ_ne_zero _), if_pos (by simp)]
    exact regroupChain_concat hsame _
  have hrep := hins.updates.owns.rep
  rw [hsized] at hrep
  have hold : ∀ y, y ∈ (regroup (cacheTraits Ret hash eq) 2 [c]).flatten ↔ y ∈ c := by
    intro y
    rw [(perm_regroup Nat.two_pos _).mem_iff, List.flatten_singleton]
  have hnew : ∀ y ∈ c, y ∈ ((regroup (cacheTraits Ret hash eq) 2 [c]).modify (hash arg % 2)
      ([(s.mem.size, (arg, ret))] ++ ·)).flatten := by
    intro y hy
    rw [(perm_modify ?_ _).mem_iff]
    · exact List.mem_append_right _ ((hold y).mpr hy)
    · rw [length_regroup Nat.two_pos]
      exact Nat.mod_lt _ Nat.two_pos
  -- `insert` reads the link of the cell which was the last one before
  obtain ⟨c₀, x, rfl⟩ : ∃ c₀ x, c = c₀ ++ [x] := by
    refine ⟨c.dropLast, c.getLast (by rintro rfl; cases hclen), ?_⟩
    rw [List.dropLast_append_getLast]
  have hx := hnew x (by simp)
  obtain ⟨r, hn⟩ := hrep.node_of_mem hx
  have hit : it = .ok r := by
    rw [hins.reads, Place.link, hc, endLink_append]
    simp only [endLink, State.load, deref, hn]
    rfl
  refine ⟨s', r, hit ▸ hinsert, ?_⟩
  cases hrep.next_of_mem hx hn with
  | inl hnone => exact Or.inl hnone
  | inr hsome =>
    obtain ⟨d, hd, y, hy, hnext⟩ := hsome
    have hyc := (hold y).mp (mem_tail_modify hd hy)
    obtain ⟨r', hn'⟩ := hrep.node_of_mem (hnew y hyc)
    exact Or.inr ⟨y, hyc, r', hnext, hn'⟩

/-- A miss with 63 elements in the cache does not return the result for its argument. -/
lemma invoke_full (hlawful : (cacheTraits Ret hash eq).Lawful) (h : Caches hash eq call s c reps)
    (harg : reps.any (eq arg) = false) (hlen : reps.length = 63) {s' : State (Arg × Ret)}
    {ret : Ret} {called : Bool} (hok : invoke hash eq call s arg = .ok (s', ret, called)) :
    ∃ x, eq x arg = false ∧ ret = call x := by
  obtain ⟨s₁, it, hinsert, hit⟩ := h.insert_full hlawful harg hlen (call arg)
  have hmax : s.table.nodeCount ≠ maxSize := by
    rw [h.count, hlen, maxSize]
    decide
  simp only [invoke, h.find_miss harg, bind, Except.bind, if_true, if_neg hmax, hinsert] at hok
  cases hit with
  | inl hnone =>
    rw [hnone] at hok
    cases hok
  | inr hsome =>
    obtain ⟨y, hy, r, hsome, hn⟩ := hsome
    rw [hsome] at hok
    simp only [deref, hn] at hok
    cases hok
    exact ⟨y.2.1, h.eq_false hlawful harg hy, h.answers y hy⟩

/-- A use of the function below 64 elements. -/
lemma invoke_few (hlawful : (cacheTraits Ret hash eq).Lawful)
    (hcall : ∀ a b, eq a b = true → call a = call b) (h : Caches hash eq call s c reps)
    (hlen : (addClass eq reps arg).length < 64) :
    ∃ s' c', invoke hash eq call s arg = .ok (s', call arg, !reps.any (eq arg)) ∧
      Caches hash eq call s' c' (addClass eq reps arg) := by
  cases harg : reps.any (eq arg) with
  | true =>
    rw [addClass, if_pos harg]
    exact ⟨s, c, h.invoke_hit hcall harg, h⟩
  | false =>
    rw [addClass, if_neg (by simp [harg])] at hlen ⊢
    rw [List.length_append, List.length_singleton] at hlen
    exact h.invoke_miss hlawful harg hlen

/-- The function with few classes is served as if there were no cache. -/
lemma serveAll_few {rs : List (Request Arg)} (hlawful : (cacheTraits Ret hash eq).Lawful)
    (hcall : ∀ a b, eq a b = true → call a = call b) (h : Caches hash eq call s c reps)
    (hfew : FewClasses eq reps rs) :
    ∃ s' es, serveAll hash eq call s rs = .ok (s', es) ∧ Answers call es ∧
      EvaluatesOnce eq reps es := by
  induction rs generalizing s c reps with
  | nil =>
    refine ⟨s, [], rfl, fun _ _ _ he => ?_, trivial⟩
    cases he
  | cons r rs ih =>
    cases r with
    | emptyCache =>
      obtain ⟨s₁, hclear, h₁⟩ := caches_clear hash eq call h.owns.rep h.avg
      obtain ⟨s', es, hserve, hans, honce⟩ := ih h₁ hfew
      refine ⟨s', .emptied :: es, ?_, ?_, honce⟩
      · exact serveAll_cons.mpr ⟨s₁, _, es, serve_emptyCache hclear, hserve, rfl⟩
      · intro a ret called he
        cases he with
        | tail _ he => exact hans a ret called he
    | invoke arg =>
      obtain ⟨hlen, hfew⟩ := hfew
      obtain ⟨s₁, c₁, hinvoke, h₁⟩ := h.invoke_few hlawful hcall hlen
      obtain ⟨s', es, hserve, hans, honce⟩ := ih h₁ hfew
      refine ⟨s', .served arg (call arg) (!reps.any (eq arg)) :: es, ?_, ?_, ?_⟩
      · rw [serveAll_cons]
        exact ⟨s₁, _, es, serve_invoke.mpr ⟨_, _, hinvoke, rfl⟩, hserve, rfl⟩
      · intro a ret called he
        cases he with
        | head => rfl
        | tail _ he => exact hans a ret called he
      · cases harg : reps.any (eq arg) with
        | true =>
          rw [addClass, if_pos harg] at honce
          exact honce
        | false =>
          rw [addClass, if_neg (by simp [harg])] at honce
          refine ⟨fun b hb => ?_, honce⟩
          apply hlawful.symm_false
          exact Bool.eq_false_iff.mpr (List.any_eq_false.mp harg b hb)

/-- With 64 classes there is a new argument for which a result of another one is returned. -/
lemma serveAll_many {rs : List (Request Arg)} (hlen : reps.length < 64)
    (hmany : ¬ FewClasses eq reps rs) :
    ∃ arg, ∀ {Ret : Type} {call : Arg → Ret} {s s' : State (Arg × Ret)}
      {c : List (Addr × (Arg × Ret))} {es : List (Event Arg Ret)},
      (cacheTraits Ret hash eq).Lawful → (∀ a b, eq a b = true → call a = call b) →
      Caches hash eq call s c reps → serveAll hash eq call s rs = .ok (s', es) →
      ∃ x called, eq x arg = false ∧ .served arg (call x) called ∈ es := by
  induction rs generalizing reps with
  | nil => exact absurd trivial hmany
  | cons r rs ih =>
    cases r with
    | emptyCache =>
      obtain ⟨arg, hbad⟩ := @ih [] (by simp) hmany
      refine ⟨arg, fun {Ret call s s' c es} hlawful hcall h hok => ?_⟩
      obtain ⟨s₁, e, es', hserve, hrest, rfl⟩ := serveAll_cons.mp hok
      obtain ⟨s₂, hclear, h₂⟩ := caches_clear hash eq call h.owns.rep h.avg
      rw [serve_emptyCache hclear] at hserve
      cases hserve
      obtain ⟨x, called, heq, hmem⟩ := hbad hlawful hcall h₂ hrest
      exact ⟨x, called, heq, List.mem_cons_of_mem _ hmem⟩
    | invoke b =>
      by_cases hsmall : (addClass eq reps b).length < 64
      · obtain ⟨arg, hbad⟩ := ih hsmall fun hfew => hmany ⟨hsmall, hfew⟩
        refine ⟨arg, fun {Ret call s s' c es} hlawful hcall h hok => ?_⟩
        obtain ⟨s₁, e, es', hserve, hrest, rfl⟩ := serveAll_cons.mp hok
        obtain ⟨s₂, c₂, hinvoke, h₂⟩ := h.invoke_few hlawful hcall hsmall
        rw [serve_invoke.mpr ⟨_, _, hinvoke, rfl⟩] at hserve
        cases hserve
        obtain ⟨x, called, heq, hmem⟩ := hbad hlawful hcall h₂ hrest
        exact ⟨x, called, heq, List.mem_cons_of_mem _ hmem⟩
      · refine ⟨b, fun {Ret call s s' c es} hlawful hcall h hok => ?_⟩
        obtain ⟨s₁, e, es', hserve, hrest, rfl⟩ := serveAll_cons.mp hok
        obtain ⟨ret, called, hinvoke, rfl⟩ := serve_invoke.mp hserve
        obtain ⟨hnew, hfull⟩ := addClass_full hlen hsmall
        obtain ⟨x, heq, rfl⟩ := h.invoke_full hlawful hnew hfull hinvoke
        exact ⟨x, called, heq, List.mem_cons_self⟩

end Caches

/-! ### Correctness -/

/-- What is asked of `Hash` and `Equal` does not depend on the results. -/
lemma lawful_cacheTraits {hash : Arg → Nat} {eq : Arg → Arg → Bool}
    (hequiv : Equivalence fun a b => eq a b = true)
    (hhash : ∀ a b, eq a b = true → hash a = hash b) (Ret : Type) :
    (cacheTraits Ret hash eq).Lawful :=
  ⟨hequiv.refl, hequiv.symm, hequiv.trans, fun h => hhash _ _ h⟩

/-- The cache is transparent for every function exactly as long as the arguments between two
requests which empty it are from less than 64 classes. -/
theorem transparent_iff {hash : Arg → Nat} {eq : Arg → Arg → Bool}
    (hequiv : Equivalence fun a b => eq a b = true)
    (hhash : ∀ a b, eq a b = true → hash a = hash b) (rs : List (Request Arg)) :
    (∀ (Ret : Type) (call : Arg → Ret), (∀ a b, eq a b = true → call a = call b) →
      Transparent hash eq call (.emptyCache :: rs)) ↔ FewClasses eq [] rs := by
  constructor
  · intro htrans
    by_contra hmany
    obtain ⟨arg, hbad⟩ := @Caches.serveAll_many _ hash eq [] rs (by simp) hmany
    -- a function which tells the class of `arg` from the others
    have hcall : ∀ a b, eq a b = true → eq a arg = eq b arg := by
      intro a b hab
      rw [Bool.eq_iff_iff]
      exact ⟨hequiv.trans (hequiv.symm hab), hequiv.trans hab⟩
    obtain ⟨s, es, hok, hans, -⟩ := htrans Bool (fun b => eq b arg) hcall
    obtain ⟨s₁, e, es', hserve, hrest, rfl⟩ := serveAll_cons.mp hok
    obtain ⟨s₂, hclear, h₂⟩ :=
      @caches_clear _ _ hash eq (fun b => eq b arg) new [] (Rep.nil _) rfl
    rw [serve_emptyCache hclear] at hserve
    cases hserve
    obtain ⟨x, called, heq, hmem⟩ :=
      hbad (lawful_cacheTraits hequiv hhash Bool) hcall h₂ hrest
    have hret : eq x arg = eq arg arg := hans _ _ _ (List.mem_cons_of_mem _ hmem)
    have hrefl : eq arg arg = true := hequiv.refl arg
    rw [heq, hrefl] at hret
    cases hret
  · intro hfew Ret call hcall
    obtain ⟨s₁, hclear, h₁⟩ := @caches_clear _ _ hash eq call new [] (Rep.nil _) rfl
    obtain ⟨s, es, hserve, hans, honce⟩ :=
      h₁.serveAll_few (lawful_cacheTraits hequiv hhash Ret) hcall hfew
    refine ⟨s, .emptied :: es, ?_, ?_, honce⟩
    · rw [serveAll_cons]
      exact ⟨s₁, _, es, serve_emptyCache hclear, hserve, rfl⟩
    · intro a ret called he
      cases he with
      | tail _ he => exact hans a ret called he

theorem transparent_two_arguments : Transparent id (fun a b => a == b) Nat.succ
    [.emptyCache, .invoke 1, .invoke 2, .invoke 1] := by
  have hequiv : Equivalence fun a b : Nat => (a == b) = true := by
    simpa only [beq_iff_eq] using eq_equivalence
  exact (transparent_iff hequiv (fun _ _ h => beq_iff_eq.mp h)
    [.invoke 1, .invoke 2, .invoke 1]).mpr (by decide) Nat Nat.succ
      fun _ _ h => congrArg Nat.succ (beq_iff_eq.mp h)

/-- The identity with a cache, called with 0, 1, ..., 63, returns 60 for 63. -/
theorem transparent_64_arguments :
    (cacheTraits Nat id fun a b : Nat => a == b).Lawful ∧
      (∀ a b : Nat, (a == b) = true → id a = id b) ∧
      ¬ Transparent id (fun a b : Nat => a == b) id
        (.emptyCache :: (List.range 64).map .invoke) := by
  refine ⟨Traits.lawful_beq _ _, fun a b h => beq_iff_eq.mp h, ?_⟩
  rintro ⟨s, es, hok, hans, -⟩
  have hlast : ((serveAll id (fun a b : Nat => a == b) id new
      (.emptyCache :: (List.range 64).map .invoke)).toOption.bind fun r => r.2.getLast?) =
        some (.served 63 60 true) := by decide +kernel
  rw [hok] at hlast
  have hret : 60 = id 63 := hans 63 60 true (List.mem_of_getLast? hlast)
  cases hret

end CachedFn

end Utilmm
