import Utilmm.Functional.CachedFn

/-!
# Identifiers from a cache

The class `id_gen` in the documentation of `cached_fn` derives from it: its `call` returns one more
than the size of the cache, so that each object gets an identifier which it keeps until the cache is
emptied.
-/

namespace Utilmm

namespace IdGen

open HashToolbox CachedFn

variable {Obj : Type}

/-- `cached_fn::cache_size`. -/
def cacheSize (s : State (Obj × Nat)) : Nat := s.table.nodeCount

/-- `id_gen::call`. The operator `()` evaluates it before it changes the cache. -/
def call (s : State (Obj × Nat)) (_ : Obj) : Nat := cacheSize s + 1

section

variable (hash : Obj → Nat) (eq : Obj → Obj → Bool)

/-- Serve some requests one after the other. -/
def serveAll (s : State (Obj × Nat)) :
    List (Request Obj) → Except Fault (State (Obj × Nat) × List (Event Obj Nat))
  | [] => .ok (s, [])
  | r :: rs => do
    let (s, e) ← serve hash eq (call s) s r
    let (s, es) ← serveAll s rs
    return (s, e :: es)

end

/-! ### Numbers for classes -/

/-- The number of the class of an object. The list `reps` has one object from each class; the number
of a new class comes next. -/
def number (eq : Obj → Obj → Bool) (reps : List Obj) (obj : Obj) : Nat := reps.findIdx (eq obj) + 1

/-- Each object gets the number of its class, where the classes are counted from 1 on in the order
in which they come since the cache was emptied, and `call` is evaluated for the new ones. -/
def Numbered (eq : Obj → Obj → Bool) : List Obj → List (Event Obj Nat) → Prop
  | _, [] => True
  | _, .emptied :: es => Numbered eq [] es
  | reps, .served obj id called :: es =>
    id = number eq reps obj ∧ called = !reps.any (eq obj) ∧ Numbered eq (addClass eq reps obj) es

/-- Two objects get the same identifier exactly if they are equal. The objects which got one since
the cache was emptied are `seen`. -/
def Identifies (eq : Obj → Obj → Bool) : List (Obj × Nat) → List (Event Obj Nat) → Prop
  | _, [] => True
  | _, .emptied :: es => Identifies eq [] es
  | seen, .served obj id _ :: es =>
    (∀ x ∈ seen, x.2 = id ↔ eq x.1 obj = true) ∧ Identifies eq (seen ++ [(obj, id)]) es

section

variable {hash : Obj → Nat} {eq : Obj → Obj → Bool} {reps : List Obj} {obj obj' : Obj}

lemma any_addClass : (addClass eq reps obj').any (eq obj) =
    (reps.any (eq obj) || (!reps.any (eq obj') && eq obj obj')) := by
  cases h : reps.any (eq obj') with
  | true => simp [addClass, h]
  | false => simp [addClass, h]

lemma mem_addClass (h : obj ∈ addClass eq reps obj') : obj ∈ reps ∨ obj = obj' := by
  rw [addClass] at h
  split at h
  · exact .inl h
  · simpa using h

/-- A new class gets the number which comes next. -/
lemma number_new (h : reps.any (eq obj) = false) : number eq reps obj = reps.length + 1 := by
  rw [number, List.findIdx_eq_length_of_false]
  exact fun x hx => Bool.eq_false_iff.mpr (List.any_eq_false.mp h x hx)

/-- A class keeps its number. -/
lemma number_addClass (h : reps.any (eq obj) = true) :
    number eq (addClass eq reps obj') obj = number eq reps obj := by
  obtain ⟨x, hx, heq⟩ := List.any_eq_true.mp h
  rw [addClass]
  split
  · rfl
  · rw [number, number, List.findIdx_append, if_pos (List.findIdx_lt_length_of_exists ⟨x, hx, heq⟩)]

lemma number_addClass_self (hrefl : eq obj obj = true) :
    number eq (addClass eq reps obj) obj = number eq reps obj := by
  cases h : reps.any (eq obj) with
  | true => exact number_addClass h
  | false =>
    have hidx : reps.findIdx (eq obj) = reps.length := Nat.succ.inj (number_new h)
    rw [addClass, if_neg (by simp [h]), number, number, List.findIdx_append, hidx,
      if_neg (lt_irrefl _), List.findIdx_singleton, if_pos hrefl, Nat.zero_add]

lemma number_congr (hlawful : (cacheTraits Nat hash eq).Lawful) (h : eq obj obj' = true) :
    number eq reps obj = number eq reps obj' := by
  have heq : eq obj = eq obj' := by
    funext x
    rw [Bool.eq_iff_iff]
    exact ⟨hlawful.trans (hlawful.symm h), hlawful.trans h⟩
  rw [number, number, heq]

/-- The number tells the classes apart. -/
lemma number_eq_iff (hlawful : (cacheTraits Nat hash eq).Lawful) (h : reps.any (eq obj) = true) :
    number eq reps obj = number eq reps obj' ↔ eq obj obj' = true := by
  refine ⟨fun heq => ?_, number_congr hlawful⟩
  obtain ⟨x, hx, hobj⟩ := List.any_eq_true.mp h
  have hlt := List.findIdx_lt_length_of_exists ⟨x, hx, hobj⟩
  have hidx : reps.findIdx (eq obj') = reps.findIdx (eq obj) := (Nat.succ.inj heq).symm
  have hlt' : reps.findIdx (eq obj') < reps.length := hidx ▸ hlt
  have hleft : eq obj reps[reps.findIdx (eq obj)] = true := List.findIdx_getElem
  have hright : eq obj' reps[reps.findIdx (eq obj')] = true := List.findIdx_getElem
  simp only [hidx] at hright
  exact hlawful.trans hleft (hlawful.symm hright)

/-- Numbers are identifiers. -/
lemma Numbered.identifies (hlawful : (cacheTraits Nat hash eq).Lawful)
    {seen : List (Obj × Nat)} {es : List (Event Obj Nat)} (h : Numbered eq reps es)
    (hseen : ∀ x ∈ seen, reps.any (eq x.1) = true ∧ x.2 = number eq reps x.1) :
    Identifies eq seen es := by
  induction es generalizing reps seen with
  | nil => trivial
  | cons e es ih =>
    cases e with
    | emptied => exact ih h (by simp)
    | served obj id called =>
      obtain ⟨rfl, -, h⟩ := h
      refine ⟨fun x hx => ?_, ih h fun x hx => ?_⟩
      · rw [(hseen x hx).2]
        exact number_eq_iff hlawful (hseen x hx).1
      · rcases List.mem_append.mp hx with hx | hx
        · rw [any_addClass, (hseen x hx).1, number_addClass (hseen x hx).1]
          exact ⟨rfl, (hseen x hx).2⟩
        · rw [List.mem_singleton.mp hx]
          have hrefl : eq obj obj = true := hlawful.refl obj
          refine ⟨?_, (number_addClass_self hrefl).symm⟩
          cases hobj : reps.any (eq obj) <;> simp [any_addClass, hobj, hrefl]

/-! ### The cache of identifiers -/

variable {s s' : State (Obj × Nat)} {c : List (Addr × (Obj × Nat))}

lemma serveAll_cons {r : Request Obj} {rs : List (Request Obj)} {es : List (Event Obj Nat)} :
    serveAll hash eq s (r :: rs) = .ok (s', es) ↔
      ∃ s₁ e es', serve hash eq (call s) s r = .ok (s₁, e) ∧
        serveAll hash eq s₁ rs = .ok (s', es') ∧ e :: es' = es := by
  simp only [serveAll, Except.bind_eq_ok, Except.pure_eq_ok, Prod.exists, Prod.mk.injEq]
  constructor
  · rintro ⟨s₁, e, hserve, s₂, es', hrest, rfl, rfl⟩
    exact ⟨s₁, e, es', hserve, hrest, rfl⟩
  · rintro ⟨s₁, e, es', hserve, hrest, rfl⟩
    exact ⟨s₁, e, hserve, s', es', hrest, rfl, rfl⟩

/-- The cache has the numbers of the classes. -/
def Holds (hash : Obj → Nat) (eq : Obj → Obj → Bool) (s : State (Obj × Nat))
    (c : List (Addr × (Obj × Nat))) (reps : List Obj) : Prop :=
  Caches hash eq (number eq reps) s c reps

namespace Holds

lemma call_eq (h : Holds hash eq s c reps) (hobj : reps.any (eq obj) = false) :
    call s obj = number eq reps obj := by
  rw [call, cacheSize, Caches.count h, number_new hobj]

/-- The operator `()` evaluates `call` for its argument only. -/
lemma invoke_call (h : Holds hash eq s c reps) (hobj : reps.any (eq obj) = false) :
    invoke hash eq (call s) s obj = invoke hash eq (number eq reps) s obj := by
  simp only [invoke, h.call_eq hobj]

/-- An object of a class which has a number gets it. -/
lemma invoke_hit (hlawful : (cacheTraits Nat hash eq).Lawful) (h : Holds hash eq s c reps)
    (hobj : reps.any (eq obj) = true) :
    invoke hash eq (call s) s obj = .ok (s, number eq reps obj, false) := by
  obtain ⟨x, hx, r, hfind, hderef, heq⟩ := Caches.find_hit h hobj
  simp only [invoke, hfind, hderef, bind, Except.bind]
  rw [if_neg (by simp [endIter]), h.answers x hx, ← number_congr hlawful heq]
  rfl

/-- An object of a new class gets the number which comes next. -/
lemma invoke_new (hlawful : (cacheTraits Nat hash eq).Lawful) (h : Holds hash eq s c reps)
    (hobj : reps.any (eq obj) = false) (hlen : reps.length + 1 < 64) :
    ∃ s' c', invoke hash eq (call s) s obj = .ok (s', number eq reps obj, true) ∧
      Holds hash eq s' c' (addClass eq reps obj) := by
  obtain ⟨s', c', hinvoke, hcaches⟩ := Caches.invoke_miss hlawful h hobj hlen
  refine ⟨s', c', (h.invoke_call hobj).trans hinvoke, ?_⟩
  have hreps : addClass eq reps obj = reps ++ [obj] := if_neg (by simp [hobj])
  rw [← hreps] at hcaches
  refine ⟨hcaches.owns, hcaches.avg, hcaches.distinct, hcaches.keys, fun x hx => ?_⟩
  rw [hcaches.answers x hx]
  have hkey : x.2.1 ∈ reps ++ [obj] := by
    rw [← hreps, ← hcaches.keys]
    exact List.mem_map_of_mem hx
  have hrefl : eq x.2.1 x.2.1 = true := hlawful.refl x.2.1
  rcases List.mem_append.mp hkey with hkey | hkey
  · exact (number_addClass (List.any_eq_true.mpr ⟨_, hkey, hrefl⟩)).symm
  · rw [List.mem_singleton.mp hkey] at hrefl ⊢
    exact (number_addClass_self hrefl).symm

/-- A request for an identifier with less than 64 classes. -/
lemma serve_few (hlawful : (cacheTraits Nat hash eq).Lawful) (h : Holds hash eq s c reps)
    (hlen : (addClass eq reps obj).length < 64) :
    ∃ s' c', serve hash eq (call s) s (.invoke obj) =
        .ok (s', .served obj (number eq reps obj) !reps.any (eq obj)) ∧
      Holds hash eq s' c' (addClass eq reps obj) := by
  cases hobj : reps.any (eq obj) with
  | true =>
    refine ⟨s, c, serve_invoke.mpr ⟨_, _, h.invoke_hit hlawful hobj, rfl⟩, ?_⟩
    rwa [addClass, if_pos hobj]
  | false =>
    rw [addClass, if_neg (by simp [hobj]), List.length_append, List.length_singleton] at hlen
    obtain ⟨s', c', hinvoke, hholds⟩ := h.invoke_new hlawful hobj hlen
    exact ⟨s', c', serve_invoke.mpr ⟨_, _, hinvoke, rfl⟩, hholds⟩

/-- The 64th class gets the number of another one, if it gets any. -/
lemma serve_full (hlawful : (cacheTraits Nat hash eq).Lawful) (h : Holds hash eq s c reps)
    (hobj : reps.any (eq obj) = false) (hlen : reps.length = 63) {e : Event Obj Nat}
    (hok : serve hash eq (call s) s (.invoke obj) = .ok (s', e)) :
    ∃ x ∈ reps, ∃ called, eq x obj = false ∧ e = .served obj (number eq reps x) called := by
  obtain ⟨ret, called, hinvoke, rfl⟩ := serve_invoke.mp hok
  rw [h.invoke_call hobj] at hinvoke
  obtain ⟨s₁, it, hinsert, hit⟩ := Caches.insert_full hlawful h hobj hlen (number eq reps obj)
  have hmax : s.table.nodeCount ≠ maxSize := by
    rw [Caches.count h, hlen, maxSize]
    decide
  simp only [invoke, Caches.find_miss h hobj, bind, Except.bind, if_true, if_neg hmax,
    hinsert] at hinvoke
  rcases hit with rfl | ⟨y, hy, r, rfl, hn⟩
  · cases hinvoke
  · simp only [deref, hn] at hinvoke
    cases hinvoke
    refine ⟨y.2.1, ?_, true, Caches.eq_false hlawful h hobj hy, ?_⟩
    · rw [← h.keys]
      exact List.mem_map_of_mem hy
    · rw [h.answers y hy]

end Holds

/-- An emptied cache. -/
lemma serve_emptied {cs : List (List (Addr × (Obj × Nat)))} (h : Rep s.mem s.table.bucket cs)
    (havg : s.table.avgBucketCount = 64) :
    ∃ s', serve hash eq (call s) s .emptyCache = .ok (s', .emptied) ∧ Holds hash eq s' [] [] := by
  obtain ⟨s', hclear, hcaches⟩ := caches_clear hash eq (number eq []) h havg
  exact ⟨s', serve_emptyCache hclear, hcaches⟩

/-! ### Runs -/

/-- With few classes the numbers of the classes are served. -/
lemma Holds.serveAll_few {rs : List (Request Obj)} (hlawful : (cacheTraits Nat hash eq).Lawful)
    (h : Holds hash eq s c reps) (hfew : FewClasses eq reps rs) :
    ∃ s' es, serveAll hash eq s rs = .ok (s', es) ∧ Numbered eq reps es := by
  induction rs generalizing s c reps with
  | nil => exact ⟨s, [], rfl, trivial⟩
  | cons r rs ih =>
    cases r with
    | emptyCache =>
      obtain ⟨s₁, hserve, h₁⟩ := serve_emptied h.owns.rep h.avg
      obtain ⟨s', es, hrest, hnumbered⟩ := ih h₁ hfew
      exact ⟨s', .emptied :: es, serveAll_cons.mpr ⟨s₁, _, es, hserve, hrest, rfl⟩, hnumbered⟩
    | invoke obj =>
      obtain ⟨hlen, hfew⟩ := hfew
      obtain ⟨s₁, c₁, hserve, h₁⟩ := h.serve_few hlawful hlen
      obtain ⟨s', es, hrest, hnumbered⟩ := ih h₁ hfew
      exact ⟨s', _, serveAll_cons.mpr ⟨s₁, _, es, hserve, hrest, rfl⟩, rfl, rfl, hnumbered⟩

/-- Identifiers are served for few classes only. -/
lemma Holds.few_of_identifies {rs : List (Request Obj)}
    (hlawful : (cacheTraits Nat hash eq).Lawful) (h : Holds hash eq s c reps)
    {seen : List (Obj × Nat)} (hreps : reps.length < 64)
    (hseen : ∀ x ∈ reps, (x, number eq reps x) ∈ seen) {es : List (Event Obj Nat)}
    (hok : serveAll hash eq s rs = .ok (s', es)) (hids : Identifies eq seen es) :
    FewClasses eq reps rs := by
  induction rs generalizing s c reps seen es with
  | nil => trivial
  | cons r rs ih =>
    obtain ⟨s₁, e, es', hserve, hrest, rfl⟩ := serveAll_cons.mp hok
    cases r with
    | emptyCache =>
      obtain ⟨s₂, hserve₂, h₂⟩ : ∃ s₂, serve hash eq (call s) s .emptyCache = .ok (s₂, .emptied) ∧
          Holds hash eq s₂ [] [] := serve_emptied h.owns.rep h.avg
      rw [hserve₂] at hserve
      cases hserve
      exact ih h₂ (by simp) (by simp) hrest hids
    | invoke obj =>
      have hlen : (addClass eq reps obj).length < 64 := by
        by_contra hlen
        obtain ⟨hobj, hfull⟩ := addClass_full hreps hlen
        obtain ⟨x, hx, called, hne, rfl⟩ := h.serve_full hlawful hobj hfull hserve
        rw [(hids.1 _ (hseen x hx)).mp rfl] at hne
        cases hne
      refine ⟨hlen, ?_⟩
      obtain ⟨s₂, c₂, hserve₂, h₂⟩ := h.serve_few hlawful hlen
      rw [hserve₂] at hserve
      cases hserve
      refine ih h₂ hlen (fun x hx => ?_) hrest hids.2
      have hrefl : eq x x = true := hlawful.refl x
      rcases mem_addClass hx with hx | rfl
      · rw [number_addClass (List.any_eq_true.mpr ⟨x, hx, hrefl⟩)]
        exact List.mem_append_left _ (hseen x hx)
      · rw [number_addClass_self hrefl]
        simp

/-! ### Correctness -/

/-- From an emptied cache on, the objects get identifiers exactly as long as between two requests
which empty it they are from less than 64 classes; then the identifiers are the numbers of the
classes. -/
theorem identifies_tfae (hlawful : (cacheTraits Nat hash eq).Lawful) (rs : List (Request Obj)) :
    List.TFAE [FewClasses eq [] rs,
      ∃ s es, serveAll hash eq new (.emptyCache :: rs) = .ok (s, es) ∧ Numbered eq [] es,
      ∃ s es, serveAll hash eq new (.emptyCache :: rs) = .ok (s, es) ∧ Identifies eq [] es] := by
  obtain ⟨s₀, hserve, h₀⟩ : ∃ s, serve hash eq (call new) new .emptyCache = .ok (s, .emptied) ∧
      Holds hash eq s [] [] := serve_emptied (Rep.nil _) rfl
  tfae_have 1 → 2 := by
    intro hfew
    obtain ⟨s, es, hrest, hnumbered⟩ := h₀.serveAll_few hlawful hfew
    exact ⟨s, .emptied :: es, serveAll_cons.mpr ⟨s₀, _, es, hserve, hrest, rfl⟩, hnumbered⟩
  tfae_have 2 → 3 := by
    rintro ⟨s, es, hok, hnumbered⟩
    exact ⟨s, es, hok, hnumbered.identifies hlawful (by simp)⟩
  tfae_have 3 → 1 := by
    rintro ⟨s, es, hok, hids⟩
    obtain ⟨s₁, e, es', hserve₁, hrest, rfl⟩ := serveAll_cons.mp hok
    rw [hserve] at hserve₁
    cases hserve₁
    exact h₀.few_of_identifies hlawful (by simp) (by simp) hrest hids
  tfae_finish

theorem identifies_tfae_three : ∃ s es, serveAll id (fun a b : Nat => a == b) new
    [.emptyCache, .invoke 7, .invoke 5, .invoke 7] = .ok (s, es) ∧
      Identifies (fun a b : Nat => a == b) [] es :=
  ((@identifies_tfae Nat id _ (Traits.lawful_beq _ _) [.invoke 7, .invoke 5, .invoke 7]).out
    0 2).mp (by decide)

end

end IdGen

end Utilmm
