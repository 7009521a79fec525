import Mathlib.Data.Multiset.Bind
import Mathlib.Tactic

/-!
# Forests on a heap

The objects of a heap own others. If nothing is owned twice and nothing owns itself, what some
roots own is a forest. The derivation which builds a forest is also how it is torn down: an object
goes after everything below it.
-/

/-- `Forest heap rs ids`: the objects `ids` are the roots `rs` and what they own, with an entry for
each way to get there. -/
inductive Forest {ρ : Type*} (heap : ρ → Option (List ρ)) : List ρ → Multiset ρ → Prop
  | nil : Forest heap [] 0
  | cons {r : ρ} {rs cs : List ρ} {below rest : Multiset ρ} (hr : heap r = some cs)
      (hbelow : Forest heap cs below) (hrest : Forest heap rs rest) :
      Forest heap (r :: rs) (r ::ₘ (below + rest))

namespace Forest

variable {ρ : Type*} {heap heap' : ρ → Option (List ρ)} {rs rs' : List ρ} {ids ids' : Multiset ρ}
  {r s : ρ}

/-! ### Roots -/

lemma roots_le (h : Forest heap rs ids) : (rs : Multiset ρ) ≤ ids := by
  induction h with
  | nil => exact le_refl 0
  | @cons r _ _ below rest _ _ _ _ ih =>
    rw [← Multiset.cons_coe]
    exact Multiset.cons_le_cons r (ih.trans (Multiset.le_add_left rest below))

lemma mem_of_mem_roots (h : Forest heap rs ids) (hr : r ∈ rs) : r ∈ ids :=
  Multiset.mem_of_le h.roots_le hr

lemma single {cs : List ρ} (hr : heap r = some cs) (h : Forest heap cs ids) :
    Forest heap [r] (r ::ₘ ids) := by
  simpa using Forest.cons hr h .nil

lemma append (h : Forest heap rs ids) (h' : Forest heap rs' ids') :
    Forest heap (rs ++ rs') (ids + ids') := by
  induction h with
  | nil => simpa using h'
  | cons hr hbelow _ _ ih =>
    rw [Multiset.cons_add, add_assoc]
    exact .cons hr hbelow ih

/-- The order of the roots does not matter. -/
lemma perm (hperm : rs.Perm rs') (h : Forest heap rs ids) : Forest heap rs' ids := by
  induction hperm generalizing ids with
  | nil => exact h
  | cons r _ ih =>
    cases h with
    | cons hr hbelow hrest => exact .cons hr hbelow (ih hrest)
  | swap r r' rs =>
    cases h with
    | @cons _ _ _ below' _ hr' hbelow' h =>
      cases h with
      | @cons _ _ _ below rest hr hbelow hrest =>
        have hsame : r' ::ₘ (below' + r ::ₘ (below + rest)) =
            r ::ₘ (below + r' ::ₘ (below' + rest)) := by
          rw [Multiset.add_cons, Multiset.add_cons, Multiset.cons_swap, add_left_comm]
        exact hsame ▸ .cons hr hbelow (.cons hr' hbelow' hrest)
  | trans _ _ ih ih' => exact ih' (ih h)

/-- The roots determine the forest. -/
lemma unique (h : Forest heap rs ids) (h' : Forest heap rs ids') : ids = ids' := by
  induction h generalizing ids' with
  | nil =>
    cases h'
    rfl
  | cons hr _ _ ihbelow ihrest =>
    cases h' with
    | cons hr' hbelow' hrest' =>
      obtain rfl := Option.some.inj (hr.symm.trans hr')
      rw [ihbelow hbelow', ihrest hrest']

/-! ### Objects -/

/-- Objects outside the forest do not matter. -/
lemma congr (h : Forest heap rs ids) (hsame : ∀ id ∈ ids, heap' id = heap id) :
    Forest heap' rs ids := by
  induction h with
  | nil => exact .nil
  | cons hr _ _ ihbelow ihrest =>
    refine .cons ((hsame _ (by simp)).trans hr) (ihbelow fun id hid => ?_) (ihrest fun id hid => ?_)
    · exact hsame id (by simp [hid])
    · exact hsame id (by simp [hid])

lemma isSome_of_mem (h : Forest heap rs ids) {id : ρ} (hid : id ∈ ids) : (heap id).isSome := by
  induction h with
  | nil => simp at hid
  | cons hr _ _ ihbelow ihrest =>
    simp only [Multiset.mem_cons, Multiset.mem_add] at hid
    rcases hid with rfl | hid | hid
    · simp [hr]
    · exact ihbelow hid
    · exact ihrest hid

/-- What an object owns. -/
def owned (heap : ρ → Option (List ρ)) (id : ρ) : Multiset ρ := ((heap id).getD [] : List ρ)

/-- Every object of a forest is a root or is owned by an object of the forest. -/
lemma eq_roots_add (h : Forest heap rs ids) : ids = rs + ids.bind (owned heap) := by
  induction h with
  | nil => simp
  | @cons r rs cs below rest hr _ _ ihbelow ihrest =>
    have hcs : owned heap r = cs := by rw [owned, hr, Option.getD_some]
    have hsplit : (r ::ₘ (below + rest)).bind (owned heap) =
        cs + (below.bind (owned heap) + rest.bind (owned heap)) := by
      rw [Multiset.cons_bind, Multiset.add_bind, hcs]
    have hall : (cs + below.bind (owned heap)) + (rs + rest.bind (owned heap)) = below + rest := by
      rw [← ihbelow, ← ihrest]
    rw [hsplit, ← Multiset.cons_coe, Multiset.cons_add, ← hall]
    congr 1
    abel

/-- One object can be reached from another through what they own. -/
inductive Reaches (heap : ρ → Option (List ρ)) : ρ → ρ → Prop
  | refl (r : ρ) : Reaches heap r r
  | step {r c id : ρ} {cs : List ρ} (hr : heap r = some cs) (hc : c ∈ cs) (h : Reaches heap c id) :
      Reaches heap r id

/-- What owns nothing reaches nothing. -/
lemma Reaches.eq_of_nil {id : ρ} (h : Reaches heap r id) (hr : heap r = some []) : id = r := by
  cases h with
  | refl => rfl
  | step hr' hc _ =>
    obtain rfl := Option.some.inj (hr.symm.trans hr')
    simp at hc

lemma exists_reaches (h : Forest heap rs ids) {id : ρ} (hid : id ∈ ids) :
    ∃ r ∈ rs, Reaches heap r id := by
  induction h with
  | nil => simp at hid
  | @cons r rs cs below rest hr _ _ ihbelow ihrest =>
    simp only [Multiset.mem_cons, Multiset.mem_add] at hid
    rcases hid with rfl | hid | hid
    · exact ⟨id, List.mem_cons_self, .refl id⟩
    · obtain ⟨c, hc, hreaches⟩ := ihbelow hid
      exact ⟨r, List.mem_cons_self, .step hr hc hreaches⟩
    · obtain ⟨r', hr', hreaches⟩ := ihrest hid
      exact ⟨r', List.mem_cons_of_mem r hr', hreaches⟩

lemma mem_of_reaches {id : ρ} (h : Forest heap rs ids) (hr : r ∈ rs) (hid : Reaches heap r id) :
    id ∈ ids := by
  induction hid generalizing rs ids with
  | refl r => exact h.mem_of_mem_roots hr
  | @step r c id cs hcs hc _ ih =>
    have hsub : ∃ below ≤ ids, Forest heap cs below := by
      clear ih
      induction h with
      | nil => simp at hr
      | @cons r' rs' cs' below rest hr' hbelow _ _ ihrest =>
        rcases List.mem_cons.mp hr with rfl | hr
        · obtain rfl := Option.some.inj (hcs.symm.trans hr')
          exact ⟨below, (Multiset.le_add_right below rest).trans (Multiset.le_cons_self _ _), hbelow⟩
        · obtain ⟨below', hle, hforest⟩ := ihrest hr
          exact ⟨below', hle.trans ((Multiset.le_add_left rest below).trans
            (Multiset.le_cons_self _ _)), hforest⟩
    obtain ⟨below, hle, hforest⟩ := hsub
    exact Multiset.mem_of_le hle (ih hforest hc)

/-! ### Changes -/

/-- The object `s` of a forest gets a tree from elsewhere. -/
lemma graft {c : ρ} {cs cs' : List ρ} {below : Multiset ρ} (h : Forest heap rs ids)
    (hnodup : ids.Nodup) (hs : s ∈ ids) (hcs : heap s = some cs) (hc : Forest heap [c] below)
    (hdisjoint : s ∉ below) (hcs' : heap' s = some cs') (hperm : (c :: cs).Perm cs')
    (hsame : ∀ id, id ≠ s → heap' id = heap id) : Forest heap' rs (ids + below) := by
  have hc' : Forest heap' [c] below :=
    hc.congr fun id hid => hsame id fun heq => hdisjoint (heq ▸ hid)
  induction h with
  | nil => simp at hs
  | @cons r rs cs₁ below₁ rest₁ hr hbelow hrest ihbelow ihrest =>
    rw [Multiset.nodup_cons, Multiset.nodup_add] at hnodup
    obtain ⟨hr₁, hnodup₁, hnodup₂, hapart⟩ := hnodup
    have hkeep : ∀ {rs₂ ids₂}, Forest heap rs₂ ids₂ → s ∉ ids₂ → Forest heap' rs₂ ids₂ :=
      fun h₂ hs₂ => h₂.congr fun id hid => hsame id fun heq => hs₂ (heq ▸ hid)
    rw [Multiset.mem_cons, Multiset.mem_add] at hs
    by_cases hsr : s = r
    · subst hsr
      rw [Multiset.mem_add, not_or] at hr₁
      obtain rfl := Option.some.inj (hr.symm.trans hcs)
      have hchildren : Forest heap' cs' (below + below₁) :=
        (hc'.append (hkeep hbelow hr₁.1)).perm hperm
      have hmoved : s ::ₘ (below₁ + rest₁) + below = s ::ₘ ((below + below₁) + rest₁) := by
        rw [Multiset.cons_add]
        congr 1
        abel
      exact hmoved ▸ .cons hcs' hchildren (hkeep hrest hr₁.2)
    · have hr' : heap' r = some cs₁ := (hsame r (Ne.symm hsr)).trans hr
      rcases hs.resolve_left hsr with hs | hs
      · have hsrest : s ∉ rest₁ := fun h => Multiset.disjoint_left.mp hapart hs h
        have hmoved : r ::ₘ (below₁ + rest₁) + below = r ::ₘ ((below₁ + below) + rest₁) := by
          rw [Multiset.cons_add]
          congr 1
          abel
        exact hmoved ▸ .cons hr' (ihbelow hnodup₁ hs) (hkeep hrest hsrest)
      · have hsbelow : s ∉ below₁ := fun h => Multiset.disjoint_left.mp hapart h hs
        have hmoved : r ::ₘ (below₁ + rest₁) + below = r ::ₘ (below₁ + (rest₁ + below)) := by
          rw [Multiset.cons_add]
          congr 1
          abel
        exact hmoved ▸ .cons hr' (hkeep hbelow hsbelow) (ihrest hnodup₂ hs)

/-! ### Heaps which are forests -/

/-- The objects of a heap are the forest of some roots, each once. -/
def Covers (heap : ρ → Option (List ρ)) (rs : List ρ) : Prop :=
  ∃ ids : Multiset ρ, Forest heap rs ids ∧ ids.Nodup ∧ ∀ id, id ∈ ids ↔ (heap id).isSome

namespace Covers

lemma empty : Covers (fun _ : ρ => none) [] := ⟨0, .nil, Multiset.nodup_zero, by simp⟩

lemma perm (hperm : rs.Perm rs') (h : Covers heap rs) : Covers heap rs' := by
  obtain ⟨ids, hforest, hnodup, hall⟩ := h
  exact ⟨ids, hforest.perm hperm, hnodup, hall⟩

lemma isSome_of_mem (h : Covers heap rs) (hr : r ∈ rs) : (heap r).isSome := by
  obtain ⟨ids, hforest, -, -⟩ := h
  exact hforest.isSome_of_mem (hforest.mem_of_mem_roots hr)

/-- Without roots there is nothing. -/
lemma eq_none (h : Covers heap []) (id : ρ) : heap id = none := by
  obtain ⟨ids, hforest, -, hall⟩ := h
  cases hforest
  simpa using hall id

lemma exists_reaches (h : Covers heap rs) {id : ρ} (hid : (heap id).isSome) :
    ∃ r ∈ rs, Reaches heap r id := by
  obtain ⟨ids, hforest, -, hall⟩ := h
  exact hforest.exists_reaches ((hall id).mpr hid)

/-- A new object, which owns nothing. -/
lemma create (h : Covers heap rs) (hr : heap r = none) (hr' : heap' r = some [])
    (hsame : ∀ id, id ≠ r → heap' id = heap id) : Covers heap' (r :: rs) := by
  obtain ⟨ids, hforest, hnodup, hall⟩ := h
  have hnot : r ∉ ids := fun hmem => by simpa [hr] using (hall r).mp hmem
  have hne : ∀ id ∈ ids, id ≠ r := fun id hid heq => hnot (heq ▸ hid)
  refine ⟨r ::ₘ (0 + ids), .cons hr' .nil (hforest.congr fun id hid => hsame id (hne id hid)), ?_,
    fun id => ?_⟩
  · rw [zero_add]
    exact Multiset.nodup_cons.mpr ⟨hnot, hnodup⟩
  · rw [zero_add, Multiset.mem_cons]
    by_cases heq : id = r
    · subst heq
      simp [hr']
    · rw [hsame id heq, ← hall id]
      simp [heq]

/-- An object takes over a tree, whose root does not lead to the object. -/
lemma adopt {c : ρ} {cs cs' : List ρ} (h : Covers heap (c :: rs)) (hcs : heap s = some cs)
    (hs : ¬ Reaches heap c s) (hcs' : heap' s = some cs') (hperm : (c :: cs).Perm cs')
    (hsame : ∀ id, id ≠ s → heap' id = heap id) : Covers heap' rs := by
  obtain ⟨ids, hforest, hnodup, hall⟩ := h
  cases hforest with
  | @cons _ _ csc below rest hc hbelow hrest =>
    have htree : Forest heap [c] (c ::ₘ below) := .single hc hbelow
    have hnot : s ∉ c ::ₘ below := by
      intro hmem
      obtain ⟨r, hr, hreaches⟩ := htree.exists_reaches hmem
      exact hs (List.mem_singleton.mp hr ▸ hreaches)
    have hsplit : c ::ₘ (below + rest) = rest + c ::ₘ below := by
      rw [Multiset.add_cons, add_comm]
    rw [hsplit] at hnodup hall
    have hmem : s ∈ rest := by
      have hmem := (hall s).mpr (by simp [hcs])
      exact (Multiset.mem_add.mp hmem).resolve_right hnot
    have hnodup' := (Multiset.nodup_add.mp hnodup).1
    refine ⟨rest + c ::ₘ below,
      hrest.graft hnodup' hmem hcs htree hnot hcs' hperm hsame, hnodup, fun id => ?_⟩
    rw [hall id]
    by_cases heq : id = s
    · subst heq
      simp [hcs, hcs']
    · rw [hsame id heq]

/-- What a root reaches. -/
lemma exists_tree (h : Covers heap (r :: rs)) : ∃ below, Forest heap [r] below ∧ below.Nodup ∧
    ∀ id, id ∈ below ↔ Reaches heap r id := by
  obtain ⟨ids, hforest, hnodup, -⟩ := h
  cases hforest with
  | @cons _ _ cs below rest hr hbelow _ =>
    have htree : Forest heap [r] (r ::ₘ below) := .single hr hbelow
    rw [← Multiset.cons_add] at hnodup
    refine ⟨r ::ₘ below, htree, (Multiset.nodup_add.mp hnodup).1, fun id => ⟨fun hid => ?_, ?_⟩⟩
    · obtain ⟨r', hr', hreaches⟩ := htree.exists_reaches hid
      exact List.mem_singleton.mp hr' ▸ hreaches
    · exact htree.mem_of_reaches (List.mem_singleton_self r)

/-- The tree of a new root is what is new. -/
lemma mem_iff_of_subheap {heap₀ : ρ → Option (List ρ)} {below : Multiset ρ}
    (h : Covers heap (r :: rs)) (h₀ : Covers heap₀ rs) (htree : Forest heap [r] below)
    (hsame : ∀ id, (heap₀ id).isSome → heap id = heap₀ id) (id : ρ) :
    id ∈ below ↔ (heap id).isSome ∧ heap₀ id = none := by
  obtain ⟨ids, hforest, hnodup, hall⟩ := h
  obtain ⟨ids₀, hforest₀, -, hall₀⟩ := h₀
  cases hforest with
  | @cons _ _ cs below' rest hr hbelow hrest =>
    obtain rfl := htree.unique (.single hr hbelow)
    obtain rfl : ids₀ = rest :=
      (hforest₀.congr fun id hid => hsame id ((hall₀ id).mp hid)).unique hrest
    rw [← Multiset.cons_add] at hnodup hall
    have hapart := (Multiset.nodup_add.mp hnodup).2.2
    rw [← hall id, Multiset.mem_add, ← Option.not_isSome_iff_eq_none, ← hall₀ id]
    have hnot : id ∈ r ::ₘ below' → id ∉ ids₀ := fun hid => Multiset.disjoint_left.mp hapart hid
    tauto

/-- A tree goes. -/
lemma discard {below : Multiset ρ} (h : Covers heap (r :: rs)) (htree : Forest heap [r] below)
    (hgone : ∀ id ∈ below, heap' id = none) (hsame : ∀ id ∉ below, heap' id = heap id) :
    Covers heap' rs := by
  obtain ⟨ids, hforest, hnodup, hall⟩ := h
  cases hforest with
  | @cons _ _ cs below' rest hr hbelow hrest =>
    obtain rfl := htree.unique (.single hr hbelow)
    rw [← Multiset.cons_add] at hnodup hall
    obtain ⟨-, hnodup', hapart⟩ := Multiset.nodup_add.mp hnodup
    refine ⟨rest, hrest.congr fun id hid => hsame id fun hmem => ?_, hnodup', fun id => ?_⟩
    · exact Multiset.disjoint_left.mp hapart hmem hid
    · by_cases hid : id ∈ r ::ₘ below'
      · rw [hgone id hid]
        simpa using fun hrest => Multiset.disjoint_left.mp hapart hid hrest
      · rw [hsame id hid, ← hall id, Multiset.mem_add, or_iff_right hid]

/-- Everything there is has one owner, which is a root's or an object's pointer. -/
lemma count_eq [DecidableEq ρ] (h : Covers heap rs) {alive : Multiset ρ} (halive : alive.Nodup)
    (hall : ∀ id, id ∈ alive ↔ (heap id).isSome) (id : ρ) :
    rs.count id + (alive.bind (owned heap)).count id = if (heap id).isSome then 1 else 0 := by
  obtain ⟨ids, hforest, hnodup, hall'⟩ := h
  obtain rfl : ids = alive :=
    (Multiset.Nodup.ext hnodup halive).mpr fun id => (hall' id).trans (hall id).symm
  have hcount := congrArg (Multiset.count id) hforest.eq_roots_add
  rw [Multiset.count_add, Multiset.coe_count] at hcount
  rw [← hcount, Multiset.count_eq_of_nodup hnodup]
  simp only [hall]

end Covers

end Forest
