import Utilmm.Hash.Rehash

/-!
# Insertion

A new cell is put at the place where `find_node` has ended: in front of the cells with its key, or
at the end of its chain. Then the table may grow.
-/

namespace Utilmm

namespace HashToolbox

variable {K V : Type} {tr : Traits K V}

/-- What `insert` does to a table at the place `pl`. -/
structure Inserted (tr : Traits K V) (s s' : State V) (it : Except Fault (Option Addr))
    (pl : Place V) (v : V) : Prop where
  updates : Updates s s' pl.chains (sized tr s.table.avgBucketCount
    (pl.add (s.mem.size, v)).flatten.length (pl.add (s.mem.size, v)))
  reads : it = s'.load (pl.link s.table.version)
  iter : 1 + (s.table.nodeCount + 1) / s.table.avgBucketCount ≤ pl.chains.length →
    it = .ok (some s.mem.size)

lemma insert_eq {s : State V} {pl : Place V} (h : Owns s pl.chains) (v : V) :
    ∃ s' it, insert tr s (pl.link s.table.version) v = .ok (s', it) ∧
      Inserted tr s s' it pl v := by
  obtain ⟨p, hload, hseg⟩ := Place.load h.rep
  obtain ⟨s₂, hstore, hrep₂, hframe₂, -, hsize₂, htable₂⟩ := Place.store_new h.rep hseg v
  have hcount : s₂.table.nodeCount + 1 = (pl.add (s.mem.size, v)).flatten.length := by
    rw [htable₂, (pl.perm_add _).length_eq, List.length_cons, ← h.count]
  obtain ⟨s', hresize, hupdates, -⟩ := @resize_eq K V tr s₂ _ hrep₂
  rw [← hcount] at hresize
  have hinsert : insert tr s (pl.link s.table.version) v =
      .ok (s', s'.load (pl.link s.table.version)) := by
    simp only [insert, hload, bind, Except.bind, hstore, hresize]
    rfl
  have havg : s₂.table.avgBucketCount = s.table.avgBucketCount := by rw [htable₂]
  refine ⟨s', _, hinsert, ?_, rfl, fun hle => ?_⟩
  · rw [havg] at hupdates
    refine hupdates.of_frame hframe₂ (fun a ha => ?_) havg
    rcases List.mem_cons.mp ((pl.perm_addrs_add _).mem_iff.mp ha) with rfl | ha
    · exact Or.inr le_rfl
    · exact Or.inl ha
  · have hstay := @resize_of_le K V tr s₂ (s₂.table.nodeCount + 1) (Nat.succ_ne_zero _) ?_
    · rw [hresize, Except.ok.injEq] at hstay
      have hrep' : Rep s'.mem s'.table.bucket
          (Place.chains { pl with rest := (s.mem.size, v) :: pl.rest }) := by
        rw [hstay]
        exact hrep₂
      obtain ⟨q, hload', hseg'⟩ := Place.load hrep'
      have hversion : s'.table.version = s.table.version := by rw [hstay, htable₂]
      rw [hversion, hseg'.start_eq] at hload'
      exact hload'
    · rw [havg, hrep₂.length_eq]
      have hnode : s₂.table.nodeCount = s.table.nodeCount := by rw [htable₂]
      rw [hnode]
      simpa [Place.add, Place.chains, Place.fill] using hle

/-- `insert_multiple` puts the value where its key was found. -/
lemma insertMultiple_eq {s : State V} {cs : List (List (Addr × V))} (h : Owns s cs)
    (hlen : 0 < cs.length) (v : V) :
    ∃ pl : Place V, pl.Finds tr (tr.getKey v) cs ∧
      ∃ s' it, insertMultiple tr s v = .ok (s', it) ∧ Inserted tr s s' it pl v := by
  obtain ⟨pl, hpl, hfind⟩ := @findNode_eq K V tr s cs h.rep hlen (tr.getKey v)
  have hcs := hpl.chains_eq
  subst hcs
  obtain ⟨s', it, hinsert, hins⟩ := @insert_eq K V tr s pl h v
  refine ⟨pl, hpl, s', it, ?_, hins⟩
  simp only [insertMultiple, hfind, bind, Except.bind, hinsert]

/-- `insert_unique` finds the key or puts the value at the end of its chain. -/
lemma insertUnique_eq {s : State V} {cs : List (List (Addr × V))} (h : Owns s cs)
    (hlen : 0 < cs.length) (v : V) :
    ∃ pl : Place V, pl.Finds tr (tr.getKey v) cs ∧
      ((∃ x rest, pl.rest = x :: rest ∧
          insertUnique tr s v = .ok (s, .ok (some x.1), false)) ∨
        (pl.rest = [] ∧
          ∃ s' it, insertUnique tr s v = .ok (s', it, true) ∧ Inserted tr s s' it pl v)) := by
  obtain ⟨pl, hpl, hfind⟩ := @findNode_eq K V tr s cs h.rep hlen (tr.getKey v)
  have hcs := hpl.chains_eq
  subst hcs
  obtain ⟨p, hload, hseg⟩ := Place.load h.rep
  refine ⟨pl, hpl, ?_⟩
  cases hrest : pl.rest with
  | nil =>
    obtain ⟨s', it, hinsert, hins⟩ := @insert_eq K V tr s pl h v
    rw [hrest, Seg.nil_iff] at hseg
    subst hseg
    refine Or.inr ⟨rfl, s', it, ?_, hins⟩
    simp only [insertUnique, hfind, bind, Except.bind, hload, hinsert]
    rfl
  | cons x rest =>
    rw [hrest] at hseg
    refine Or.inl ⟨x, rest, rfl, ?_⟩
    rw [hseg.start_eq] at hload
    simp only [insertUnique, hfind, bind, Except.bind, hload]
    rfl

end HashToolbox

end Utilmm
