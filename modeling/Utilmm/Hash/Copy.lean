import Utilmm.Hash.Rehash

/-!
# Copies

`copy_bucket` appends a new node for each node of a chain, in the order of the chain. The nodes of
the copy are all new.
-/

namespace Utilmm

namespace HashToolbox

variable {K V : Type}

/-- The values of the cells of all the chains. -/
def values (cs : List (List (Addr × V))) : List (List V) := cs.map (List.map Prod.snd)

/-- A chain is copied to the end of the chain of a place. -/
lemma copyChain_eq {s : State V} {pl : Place V} {fuel : Nat} {p : Option Addr}
    {c : List (Addr × V)} (h : Rep s.mem s.table.bucket pl.chains) (hrest : pl.rest = [])
    (hseg : Seg s.mem p c none) (hdisj : ∀ a ∈ c.map Prod.fst, a ∉ addrs pl.chains)
    (hfuel : c.length < fuel) :
    ∃ s' c', copyChain fuel s p (pl.link s.table.version) = .ok s' ∧
      Rep s'.mem s'.table.bucket (pl.fill c') ∧ c'.map Prod.snd = c.map Prod.snd ∧
      (∀ a ∈ c'.map Prod.fst, s.mem.size ≤ a) ∧ s.mem.Frame s'.mem (addrs pl.chains) ∧
      s'.table = { s.table with bucket := s'.table.bucket } := by
  induction fuel generalizing s pl p c with
  | zero => cases hfuel
  | succ fuel ih =>
    cases c with
    | nil =>
      rw [Seg.nil_iff.mp hseg]
      refine ⟨s, [], rfl, ?_, rfl, fun a ha => ?_, .refl _ _, rfl⟩
      · rw [Place.chains, hrest] at h
        exact h
      · cases ha
    | cons x c =>
      obtain ⟨a, v⟩ := x
      obtain ⟨r, rfl, hn, hnext⟩ := hseg
      have hsegrest : Seg s.mem none pl.rest none := by rw [hrest]; rfl
      obtain ⟨s₁, hstore, hrep₁, hframe₁, hmem₁, hsize₁, htable₁⟩ := Place.store_new h hsegrest v
      have hversion : s₁.table.version = s.table.version := by rw [htable₁]
      have hlt : ∀ b ∈ c.map Prod.fst, b < s.mem.size := fun b hb => hnext.addr_lt_size hb
      have hnotin : ∀ b ∈ c.map Prod.fst, b ∉ addrs pl.chains := fun b hb =>
        hdisj b (List.mem_cons_of_mem _ hb)
      have hnext₁ : Seg s₁.mem r c none := by
        apply hnext.congr
        intro b hb
        exact hmem₁ b (hlt b hb) fun hkept => hnotin b hb (pl.kept_subset hkept)
      -- the place behind the new cell, where the rest of the chain is copied
      have hadd : (Place.mk pl.pre (pl.kept ++ [(s.mem.size, v)]) [] pl.post).chains =
          pl.add (s.mem.size, v) := by
        simp [Place.chains, Place.add, Place.fill, hrest]
      obtain ⟨s', c', hcopy, hrep, hval, hfresh, hframe, htable⟩ :=
        @ih s₁ ⟨pl.pre, pl.kept ++ [(s.mem.size, v)], [], pl.post⟩ r c (by rwa [hadd]) rfl hnext₁
          (by
            intro b hb hmem
            rw [hadd, (pl.perm_addrs_add _).mem_iff, List.mem_cons] at hmem
            rcases hmem with rfl | hmem
            · exact lt_irrefl _ (hlt _ hb)
            · exact hnotin b hb hmem)
          (Nat.lt_of_succ_lt_succ hfuel)
      refine ⟨s', (s.mem.size, v) :: c', ?_, ?_, ?_, ?_, ?_, ?_⟩
      · rw [hversion, Place.link, endLink_append, endLink, endLink] at hcopy
        simp only [copyChain, deref, hn, bind, Except.bind, hstore, hcopy]
      · simpa [Place.fill] using hrep
      · rw [List.map_cons, List.map_cons, hval]
      · intro b hb
        rcases List.mem_cons.mp hb with rfl | hb
        · exact le_rfl
        · exact (hframe₁.size_le).trans (hfresh b hb)
      · refine hframe₁.trans hframe fun b hb => ?_
        rw [hadd, (pl.perm_addrs_add _).mem_iff, List.mem_cons] at hb
        rcases hb with rfl | hb
        · exact Or.inr le_rfl
        · exact Or.inl hb
      · rw [htable, htable₁]

/-- The buckets from `j` on are copied. -/
lemma copyBuckets_eq {s : State V} {other : List (Option Addr)}
    {cs done : List (List (Addr × V))}
    (h : Rep s.mem s.table.bucket (done ++ List.replicate cs.length []))
    (hother : Rep s.mem other cs) (hdisj : ∀ a ∈ addrs cs, a ∉ addrs done) :
    ∃ s' cs', copyBuckets other done.length s = .ok s' ∧
      Rep s'.mem s'.table.bucket (done ++ cs') ∧ values cs' = values cs ∧
      (∀ a ∈ addrs cs', s.mem.size ≤ a) ∧ s.mem.Frame s'.mem (addrs done) ∧
      s'.table = { s.table with bucket := s'.table.bucket } := by
  induction cs generalizing s other done with
  | nil =>
    rw [List.length_eq_zero_iff.mp hother.length_eq]
    exact ⟨s, [], rfl, h, rfl, fun a ha => (by cases ha), .refl _ _, rfl⟩
  | cons c cs ih =>
    obtain ⟨p, other, rfl⟩ := List.exists_cons_of_length_eq_add_one hother.length_eq
    obtain ⟨hseg, hcs, -⟩ := Rep.cons_iff.mp hother
    have hchains : (Place.mk done [] [] (List.replicate cs.length [])).chains =
        done ++ List.replicate (c :: cs).length ([] : List (Addr × V)) := by
      simp [Place.chains, Place.fill, List.replicate_succ]
    have haddrs : addrs (Place.mk done [] [] (List.replicate cs.length [])).chains =
        addrs done := by
      simp [Place.chains, Place.fill, addrs]
    have hfuel : c.length < s.mem.size + 1 :=
      Nat.lt_succ_of_le (@Rep.length_le V s.mem _ [] cs c hother)
    rw [addrs_cons] at hdisj
    obtain ⟨s₁, c', hcopy, hrep₁, hval₁, hfresh₁, hframe₁, htable₁⟩ :=
      @copyChain_eq V s ⟨done, [], [], List.replicate cs.length []⟩ _ p c (by rwa [hchains]) rfl
        hseg (fun a ha => by rw [haddrs]; exact hdisj a (List.mem_append_left _ ha)) hfuel
    rw [haddrs] at hframe₁
    have hlt : ∀ a ∈ addrs cs, a < s.mem.size := fun a ha => hcs.addr_lt_size ha
    have hcs₁ : Rep s₁.mem other cs := by
      apply hcs.congr
      intro a ha
      exact hframe₁.node_eq (hlt a ha) (hdisj a (List.mem_append_right _ ha))
    obtain ⟨s', cs', hbuckets, hrep, hval, hfresh, hframe, htable⟩ :=
      @ih s₁ other (done ++ [c']) (by simpa [Place.fill] using hrep₁) hcs₁ (by
        intro a ha hmem
        rw [addrs_append, List.mem_append] at hmem
        rcases hmem with hmem | hmem
        · exact hdisj a (List.mem_append_right _ ha) hmem
        · rw [addrs_cons, addrs_nil, List.append_nil] at hmem
          exact not_lt.mpr (hfresh₁ a hmem) (hlt a ha))
    refine ⟨s', c' :: cs', ?_, ?_, ?_, ?_, ?_, ?_⟩
    · rw [List.length_append, List.length_singleton] at hbuckets
      simp only [copyBuckets, bind, Except.bind]
      have hlink : Link.slot s.table.version done.length =
        (Place.mk done [] [] (List.replicate cs.length ([] : List (Addr × V)))).link
          s.table.version := rfl
      rw [hlink, hcopy]
      exact hbuckets
    · simpa using hrep
    · rw [values, List.map_cons, hval₁]
      exact congrArg _ hval
    · intro a ha
      rw [addrs_cons, List.mem_append] at ha
      rcases ha with ha | ha
      · exact hfresh₁ a ha
      · exact hframe₁.size_le.trans (hfresh a ha)
    · refine hframe₁.trans hframe fun a ha => ?_
      rw [addrs_append, List.mem_append] at ha
      rcases ha with ha | ha
      · exact Or.inl ha
      · rw [addrs_cons, addrs_nil, List.append_nil] at ha
        exact Or.inr (hfresh₁ a ha)
    · rw [htable, htable₁]

/-- A copy has the same values in the same order, in new nodes. -/
lemma copy_eq {mem : Memory V} {other : Table} {cs : List (List (Addr × V))}
    (h : Rep mem other.bucket cs) :
    ∃ s' cs', copy mem other = .ok s' ∧ Rep s'.mem s'.table.bucket cs' ∧ values cs' = values cs ∧
      (∀ a ∈ addrs cs', mem.size ≤ a) ∧ mem.Frame s'.mem [] ∧
      s'.table.nodeCount = other.nodeCount ∧
      s'.table.avgBucketCount = other.avgBucketCount := by
  obtain ⟨s', cs', hcopy, hrep, hval, hfresh, hframe, htable⟩ :=
    @copyBuckets_eq V ⟨mem, ⟨List.replicate other.bucket.length none, 0, other.nodeCount,
      other.avgBucketCount⟩⟩ other.bucket cs [] (by
        rw [← h.length_eq]
        exact rep_replicate _ _) h (fun _ _ => List.not_mem_nil)
  refine ⟨s', cs', hcopy, hrep, hval, hfresh, hframe, ?_, ?_⟩
  · rw [htable]
  · rw [htable]

end HashToolbox

end Utilmm
