import Utilmm.Hash.Rehash

/-!
# Removal

`erase` goes to the place of its first node by the key of the node. From there it removes the next
cell again and again, from one chain to the next, until it reaches the node where it stops.
-/

namespace Utilmm

namespace HashToolbox

variable {K V : Type} {tr : Traits K V}

/-! ### Chains without some cells -/

/-- The chains without the cells at the addresses `gone`. -/
def without (gone : List Addr) (cs : List (List (Addr × V))) : List (List (Addr × V)) :=
  cs.map (List.filter fun x => x.1 ∉ gone)

@[simp] lemma length_without (gone : List Addr) (cs : List (List (Addr × V))) :
    (without gone cs).length = cs.length := List.length_map _

lemma without_nil (cs : List (List (Addr × V))) : without [] cs = cs := by
  refine (List.map_congr_left fun c _ => ?_).trans (List.map_id cs)
  simp

lemma without_without (gone gone' : List Addr) (cs : List (List (Addr × V))) :
    without gone (without gone' cs) = without (gone' ++ gone) cs := by
  simp only [without, List.map_map]
  apply List.map_congr_left
  intro c _
  simp [List.filter_filter, and_comm]

lemma flatten_without (gone : List Addr) (cs : List (List (Addr × V))) :
    (without gone cs).flatten = cs.flatten.filter fun x => x.1 ∉ gone := by
  rw [without, List.filter_flatten]

lemma addrs_without_subset (gone : List Addr) (cs : List (List (Addr × V))) {a : Addr}
    (ha : a ∈ addrs (without gone cs)) : a ∈ addrs cs := by
  rw [addrs, flatten_without] at ha
  exact (List.filter_sublist.map _).mem ha

/-- To remove the cell at a place is to remove its address. -/
lemma Place.fill_eq_without {pl : Place V} {x : Addr × V} {rest : List (Addr × V)}
    (hnodup : (addrs pl.chains).Nodup) (hrest : pl.rest = x :: rest) :
    pl.fill rest = without [x.1] pl.chains := by
  have hkeep : ∀ c : List (Addr × V), x.1 ∉ c.map Prod.fst →
      c.filter (fun y => y.1 ∉ [x.1]) = c := by
    intro c hc
    rw [List.filter_eq_self]
    intro y hy
    rw [decide_eq_true_iff, List.mem_singleton]
    intro heq
    exact hc (heq ▸ List.mem_map_of_mem hy)
  have hkeepAll : ∀ cs : List (List (Addr × V)), x.1 ∉ addrs cs → without [x.1] cs = cs := by
    intro cs hcs
    induction cs with
    | nil => rfl
    | cons c cs ih =>
      rw [addrs_cons, List.mem_append, not_or] at hcs
      have htail := ih hcs.2
      rw [without] at htail
      rw [without, List.map_cons, hkeep c hcs.1, htail]
  rw [Place.chains, Place.addrs_fill, hrest] at hnodup
  obtain ⟨hpre, hkept, hrest', hpost⟩ : x.1 ∉ addrs pl.pre ∧ x.1 ∉ pl.kept.map Prod.fst ∧
      x.1 ∉ rest.map Prod.fst ∧ x.1 ∉ addrs pl.post := by
    grind
  have hpre' := hkeepAll _ hpre
  have hpost' := hkeepAll _ hpost
  rw [without] at hpre' hpost'
  rw [Place.chains, Place.fill, Place.fill, hrest, without, List.map_append, List.map_cons, hpre',
    hpost', List.filter_append, hkeep _ hkept, List.filter_cons_of_neg (by simp), hkeep _ hrest']

/-! ### The loop of `erase` -/

/-- There is a cell at the place, or none behind it. -/
def Place.Settled (pl : Place V) : Prop := pl.rest = [] → pl.post = []

/-- `skipEmpty` settles a place. -/
lemma skipEmpty_eq {s : State V} {pl : Place V} {fuel : Nat}
    (h : Rep s.mem s.table.bucket pl.chains) (hfuel : pl.post.length < fuel) :
    ∃ pl' : Place V, skipEmpty s fuel (pl.link s.table.version) pl.pre.length =
        .ok (pl'.link s.table.version, pl'.pre.length) ∧
      pl'.chains = pl.chains ∧ pl'.tail = pl.tail ∧ pl'.Settled := by
  induction fuel generalizing pl with
  | zero => cases hfuel
  | succ fuel ih =>
    obtain ⟨p, hload, hseg⟩ := Place.load h
    rw [skipEmpty, hload]
    obtain ⟨pre, kept, rest, post⟩ := pl
    cases rest with
    | cons x rest =>
      rw [hseg.start_eq]
      refine ⟨_, rfl, rfl, rfl, fun hrest => ?_⟩
      cases hrest
    | nil =>
      rw [Seg.nil_iff.mp hseg]
      have hlen := h.length_eq
      simp only [Place.chains, Place.fill, List.length_append, List.length_cons] at hlen
      cases post with
      | nil =>
        refine ⟨_, ?_, rfl, rfl, fun _ => rfl⟩
        simp only [bind, Except.bind, hlen, List.length_nil]
        rw [if_neg (by omega)]
        rfl
      | cons c post =>
        obtain ⟨pl', hskip, hchains, htail, hsettled⟩ := @ih ⟨pre ++ [kept], [], c, post⟩
          (by simpa [Place.chains, Place.fill] using h) (Nat.lt_of_succ_lt_succ hfuel)
        refine ⟨pl', ?_, ?_, ?_, hsettled⟩
        · simp only [bind, Except.bind, hlen, List.length_cons]
          rw [if_pos (by omega), ← hskip]
          simp [Place.link, endLink]
        · rw [hchains]
          simp [Place.chains, Place.fill]
        · rw [htail]
          simp [Place.tail]

/-- One round of the loop: the cell at the place is removed. -/
lemma eraseLoop_step {s : State V} {pl : Place V} {x : Addr × V} {rest : List (Addr × V)}
    {last : Option Addr} (h : Rep s.mem s.table.bucket pl.chains) (hrest : pl.rest = x :: rest)
    (hlast : last ≠ some x.1) (fuel removed : Nat) :
    ∃ (s' : State V) (pl' : Place V),
      eraseLoop last (fuel + 1) s (pl.link s.table.version) pl.pre.length removed =
        eraseLoop last fuel s' (pl'.link s'.table.version) pl'.pre.length (removed + 1) ∧
      Rep s'.mem s'.table.bucket pl'.chains ∧ pl'.chains = without [x.1] pl.chains ∧
      pl'.tail = rest ++ pl.post.flatten ∧ pl'.Settled ∧
      s.mem.Frame s'.mem (addrs pl.chains) ∧ s'.mem.size = s.mem.size ∧
      s'.table = { s.table with bucket := s'.table.bucket } := by
  obtain ⟨a, v⟩ := x
  obtain ⟨p, hload, hseg⟩ := Place.load h
  rw [hrest] at hseg
  obtain ⟨q, rfl, hn, hnext⟩ := hseg
  have hfill := Place.fill_eq_without h.nodup hrest
  have hnodup : (addrs (pl.fill rest)).Nodup := by
    rw [hfill, addrs, flatten_without]
    exact h.nodup.sublist (List.filter_sublist.map _)
  have hmem : a ∈ addrs pl.chains := by
    rw [Place.chains, Place.addrs_fill, hrest]
    simp
  have hgone : a ∉ addrs (pl.fill rest) := by
    rw [hfill, addrs, flatten_without]
    simp
  obtain ⟨s₁, hstore, hrep₁, hmem₁, hsize₁, htable₁⟩ := Place.store h hnext hnodup
  have hrep₂ : Rep (s₁.mem.free a) s₁.table.bucket (pl.fill rest) := by
    apply hrep₁.congr
    intro b hb
    apply Memory.node_free_of_ne
    rintro rfl
    exact hgone hb
  have hfuel : pl.post.length < s₁.table.bucket.length + 1 := by
    rw [hrep₁.length_eq, Place.fill, List.length_append, List.length_cons]
    omega
  obtain ⟨pl', hskip, hchains, htail, hsettled⟩ :=
    @skipEmpty_eq V ⟨s₁.mem.free a, s₁.table⟩ { pl with rest := rest } _ hrep₂ hfuel
  have hversion : s₁.table.version = s.table.version := by rw [htable₁]
  refine ⟨⟨s₁.mem.free a, s₁.table⟩, pl', ?_, ?_, hchains.trans hfill, htail, hsettled,
    ⟨?_, ?_⟩, ?_, htable₁⟩
  · rw [hversion] at hskip ⊢
    have hskip' : skipEmpty ⟨s₁.mem.free a, s₁.table⟩ (s₁.table.bucket.length + 1)
        (pl.link s.table.version) pl.pre.length = .ok (pl'.link s.table.version, pl'.pre.length) :=
      hskip
    simp only [eraseLoop, hload, bind, Except.bind, if_neg hlast, deref, hn, hstore, Option.elim,
      hskip']
  · rw [hchains]
    exact hrep₂
  · rw [Memory.size_free, hsize₁]
  · intro b hb hnot
    rw [Memory.node_free_of_ne, hmem₁]
    · intro hkept
      apply hnot
      rw [Place.chains, Place.addrs_fill]
      exact List.mem_append_right _ (List.mem_append_left _ hkept)
    · rintro rfl
      exact hnot hmem
  · rw [Memory.size_free, hsize₁]

/-- The addresses of the cells before the one at `last`. -/
def upTo (last : Option Addr) (l : List (Addr × V)) : List Addr :=
  (l.map Prod.fst).takeWhile fun a => some a ≠ last

lemma upTo_eq (last : Option Addr) (l : List (Addr × V)) :
    upTo last l = (l.takeWhile fun x => some x.1 ≠ last).map Prod.fst := by
  rw [upTo, List.takeWhile_map]
  rfl

/-- A middle part is removed by its addresses. -/
lemma filter_middle {xs ys zs : List (Addr × V)} (h : ((xs ++ ys ++ zs).map Prod.fst).Nodup) :
    (xs ++ ys ++ zs).filter (fun x => x.1 ∉ ys.map Prod.fst) = xs ++ zs := by
  simp only [List.map_append, List.nodup_append] at h
  obtain ⟨⟨-, -, hxy⟩, -, hz⟩ := h
  rw [List.filter_append, List.filter_append]
  have hxs : xs.filter (fun x => x.1 ∉ ys.map Prod.fst) = xs := by
    rw [List.filter_eq_self]
    intro x hx
    rw [decide_eq_true_iff]
    exact fun hmem => hxy _ (List.mem_map_of_mem hx) _ hmem rfl
  have hys : ys.filter (fun x => x.1 ∉ ys.map Prod.fst) = [] := by
    rw [List.filter_eq_nil_iff]
    intro x hx
    rw [decide_eq_true_iff, not_not]
    exact List.mem_map_of_mem hx
  have hzs : zs.filter (fun x => x.1 ∉ ys.map Prod.fst) = zs := by
    rw [List.filter_eq_self]
    intro x hx
    rw [decide_eq_true_iff]
    exact fun hmem => hz _ (List.mem_append_right _ hmem) _ (List.mem_map_of_mem hx) rfl
  rw [hxs, hys, hzs, List.append_nil]

/-- What is left when the cells from a place up to `last` are removed. -/
lemma Place.flatten_without_upTo {pl : Place V} (h : (addrs pl.chains).Nodup)
    (last : Option Addr) :
    (without (upTo last pl.tail) pl.chains).flatten =
      pl.pre.flatten ++ pl.kept ++ pl.tail.dropWhile fun x => some x.1 ≠ last := by
  have hsplit : pl.chains.flatten = pl.pre.flatten ++ pl.kept ++
      (pl.tail.takeWhile fun x => some x.1 ≠ last) ++
        pl.tail.dropWhile fun x => some x.1 ≠ last := by
    rw [pl.flatten_chains, List.append_assoc _ (List.takeWhile _ _),
      List.takeWhile_append_dropWhile]
  rw [addrs, hsplit] at h
  rw [flatten_without, upTo_eq, hsplit, filter_middle h]

/-- The loop removes the cells up to `last`, if it finds `last`. -/
lemma eraseLoop_eq {s : State V} {pl : Place V} {last : Option Addr} {fuel removed : Nat}
    (h : Rep s.mem s.table.bucket pl.chains) (hsettled : pl.Settled)
    (hfuel : pl.tail.length < fuel) (hlast : ∀ a, last = some a → a ∈ pl.tail.map Prod.fst) :
    ∃ s', eraseLoop last fuel s (pl.link s.table.version) pl.pre.length removed =
        .ok (s', removed + (upTo last pl.tail).length) ∧
      Rep s'.mem s'.table.bucket (without (upTo last pl.tail) pl.chains) ∧
      s.mem.Frame s'.mem (addrs pl.chains) ∧ s'.mem.size = s.mem.size ∧
      s'.table = { s.table with bucket := s'.table.bucket } := by
  induction fuel generalizing s pl removed with
  | zero => cases hfuel
  | succ fuel ih =>
    obtain ⟨p, hload, hseg⟩ := Place.load h
    have hstop : last = p → upTo last pl.tail = [] := by
      intro hp
      rw [hp, hseg.start_eq]
      cases hrest : pl.rest with
      | nil => simp [upTo, Place.tail, hrest, hsettled hrest]
      | cons x rest => simp [upTo, Place.tail, hrest]
    by_cases hp : last = p
    · rw [hstop hp, without_nil]
      refine ⟨s, ?_, h, .refl _ _, rfl, rfl⟩
      simp only [eraseLoop, hload, bind, Except.bind, if_pos hp]
      rfl
    cases hrest : pl.rest with
    | nil =>
      -- behind the last cell only the null pointer can be meant
      rw [hrest, Seg.nil_iff] at hseg
      rw [hseg] at hp
      obtain ⟨a, ha⟩ := Option.ne_none_iff_exists'.mp hp
      have hmem := hlast a ha
      rw [Place.tail, hrest, hsettled hrest] at hmem
      cases hmem
    | cons x rest =>
      rw [hrest] at hseg
      rw [hseg.start_eq] at hp
      obtain ⟨s₁, pl₁, hloop, h₁, hchains₁, htail₁, hsettled₁, hframe₁, hsize₁, htable₁⟩ :=
        eraseLoop_step h hrest hp fuel removed
      have htail : pl.tail = x :: pl₁.tail := by rw [Place.tail, hrest, htail₁, List.cons_append]
      have hup : upTo last pl.tail = x.1 :: upTo last pl₁.tail := by
        rw [upTo, htail, List.map_cons, List.takeWhile_cons_of_pos]
        · rfl
        · simpa using Ne.symm hp
      rw [htail, List.length_cons] at hfuel
      obtain ⟨s', hloop', h', hframe', hsize', htable'⟩ :=
        @ih s₁ pl₁ (removed + 1) h₁ hsettled₁ (Nat.lt_of_succ_lt_succ hfuel) fun a ha => by
          have hmem := hlast a ha
          rw [htail, List.map_cons, List.mem_cons] at hmem
          refine hmem.resolve_left fun hax => hp ?_
          rw [ha, hax]
          rfl
      refine ⟨s', ?_, ?_, hframe₁.trans hframe' fun a ha => Or.inl ?_, hsize'.trans hsize₁, ?_⟩
      · rw [hloop, hloop', hup, List.length_cons, Nat.add_assoc, Nat.add_comm 1]
      · rw [hup]
        rw [hchains₁, without_without] at h'
        exact h'
      · rw [hchains₁] at ha
        exact addrs_without_subset _ _ ha
      · rw [htable', htable₁]

/-- The loop runs into the null pointer if it does not find `last`. -/
lemma eraseLoop_error {s : State V} {pl : Place V} {a : Addr} {fuel removed : Nat}
    (h : Rep s.mem s.table.bucket pl.chains) (ha : pl.rest = [] ∨ a ∉ pl.tail.map Prod.fst) :
    ∃ e, eraseLoop (some a) fuel s (pl.link s.table.version) pl.pre.length removed = .error e := by
  induction fuel generalizing s pl removed with
  | zero => exact ⟨.endless, rfl⟩
  | succ fuel ih =>
    obtain ⟨p, hload, hseg⟩ := Place.load h
    cases hrest : pl.rest with
    | nil =>
      rw [hrest, Seg.nil_iff] at hseg
      rw [hseg] at hload
      refine ⟨.badNode, ?_⟩
      simp only [eraseLoop, hload, bind, Except.bind, deref]
      rfl
    | cons x rest =>
      replace ha := ha.resolve_left (by simp [hrest])
      rw [Place.tail, hrest, List.cons_append, List.map_cons, List.mem_cons, not_or] at ha
      obtain ⟨s₁, pl₁, hloop, h₁, -, htail₁, -⟩ :=
        eraseLoop_step h hrest (fun heq => ha.1 (Option.some.inj heq)) fuel removed
      rw [hloop]
      apply ih h₁
      rw [htail₁]
      exact Or.inr ha.2

/-! ### Removing a range -/

/-- `erase` starts its loop at the place of the key of its first node. -/
lemma erase_eq_loop {s : State V} {cs : List (List (Addr × V))} {pl : Place V} {a : Addr} {v : V}
    {r last : Option Addr} (h : Owns s cs) (hn : s.mem.node a = some ⟨v, r⟩)
    (hne : some a ≠ last) (hlen : 0 < cs.length) (hpl : pl.Finds tr (tr.getKey v) cs)
    (hfind : findNode tr s (tr.getKey v) = .ok (pl.link s.table.version)) :
    erase tr s (some a) last = (do
      let (s, removed) ←
        eraseLoop last (s.mem.size + 1) s (pl.link s.table.version) pl.pre.length 0
      resize tr s (s.table.nodeCount - removed)) := by
  simp only [erase, if_neg hne, deref, hn, bind, Except.bind, hashNode, hashKey, h.rep.length_eq,
    if_neg hlen.ne', ← hpl.pre_length, hfind]

/-- Once its loop has ended, `erase` counts the nodes which are left. -/
lemma resize_of_loop {s s₁ : State V} {cs cs₁ : List (List (Addr × V))} {removed : Nat}
    (h : Owns s cs) (hrep : Rep s₁.mem s₁.table.bucket cs₁) (hframe : s.mem.Frame s₁.mem (addrs cs))
    (howned : ∀ a ∈ addrs cs₁, a ∈ addrs cs)
    (htable : s₁.table = { s.table with bucket := s₁.table.bucket })
    (hcount : cs.flatten.length - removed = cs₁.flatten.length) :
    ∃ s', resize tr s₁ (s₁.table.nodeCount - removed) = .ok s' ∧
      Updates s s' cs (sized tr s.table.avgBucketCount cs₁.flatten.length cs₁) := by
  have havg : s₁.table.avgBucketCount = s.table.avgBucketCount := by rw [htable]
  have hsize : s₁.table.nodeCount - removed = cs₁.flatten.length := by
    rw [htable, ← hcount, ← h.count]
  obtain ⟨s', hresize, hupdates, -⟩ := @resize_eq K V tr s₁ _ hrep
  rw [havg] at hupdates
  refine ⟨s', ?_, hupdates.of_frame hframe (fun a ha => Or.inl (howned a ha)) havg⟩
  rw [hsize, hresize]

/-- `erase` removes the cells from the place of the key of its first node up to `last`. -/
lemma erase_eq {s : State V} {cs : List (List (Addr × V))} {a : Addr} {v : V}
    {r last : Option Addr} {pl : Place V} (h : Owns s cs) (hlen : 0 < cs.length)
    (hn : s.mem.node a = some ⟨v, r⟩) (hne : some a ≠ last) (hpl : pl.Finds tr (tr.getKey v) cs)
    (hfind : findNode tr s (tr.getKey v) = .ok (pl.link s.table.version)) (hsettled : pl.Settled)
    (hlast : ∀ b, last = some b → b ∈ pl.tail.map Prod.fst) :
    ∃ s', erase tr s (some a) last = .ok s' ∧
      Updates s s' cs (sized tr s.table.avgBucketCount
        (without (upTo last pl.tail) cs).flatten.length (without (upTo last pl.tail) cs)) := by
  have hcs := hpl.chains_eq
  subst hcs
  have hfuel : pl.tail.length < s.mem.size + 1 := by
    have hle := h.rep.length_flatten_le
    rw [pl.flatten_chains, List.length_append] at hle
    omega
  obtain ⟨s₁, hloop, hrep, hframe, -, htable⟩ :=
    @eraseLoop_eq V s pl last _ 0 h.rep hsettled hfuel hlast
  rw [erase_eq_loop h hn hne hlen hpl hfind, hloop]
  apply resize_of_loop h hrep hframe (fun a ha => addrs_without_subset _ _ ha) htable
  rw [Place.flatten_without_upTo h.rep.nodup, pl.flatten_chains, Nat.zero_add, upTo_eq,
    List.length_map]
  simp only [List.length_append]
  have htail := congrArg List.length
    (@List.takeWhile_append_dropWhile _ (fun x : Addr × V => decide (some x.1 ≠ last)) pl.tail)
  rw [List.length_append] at htail
  omega

/-- Whatever range was given, a table which is left has lost some cells or nothing has happened. -/
lemma erase_updates {s s' : State V} {cs : List (List (Addr × V))} {first last : Option Addr}
    (h : Owns s cs) (hlen : 0 < cs.length) (hok : erase tr s first last = .ok s') :
    s' = s ∨ ∃ gone, Updates s s' cs (sized tr s.table.avgBucketCount
      (without gone cs).flatten.length (without gone cs)) := by
  by_cases hne : first = last
  · rw [erase, if_pos hne] at hok
    cases hok
    exact Or.inl rfl
  cases hderef : deref s.mem first with
  | error e => simp [erase, hne, hderef, bind, Except.bind] at hok
  | ok n =>
    obtain ⟨a, rfl, hn⟩ : ∃ a, first = some a ∧ s.mem.node a = some n := by
      cases first with
      | none => cases hderef
      | some a =>
        refine ⟨a, rfl, ?_⟩
        rw [deref] at hderef
        cases hnode : s.mem.node a with
        | none => rw [hnode] at hderef; cases hderef
        | some m => rw [hnode] at hderef; cases hderef; rfl
    obtain ⟨v, r⟩ := n
    obtain ⟨pl, hpl, hfind⟩ := @findNode_eq K V tr s cs h.rep hlen (tr.getKey v)
    by_cases hreach : pl.Settled ∧ ∀ b, last = some b → b ∈ pl.tail.map Prod.fst
    · obtain ⟨s₁, hok₁, hupdates⟩ := erase_eq h hlen hn hne hpl hfind hreach.1 hreach.2
      rw [hok, Except.ok.injEq] at hok₁
      rw [← hok₁] at hupdates
      exact Or.inr ⟨_, hupdates⟩
    rw [erase_eq_loop h hn hne hlen hpl hfind] at hok
    have hcs := hpl.chains_eq
    subst hcs
    cases last with
    | none =>
      -- the key was not found, and there is nothing to remove from its place on
      have hrest : pl.rest = [] := by
        by_contra hrest
        exact hreach ⟨fun h => absurd h hrest, fun _ h => by cases h⟩
      obtain ⟨p, hload, hseg⟩ := Place.load h.rep
      rw [hrest, Seg.nil_iff] at hseg
      obtain ⟨s₁, hresize, hupdates⟩ := @resize_of_loop K V tr s s _ _ 0 h h.rep (.refl _ _)
        (fun a ha => ha) rfl rfl
      simp only [eraseLoop, hload, hseg, bind, Except.bind, if_true, pure, Except.pure, hresize]
        at hok
      cases hok
      exact Or.inr ⟨[], by rwa [without_nil]⟩
    | some b =>
      have hb : pl.rest = [] ∨ b ∉ pl.tail.map Prod.fst := by
        by_contra hb
        rw [not_or, not_not] at hb
        refine hreach ⟨fun h => absurd h hb.1, fun c hc => ?_⟩
        cases hc
        exact hb.2
      obtain ⟨e, he⟩ := @eraseLoop_error V s pl b (s.mem.size + 1) 0 h.rep hb
      rw [he] at hok
      cases hok

/-! ### Removing everything -/

lemma clearBucket_eq {mem : Memory V} {fuel : Nat} {p : Option Addr} {c : List (Addr × V)}
    (h : Seg mem p c none) (hnodup : (c.map Prod.fst).Nodup) (hfuel : c.length < fuel) :
    ∃ mem', clearBucket fuel mem p = .ok mem' ∧ mem'.size = mem.size ∧
      ∀ a ∉ c.map Prod.fst, mem'.node a = mem.node a := by
  induction fuel generalizing mem p c with
  | zero => cases hfuel
  | succ fuel ih =>
    cases c with
    | nil =>
      rw [Seg.nil_iff.mp h]
      exact ⟨mem, rfl, rfl, fun _ _ => rfl⟩
    | cons x c =>
      obtain ⟨a, v⟩ := x
      obtain ⟨r, rfl, hn, hseg⟩ := h
      rw [List.map_cons, List.nodup_cons] at hnodup
      have hseg' : Seg (mem.free a) r c none := by
        apply hseg.congr
        intro b hb
        apply Memory.node_free_of_ne
        rintro rfl
        exact hnodup.1 hb
      obtain ⟨mem', hclear, hsize, hmem⟩ := ih hseg' hnodup.2 (Nat.lt_of_succ_lt_succ hfuel)
      refine ⟨mem', ?_, hsize.trans (Memory.size_free _ _), fun b hb => ?_⟩
      · simp only [clearBucket, deref, hn, bind, Except.bind, hclear]
      · rw [List.map_cons, List.mem_cons, not_or] at hb
        rw [hmem b hb.2, Memory.node_free_of_ne (Ne.symm hb.1)]

lemma clearLoop_eq {mem : Memory V} {bucket : List (Option Addr)} {cs : List (List (Addr × V))}
    (h : Rep mem bucket cs) :
    ∃ mem', bucket.foldlM (fun mem p => clearBucket (mem.size + 1) mem p) mem = .ok mem' ∧
      mem'.size = mem.size ∧ ∀ a ∉ addrs cs, mem'.node a = mem.node a := by
  induction cs generalizing mem bucket with
  | nil =>
    rw [List.length_eq_zero_iff.mp h.length_eq]
    exact ⟨mem, rfl, rfl, fun _ _ => rfl⟩
  | cons c cs ih =>
    obtain ⟨p, bucket, rfl⟩ := List.exists_cons_of_length_eq_add_one h.length_eq
    obtain ⟨hseg, hcs, hnodup⟩ := Rep.cons_iff.mp h
    rw [addrs_cons] at hnodup
    have hfuel : c.length < mem.size + 1 := Nat.lt_succ_of_le (@Rep.length_le V mem _ [] cs c h)
    obtain ⟨mem₁, hclear, hsize₁, hmem₁⟩ := clearBucket_eq hseg hnodup.of_append_left hfuel
    have hcs₁ : Rep mem₁ bucket cs := by
      apply hcs.congr
      intro a ha
      apply hmem₁
      intro hc
      exact (List.nodup_append.mp hnodup).2.2 a hc a ha rfl
    obtain ⟨mem', hloop, hsize, hmem⟩ := ih hcs₁
    refine ⟨mem', ?_, hsize.trans hsize₁, fun a ha => ?_⟩
    · rw [List.foldlM_cons, hclear]
      exact hloop
    · rw [addrs_cons, List.mem_append, not_or] at ha
      rw [hmem a ha.2, hmem₁ a ha.1]

/-- `clear` leaves one empty bucket. -/
lemma clear_eq {s : State V} {cs : List (List (Addr × V))} (h : Rep s.mem s.table.bucket cs) :
    ∃ s', clear tr s = .ok s' ∧ Updates s s' cs [[]] := by
  obtain ⟨mem, hloop, hsize, hmem⟩ := clearLoop_eq h
  refine ⟨⟨mem, { s.table with
    bucket := [none], version := s.table.version + 1, nodeCount := 0 }⟩, ?_, ?_⟩
  · simp only [clear, hloop, bind, Except.bind, resize, if_true]
  · refine ⟨⟨rep_replicate mem 1, rfl⟩, ⟨hsize.ge, fun _ ha => hmem _ ha⟩, fun a ha => ?_, rfl⟩
    cases ha

end HashToolbox

end Utilmm
