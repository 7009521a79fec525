import Utilmm.Hash.Objects

/-!
# What insertion returns

`insert` returns `*position`, which it reads after the table may have grown. Then `position` points
into the vector of buckets which was replaced, or to the member `next` of a node which was moved. The
new node is still behind that node only if the two were moved in one run.
-/

namespace Utilmm

namespace HashToolbox

variable {K V : Type} {tr : Traits K V}

/-- Whether a cell with the value `v` behind the cells of a chain belongs to the last of the runs
into which the chain is cut. -/
def continuesRun (tr : Traits K V) (v : V) : List (Addr × V) → Bool
  | [] => false
  | x :: c =>
    if c.all (sameKey tr x) then tr.eq (tr.getKey x.2) (tr.getKey v)
    else continuesRun tr v (c.dropWhile (sameKey tr x))
termination_by c => c.length
decreasing_by exact Nat.lt_succ_of_le (List.length_dropWhile_le _ _)

/-- The cell `y` comes right behind the cell `x` in one of the chains. -/
def Adjacent (x y : Addr × V) (cs : List (List (Addr × V))) : Prop :=
  ∃ c ∈ cs, ∃ l₁ l₂, c = l₁ ++ x :: y :: l₂

variable {x y : Addr × V} {acc cs : List (List (Addr × V))}

/-! ### Neighbours in a table which grows -/

lemma Adjacent.mem (h : Adjacent x y cs) : y ∈ cs.flatten := by
  obtain ⟨c, hc, l₁, l₂, rfl⟩ := h
  exact List.mem_flatten.mpr ⟨_, hc, by simp⟩

/-- A run keeps its own neighbours and those of the chain it is put in front of. -/
lemma adjacent_modify_iff {i : Nat} (hi : i < acc.length) {run : List (Addr × V)}
    (hxy : x ∈ run → y ∉ acc.flatten) :
    Adjacent x y (acc.modify i (run ++ ·)) ↔ Adjacent x y (run :: acc) := by
  obtain ⟨pre, d, post, rfl, rfl⟩ := exists_split hi
  rw [modify_append]
  constructor
  · rintro ⟨c, hc, l₁, l₂, hsplit⟩
    rw [List.mem_append, List.mem_cons] at hc
    rcases hc with hc | rfl | hc
    · exact ⟨c, by simp [hc], l₁, l₂, hsplit⟩
    · rcases List.append_eq_append_iff.mp hsplit with ⟨l, -, hd⟩ | ⟨l, hrun, hl⟩
      · exact ⟨d, by simp, l, l₂, hd⟩
      · match l, hrun, hl with
        | [], _, hl => exact ⟨d, by simp, [], l₂, hl.symm⟩
        | [z], hrun, hl =>
          obtain ⟨rfl, rfl⟩ := List.cons.inj hl
          exact absurd (by simp) (hxy (by simp [hrun]))
        | z :: w :: l, hrun, hl =>
          simp only [List.cons_append, List.cons.injEq] at hl
          obtain ⟨rfl, rfl, -⟩ := hl
          exact ⟨run, by simp, l₁, l, hrun⟩
    · exact ⟨c, by simp [hc], l₁, l₂, hsplit⟩
  · rintro ⟨c, hc, l₁, l₂, hsplit⟩
    rw [List.mem_cons, List.mem_append, List.mem_cons] at hc
    rcases hc with rfl | hc | rfl | hc
    · exact ⟨c ++ d, by simp, l₁, l₂ ++ d, by simp [hsplit]⟩
    · exact ⟨c, by simp [hc], l₁, l₂, hsplit⟩
    · exact ⟨run ++ c, by simp, run ++ l₁, l₂, by simp [hsplit]⟩
    · exact ⟨c, by simp [hc], l₁, l₂, hsplit⟩

/-- The neighbour of a cell which is not moved stays. -/
lemma adjacent_regroupChain_of_notMem (hacc : 0 < acc.length) {c : List (Addr × V)} (hx : x ∉ c) :
    Adjacent x y (regroupChain tr acc c) ↔ Adjacent x y acc := by
  fun_induction regroupChain tr acc c with
  | case1 => rfl
  | case2 acc z c ih =>
    have hrun : x ∉ z :: c.takeWhile (sameKey tr z) := fun hmem =>
      hx ((List.takeWhile_sublist _).cons_cons z |>.subset hmem)
    have hdrop : x ∉ c.dropWhile (sameKey tr z) := fun hmem =>
      hx (List.mem_cons_of_mem _ ((List.dropWhile_sublist _).subset hmem))
    rw [ih (by rwa [List.length_modify]) hdrop,
      adjacent_modify_iff (Nat.mod_lt _ hacc) fun hmem => absurd hmem hrun]
    constructor
    · rintro ⟨d, hd, l₁, l₂, rfl⟩
      rcases List.mem_cons.mp hd with hd | hd
      · exact absurd (by simp [← hd]) hrun
      · exact ⟨_, hd, l₁, l₂, rfl⟩
    · rintro ⟨d, hd, hsplit⟩
      exact ⟨d, List.mem_cons_of_mem _ hd, hsplit⟩

/-- A cell is still followed by the next one after the chain was moved, if both were in one run. -/
lemma adjacent_regroupChain_iff (hacc : 0 < acc.length) {kept rest : List (Addr × V)}
    (hlast : kept.getLast? = some x) (hnodup : (kept ++ y :: rest).Nodup)
    (hx : x ∉ acc.flatten) (hy : y ∉ acc.flatten) :
    Adjacent x y (regroupChain tr acc (kept ++ y :: rest)) ↔ continuesRun tr y.2 kept = true := by
  fun_induction continuesRun tr y.2 kept generalizing acc with
  | case1 => cases hlast
  | case2 z c hall =>
    rw [List.all_eq_true] at hall
    have hi : tr.hash (tr.getKey z.2) % acc.length < acc.length := Nat.mod_lt _ hacc
    rw [List.cons_append, regroupChain, List.takeWhile_append_of_pos hall,
      List.dropWhile_append_of_pos hall]
    have hxmem : x ∈ z :: c := List.mem_of_getLast? hlast
    have hxdrop : x ∉ (y :: rest).dropWhile (sameKey tr z) := fun hmem =>
      (List.nodup_append.mp hnodup).2.2 x hxmem x ((List.dropWhile_sublist _).subset hmem) rfl
    rw [adjacent_regroupChain_of_notMem (by rwa [List.length_modify]) hxdrop,
      adjacent_modify_iff hi fun _ => hy]
    constructor
    · rintro ⟨d, hd, l₁, l₂, rfl⟩
      rcases List.mem_cons.mp hd with hd | hd
      · cases hzy : sameKey tr z y with
        | true => exact hzy
        | false =>
          -- the run would end in front of `y`
          rw [List.takeWhile_cons, hzy, if_neg Bool.false_ne_true, List.append_nil] at hd
          have hmem : y ∈ z :: c := by simp [← hd]
          exact absurd rfl ((List.nodup_append.mp hnodup).2.2 y hmem y List.mem_cons_self)
      · exact absurd (List.mem_flatten.mpr ⟨_, hd, by simp⟩) hx
    · intro hzy
      obtain ⟨init, hinit⟩ := List.getLast?_eq_some_iff.mp hlast
      refine ⟨_, List.mem_cons_self, init, rest.takeWhile (sameKey tr z), ?_⟩
      have hrun : sameKey tr z y = true := hzy
      rw [List.takeWhile_cons, if_pos hrun, ← List.cons_append, hinit]
      simp
  | case3 z c hall ih =>
    have hi : tr.hash (tr.getKey z.2) % acc.length < acc.length := Nat.mod_lt _ hacc
    have hne : c.dropWhile (sameKey tr z) ≠ [] := by
      rw [Ne, List.dropWhile_eq_nil_iff, ← List.all_eq_true]
      exact hall
    have hdrop : (c ++ y :: rest).dropWhile (sameKey tr z) =
        c.dropWhile (sameKey tr z) ++ y :: rest := by
      rw [List.dropWhile_append, if_neg (by simpa using hne)]
    have hlast' : (c.dropWhile (sameKey tr z)).getLast? = some x := by
      rw [← hlast, ← List.takeWhile_append_dropWhile (p := sameKey tr z) (l := c),
        ← List.cons_append, List.getLast?_append_of_ne_nil _ hne]
      simp
    -- both cells are in what is left behind the run
    have hsplit : (z :: (c ++ y :: rest).takeWhile (sameKey tr z)) ++
        (c.dropWhile (sameKey tr z) ++ y :: rest) = z :: c ++ y :: rest := by
      rw [← hdrop, List.cons_append, List.takeWhile_append_dropWhile, List.cons_append]
    rw [← hsplit, List.nodup_append] at hnodup
    have hfree : ∀ w ∈ c.dropWhile (sameKey tr z) ++ y :: rest, w ∉ acc.flatten →
        w ∉ (acc.modify (tr.hash (tr.getKey z.2) % acc.length)
          ((z :: (c ++ y :: rest).takeWhile (sameKey tr z)) ++ ·)).flatten := by
      intro w hw hacc hmem
      rw [(perm_modify hi _).mem_iff, List.mem_append] at hmem
      exact hmem.elim (fun hrun => hnodup.2.2 w hrun w hw rfl) hacc
    rw [List.cons_append, regroupChain, hdrop]
    apply ih (by rwa [List.length_modify]) hlast' hnodup.2.1
    · exact hfree x (List.mem_append_left _ (List.mem_of_getLast? hlast')) hx
    · exact hfree y (by simp) hy

/-- The new neighbours of the last kept cell when the whole table grows. -/
lemma adjacent_regroup_iff {n : Nat} (hn : 0 < n) {pre post : List (List (Addr × V))}
    {kept rest : List (Addr × V)} (hlast : kept.getLast? = some x)
    (hnodup : ((pre ++ (kept ++ y :: rest) :: post).flatten).Nodup) :
    Adjacent x y (regroup tr n (pre ++ (kept ++ y :: rest) :: post)) ↔
      continuesRun tr y.2 kept = true := by
  have hx : x ∈ kept := List.mem_of_getLast? hlast
  simp only [List.flatten_append, List.flatten_cons, List.nodup_append, List.mem_append,
    List.mem_cons] at hnodup
  obtain ⟨-, ⟨⟨hkept, hrest, hkr⟩, -, hpost⟩, hpre⟩ := hnodup
  have hreplicate : 0 < (List.replicate n ([] : List (Addr × V))).length := by simpa
  have hpos : 0 < (pre.foldl (regroupChain tr) (List.replicate n [])).length := by
    rwa [(foldl_regroupChain pre hreplicate).1]
  have hfree : ∀ w, w ∉ pre.flatten →
      w ∉ (pre.foldl (regroupChain tr) (List.replicate n [])).flatten := by
    intro w hw hmem
    rw [((foldl_regroupChain pre hreplicate).2).mem_iff] at hmem
    simp [hw] at hmem
  have htail : ∀ (ds acc : List (List (Addr × V))), 0 < acc.length → x ∉ ds.flatten →
      (Adjacent x y (ds.foldl (regroupChain tr) acc) ↔ Adjacent x y acc) := by
    intro ds
    induction ds with
    | nil => exact fun _ _ _ => Iff.rfl
    | cons d ds ih =>
      intro acc hacc hds
      rw [List.flatten_cons, List.mem_append, not_or] at hds
      rw [List.foldl_cons, ih _ (by rwa [length_regroupChain]) hds.2,
        adjacent_regroupChain_of_notMem hacc hds.1]
  rw [regroup, List.foldl_append, List.foldl_cons, htail _ _ (by rwa [length_regroupChain]),
    adjacent_regroupChain_iff hpos hlast]
  · rw [List.nodup_append]
    exact ⟨hkept, hrest, fun a ha b hb => hkr a ha b (List.mem_cons.mp hb)⟩
  · exact hfree x fun hmem => hpre x hmem x (Or.inl (Or.inl hx)) rfl
  · exact hfree y fun hmem => hpre y hmem y (Or.inl (Or.inr (Or.inl rfl))) rfl
  · exact fun hmem => hpost x (Or.inl hx) x hmem rfl

/-- The member `next` of a node tells its neighbour. -/
lemma Rep.next_iff {mem : Memory V} {bucket : List (Option Addr)} (h : Rep mem bucket cs)
    (hx : x ∈ cs.flatten) (hy : y ∈ cs.flatten) {n : Node V} (hn : mem.node x.1 = some n) :
    n.next = some y.1 ↔ Adjacent x y cs := by
  constructor
  · intro hnext
    obtain ⟨c, hc, hxc⟩ := List.mem_flatten.mp hx
    obtain ⟨pre, post, rfl⟩ := List.append_of_mem hc
    obtain ⟨l₁, l₂, rfl⟩ := List.append_of_mem hxc
    obtain ⟨p, -, hseg⟩ := h.slot
    rw [hseg.node_append, Option.some.injEq] at hn
    rw [← hn] at hnext
    cases l₂ with
    | nil => cases hnext
    | cons z l₂ =>
      have hz : z ∈ (pre ++ (l₁ ++ x :: z :: l₂) :: post).flatten := by simp
      obtain rfl := List.inj_on_of_nodup_map h.nodup hz hy (Option.some.inj hnext)
      exact ⟨_, hc, l₁, l₂, rfl⟩
  · rintro ⟨c, hc, l₁, l₂, rfl⟩
    obtain ⟨pre, post, rfl⟩ := List.append_of_mem hc
    obtain ⟨p, -, hseg⟩ := h.slot
    rw [hseg.node_append, Option.some.injEq] at hn
    rw [← hn]
    rfl

/-! ### Growing by one node -/

/-- One more node makes the table grow. -/
def Grows (s : State V) : Prop :=
  s.table.bucket.length < 1 + (s.table.nodeCount + 1) / s.table.avgBucketCount

lemma store_table {s s' : State V} {link : Link} {p : Option Addr}
    (h : s.store link p = .ok s') : ∃ bucket, bucket.length = s.table.bucket.length ∧
      s'.table = { s.table with bucket := bucket } := by
  cases link with
  | slot version i =>
    rw [State.store] at h
    split_ifs at h
    cases h
    exact ⟨_, List.length_set, rfl⟩
  | next a =>
    rw [State.store, Except.bind_eq_ok] at h
    obtain ⟨n, -, h⟩ := h
    cases h
    exact ⟨_, rfl, rfl⟩

/-- When the table grows, its vector of buckets is replaced. -/
lemma insert_version {s s' : State V} {position : Link} {v : V} {it : Except Fault (Option Addr)}
    (h : insert tr s position v = .ok (s', it)) (hgrow : Grows s) :
    s'.table.version = s.table.version + 1 := by
  simp only [insert, Except.bind_eq_ok, Except.pure_eq_ok, Prod.mk.injEq] at h
  obtain ⟨head, -, s₁, hstore, s₂, hresize, rfl, -⟩ := h
  obtain ⟨bucket, hlen, htable⟩ := store_table hstore
  have hgrow' : 1 + (s.table.nodeCount + 1) / s.table.avgBucketCount > bucket.length :=
    hlen ▸ hgrow
  rw [resize, if_neg (Nat.succ_ne_zero _), htable] at hresize
  simp only [if_pos hgrow', Except.bind_eq_ok, Except.pure_eq_ok] at hresize
  obtain ⟨⟨mem, tmp⟩, -, rfl⟩ := hresize
  rfl

/-- The iterator points to the one node which is new, and the node holds `v`. -/
def PointsToNew (s s' : State V) (it : Except Fault (Option Addr)) (v : V) : Prop :=
  ∃ a n, it = .ok (some a) ∧ Stored s' a ∧ ¬ Stored s a ∧ s'.mem.node a = some n ∧ n.val = v

namespace Inserted

variable {s s' : State V} {it : Except Fault (Option Addr)} {pl : Place V} {v : V}

lemma perm_cells (h : Inserted tr s s' it pl v) : ∃ cs, Owns s' cs ∧
    cs = sized tr s.table.avgBucketCount (pl.add (s.mem.size, v)).flatten.length
      (pl.add (s.mem.size, v)) ∧ cs.flatten.Perm ((s.mem.size, v) :: pl.chains.flatten) :=
  ⟨_, h.updates.owns, rfl, (perm_sized _ _).trans (pl.perm_add _)⟩

/-- The new node is the one which was allocated. -/
lemma pointsToNew_iff (hs : Owns s pl.chains) (h : Inserted tr s s' it pl v) :
    PointsToNew s s' it v ↔ it = .ok (some s.mem.size) := by
  obtain ⟨cs, hs', -, hperm⟩ := h.perm_cells
  have hmem : (s.mem.size, v) ∈ cs.flatten := hperm.mem_iff.mpr List.mem_cons_self
  constructor
  · rintro ⟨a, n, rfl, ha, hnot, -⟩
    obtain ⟨x, hx, rfl⟩ := List.mem_map.mp (hs'.rep.stored_iff.mp ha)
    rcases List.mem_cons.mp (hperm.mem_iff.mp hx) with rfl | hx
    · rfl
    · exact absurd (hs.rep.stored_iff.mpr (List.mem_map_of_mem hx)) hnot
  · rintro rfl
    obtain ⟨r, hn⟩ := hs'.rep.node_of_mem hmem
    refine ⟨_, _, rfl, hs'.rep.stored_iff.mpr (List.mem_map_of_mem hmem), fun hstored => ?_, hn, rfl⟩
    exact lt_irrefl _ (hs.rep.addr_lt_size (hs.rep.stored_iff.mp hstored))

/-- The iterator is right unless the table grows and the new node is not moved together with the
node before it. -/
lemma returns_iff (hs : Owns s pl.chains) (h : Inserted tr s s' it pl v)
    (hversion : Grows s → s'.table.version = s.table.version + 1) :
    PointsToNew s s' it v ↔ ¬ Grows s ∨ continuesRun tr v pl.kept = true := by
  rw [h.pointsToNew_iff hs]
  by_cases hgrow : Grows s
  · rw [or_iff_right (not_not.mpr hgrow)]
    obtain ⟨cs, hs', hcs, hperm⟩ := h.perm_cells
    rw [h.reads, Place.link]
    rcases List.eq_nil_or_concat pl.kept with hk | ⟨kept, x, hk⟩
    · rw [hk, endLink, State.load, if_neg (by rw [hversion hgrow]; omega)]
      simp [continuesRun]
    · rw [List.concat_eq_append] at hk
      have hxmem : x ∈ cs.flatten := by
        rw [hperm.mem_iff, pl.flatten_chains, hk]
        simp
      have hymem : (s.mem.size, v) ∈ cs.flatten := hperm.mem_iff.mpr List.mem_cons_self
      obtain ⟨r, hn⟩ := hs'.rep.node_of_mem hxmem
      have hsized : cs = regroup tr
          (1 + (pl.add (s.mem.size, v)).flatten.length / s.table.avgBucketCount)
          (pl.add (s.mem.size, v)) := by
        have hlen : (pl.add (s.mem.size, v)).flatten.length = s.table.nodeCount + 1 := by
          rw [(pl.perm_add _).length_eq, List.length_cons, hs.count]
        have hbuckets : (pl.add (s.mem.size, v)).length = s.table.bucket.length := by
          rw [hs.rep.length_eq]
          simp [Place.add, Place.chains, Place.fill]
        rw [hcs, sized, hlen, if_neg (Nat.succ_ne_zero _), if_pos (by rw [hbuckets]; exact hgrow)]
      have hnodup : (pl.add (s.mem.size, v)).flatten.Nodup := by
        have hcells : (cs.flatten.map Prod.fst).Nodup := hs'.rep.nodup
        exact ((hperm.trans (pl.perm_add _).symm).nodup_iff).mp hcells.of_map
      have hnext := hs'.rep.next_iff hxmem hymem hn
      rw [hsized] at hnext
      have hrun := hnext.trans (adjacent_regroup_iff (Nat.add_pos_left Nat.one_pos _)
        (by simp [hk]) hnodup)
      rw [hk, endLink_append, endLink, endLink, State.load, deref, hn, ← hk, ← hrun]
      exact ⟨fun heq => Except.ok.inj heq, fun heq => congrArg Except.ok heq⟩
  · refine iff_of_true (h.iter ?_) (Or.inl hgrow)
    rw [← hs.rep.length_eq]
    exact not_lt.mp hgrow

end Inserted

/-! ### The iterators which are returned -/

/-- The bucket of a key holds the cells `c`. -/
def InBucket (tr : Traits K V) (s : State V) (key : K) (c : List (Addr × V)) : Prop :=
  ∃ p, s.table.bucket[tr.hash key % s.table.bucket.length]? = some p ∧ Seg s.mem p c none

/-- There is a node with the key. -/
def Present (tr : Traits K V) (s : State V) (key : K) : Prop :=
  ∃ c, InBucket tr s key c ∧ ∃ x ∈ c, tr.eq key (tr.getKey x.2) = true

/-- The place for `v` is behind a run of nodes which `v` continues. -/
def Continues (tr : Traits K V) (s : State V) (v : V) : Prop :=
  ∃ c, InBucket tr s (tr.getKey v) c ∧
    continuesRun tr v (c.takeWhile fun x => !tr.eq (tr.getKey v) (tr.getKey x.2)) = true

/-- `insert_unique` returns an iterator to the new node or to an old one with the key. -/
def UniqueReturns (tr : Traits K V) (s : State V) (v : V) : Prop :=
  ∃ s' it new, insertUnique tr s v = .ok (s', it, new) ∧ (new = true → PointsToNew s s' it v) ∧
    (new = false → ∃ a n, it = .ok (some a) ∧ Stored s a ∧ Stored s' a ∧ s'.mem.node a = some n ∧
      tr.eq (tr.getKey v) (tr.getKey n.val) = true)

/-- `insert_multiple` returns an iterator to the new node. -/
def MultipleReturns (tr : Traits K V) (s : State V) (v : V) : Prop :=
  ∃ s' it, insertMultiple tr s v = .ok (s', it) ∧ PointsToNew s s' it v

namespace Place.Finds

variable {s : State V} {key : K} {v : V} {pl : Place V}

/-- `find_node` goes through the bucket of its key. -/
lemma inBucket_iff (h : Rep s.mem s.table.bucket pl.chains) (hpl : pl.Finds tr key pl.chains)
    {c : List (Addr × V)} : InBucket tr s key c ↔ c = pl.kept ++ pl.rest := by
  obtain ⟨p, hp, hseg⟩ := h.slot
  rw [InBucket, h.length_eq, ← hpl.pre_length, hp]
  constructor
  · rintro ⟨q, hq, hc⟩
    cases hq
    exact hc.unique hseg
  · rintro rfl
    exact ⟨p, rfl, hseg⟩

lemma present_iff (h : Rep s.mem s.table.bucket pl.chains) (hpl : pl.Finds tr key pl.chains) :
    Present tr s key ↔ pl.rest ≠ [] := by
  simp only [Present, hpl.inBucket_iff h, exists_eq_left, List.mem_append]
  constructor
  · rintro ⟨x, hx | hx, heq⟩
    · rw [hpl.kept x hx] at heq
      cases heq
    · exact List.ne_nil_of_mem hx
  · intro hrest
    obtain ⟨x, rest, hcons⟩ := List.exists_cons_of_ne_nil hrest
    exact ⟨x, Or.inr (by simp [hcons]), hpl.rest x (by simp [hcons])⟩

lemma continues_iff (h : Rep s.mem s.table.bucket pl.chains)
    (hpl : pl.Finds tr (tr.getKey v) pl.chains) :
    Continues tr s v ↔ continuesRun tr v pl.kept = true := by
  have hkept : (pl.kept ++ pl.rest).takeWhile
      (fun x => !tr.eq (tr.getKey v) (tr.getKey x.2)) = pl.kept := by
    rw [List.takeWhile_append_of_pos fun x hx => by simp [hpl.kept x hx]]
    cases hrest : pl.rest with
    | nil => simp
    | cons x rest => simp [hpl.rest x (by simp [hrest])]
  simp only [Continues, hpl.inBucket_iff h, exists_eq_left, hkept]

end Place.Finds

section

variable {s : State V} (h : Owns s cs) (hlen : 0 < cs.length) (v : V)

include h hlen

lemma multipleReturns_iff : MultipleReturns tr s v ↔ ¬ Grows s ∨ Continues tr s v := by
  obtain ⟨pl, hpl, hfind⟩ := @findNode_eq K V tr s cs h.rep hlen (tr.getKey v)
  have hcs := hpl.chains_eq
  subst hcs
  obtain ⟨s', it, hinsert, hins⟩ := @insert_eq K V tr s pl h v
  have hok : insertMultiple tr s v = .ok (s', it) := by
    simp only [insertMultiple, hfind, Except.ok_bind, hinsert]
  rw [hpl.continues_iff h.rep, ← hins.returns_iff h (insert_version hinsert)]
  constructor
  · rintro ⟨s₁, it₁, hok₁, hpoints⟩
    rw [hok, Except.ok.injEq, Prod.mk.injEq] at hok₁
    rwa [hok₁.1, hok₁.2]
  · exact fun hpoints => ⟨s', it, hok, hpoints⟩

lemma uniqueReturns_iff :
    UniqueReturns tr s v ↔ Present tr s (tr.getKey v) ∨ ¬ Grows s ∨ Continues tr s v := by
  obtain ⟨pl, hpl, hfind⟩ := @findNode_eq K V tr s cs h.rep hlen (tr.getKey v)
  have hcs := hpl.chains_eq
  subst hcs
  obtain ⟨p, hload, hseg⟩ := Place.load h.rep
  rw [hpl.present_iff h.rep, hpl.continues_iff h.rep]
  cases hrest : pl.rest with
  | nil =>
    obtain ⟨s', it, hinsert, hins⟩ := @insert_eq K V tr s pl h v
    rw [hrest, Seg.nil_iff] at hseg
    subst hseg
    have hok : insertUnique tr s v = .ok (s', it, true) := by
      simp only [insertUnique, hfind, Except.ok_bind, hload, hinsert]
      rfl
    rw [or_iff_right (not_not.mpr rfl), ← hins.returns_iff h (insert_version hinsert)]
    constructor
    · rintro ⟨s₁, it₁, new, hok₁, hpoints, -⟩
      rw [hok, Except.ok.injEq, Prod.mk.injEq, Prod.mk.injEq] at hok₁
      rw [hok₁.1, hok₁.2.1]
      exact hpoints hok₁.2.2.symm
    · exact fun hpoints => ⟨s', it, true, hok, fun _ => hpoints, fun hnew => by cases hnew⟩
  | cons x rest =>
    rw [hrest] at hseg
    rw [hseg.start_eq] at hload
    refine iff_of_true ?_ (Or.inl (List.cons_ne_nil _ _))
    have hmem : x ∈ pl.chains.flatten := by
      rw [pl.flatten_chains, Place.tail, hrest]
      simp
    have hstored := h.rep.stored_iff.mpr (List.mem_map_of_mem hmem)
    obtain ⟨r, hn⟩ := h.rep.node_of_mem hmem
    refine ⟨s, .ok (some x.1), false, ?_, (fun hnew => by cases hnew),
      fun _ => ⟨x.1, _, rfl, hstored, hstored, hn, hpl.rest x (by simp [hrest])⟩⟩
    simp only [insertUnique, hfind, Except.ok_bind, hload]
    rfl

end

/-- What continues a run has by `Equal` the key of a node before it. -/
lemma exists_of_continuesRun {v : V} {c : List (Addr × V)} (h : continuesRun tr v c = true) :
    ∃ x ∈ c, tr.eq (tr.getKey x.2) (tr.getKey v) = true := by
  fun_induction continuesRun tr v c with
  | case1 => cases h
  | case2 x c hall => exact ⟨x, List.mem_cons_self, h⟩
  | case3 x c hall ih =>
    obtain ⟨y, hy, heq⟩ := ih h
    exact ⟨y, List.mem_cons_of_mem _ ((List.dropWhile_sublist _).subset hy), heq⟩

/-- If `Equal` is symmetric nothing continues a run, so every insertion with which the table grows
returns a wrong iterator. -/
lemma not_continues (hsymm : ∀ k k', tr.eq k k' = tr.eq k' k) (s : State V) (v : V) :
    ¬ Continues tr s v := by
  rintro ⟨c, -, hrun⟩
  obtain ⟨x, hx, heq⟩ := exists_of_continuesRun hrun
  have hkept := List.mem_takeWhile_imp hx
  rw [hsymm] at heq
  simp [heq] at hkept

/-- In every run, the iterators which are returned are right if and only if the key was present, or
the table does not grow, or the new node continues the run in front of it. -/
theorem insert_returns_iff {ops : List (Op K V)} {w : World V} {i : Nat} {t : Table}
    (h : Run tr ops w) (ht : w.objects[i]? = some t) (hbucket : 0 < t.bucket.length) (v : V) :
    (UniqueReturns tr ⟨w.mem, t⟩ v ↔ Present tr ⟨w.mem, t⟩ (tr.getKey v) ∨ ¬ Grows ⟨w.mem, t⟩ ∨
      Continues tr ⟨w.mem, t⟩ v) ∧
    (MultipleReturns tr ⟨w.mem, t⟩ v ↔ ¬ Grows ⟨w.mem, t⟩ ∨ Continues tr ⟨w.mem, t⟩ v) := by
  obtain ⟨css, howns, -⟩ := h.owns
  have hi : i < css.length := howns.length_eq ▸ (List.getElem?_eq_some_iff.mp ht).1
  have hown := howns.each ht (List.getElem?_eq_getElem hi)
  have hlen : 0 < css[i].length := hown.rep.length_eq ▸ hbucket
  exact ⟨uniqueReturns_iff hown hlen v, multipleReturns_iff hown hlen v⟩

/-- In a table with two elements the key of one of them is inserted again. -/
theorem insert_returns_again :
    UniqueReturns Traits.natMap
        ⟨⟨[some ⟨(5, 50), some 1⟩, some ⟨(7, 70), none⟩]⟩, ⟨[some 0], 1, 2, 64⟩⟩ (5, 51) ∧
      MultipleReturns Traits.natMap
        ⟨⟨[some ⟨(5, 50), some 1⟩, some ⟨(7, 70), none⟩]⟩, ⟨[some 0], 1, 2, 64⟩⟩ (5, 51) := by
  have hgrows : ¬ Grows (V := Nat × Nat)
      ⟨⟨[some ⟨(5, 50), some 1⟩, some ⟨(7, 70), none⟩]⟩, ⟨[some 0], 1, 2, 64⟩⟩ := by
    unfold Grows
    decide
  obtain ⟨hunique, hmultiple⟩ := @insert_returns_iff _ _ Traits.natMap
    [.construct, .clear 0, .insertMultiple 0 (5, 50), .insertUnique 0 (7, 70)]
    ⟨⟨[some ⟨(5, 50), some 1⟩, some ⟨(7, 70), none⟩]⟩, [⟨[some 0], 1, 2, 64⟩]⟩ 0 _
    (Run.of_execAll rfl) rfl Nat.one_pos (5, 51)
  exact ⟨hunique.mpr (.inr (.inl hgrows)), hmultiple.mpr (.inl hgrows)⟩

/-- A table with 63 nodes in one bucket. -/
def World.fullBucket : World (Nat × Nat) :=
  ⟨⟨(List.range 63).map fun k => some ⟨(0, 0), if k = 0 then none else some (k - 1)⟩⟩,
    [⟨[some 62], 1, 63, 64⟩]⟩

set_option maxRecDepth 20000 in
lemma run_fullBucket : Run Traits.natMap
    ([.construct, .clear 0] ++ List.replicate 63 (.insertMultiple 0 (0, 0))) World.fullBucket :=
  Run.of_execAll rfl

/-- With the next insertion the table grows, and `*position` is in the vector which was replaced. -/
theorem not_multipleReturns_full : ∃ ops w t, Run Traits.natMap ops w ∧
    w.objects[0]? = some t ∧ 0 < t.bucket.length ∧
    ¬ MultipleReturns Traits.natMap ⟨w.mem, t⟩ (0, 0) := by
  refine ⟨_, World.fullBucket, ⟨[some 62], 1, 63, 64⟩, run_fullBucket, rfl, Nat.one_pos, ?_⟩
  obtain ⟨css, howns, -⟩ := run_fullBucket.owns
  have hi : 0 < css.length := by
    rw [← howns.length_eq]
    exact Nat.one_pos
  have hown := howns.each (t := ⟨[some 62], 1, 63, 64⟩) rfl (List.getElem?_eq_getElem hi)
  have hlen : 0 < css[0].length := hown.rep.length_eq ▸ Nat.one_pos
  rw [multipleReturns_iff hown hlen, not_or, not_not]
  exact ⟨by unfold Grows; decide, not_continues (fun k k' => Bool.beq_comm) _ _⟩

end HashToolbox

end Utilmm
