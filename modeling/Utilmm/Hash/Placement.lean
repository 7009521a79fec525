import Utilmm.Hash.Insertion
import Utilmm.Hash.Removal
import Utilmm.Hash.Copy

/-!
# Placement

When each node is in the bucket of its hash, the operator `++` goes through the chains in order and
`find` looks into the right chain. This takes an `Equal` which is an equivalence relation and a
`Hash` which respects it, since a run of equal keys is moved by the hash of its first one.
-/

namespace Utilmm

namespace HashToolbox

variable {K V : Type} {tr : Traits K V}

/-- `Equal` is an equivalence relation and `Hash` respects it. -/
structure Traits.Lawful (tr : Traits K V) : Prop where
  refl : ∀ k, tr.eq k k = true
  symm : ∀ {k k'}, tr.eq k k' = true → tr.eq k' k = true
  trans : ∀ {k₁ k₂ k₃}, tr.eq k₁ k₂ = true → tr.eq k₂ k₃ = true → tr.eq k₁ k₃ = true
  hash_eq : ∀ {k k'}, tr.eq k k' = true → tr.hash k = tr.hash k'

/-- Keys which are compared with `==`. -/
lemma Traits.lawful_beq [BEq K] [LawfulBEq K] (getKey : V → K) (hash : K → Nat) :
    (⟨getKey, hash, fun k k' => k == k'⟩ : Traits K V).Lawful := by
  refine ⟨fun k => ?_, fun h => ?_, fun h h' => ?_, fun h => ?_⟩
  · exact beq_self_eq_true k
  · exact beq_iff_eq.mpr (beq_iff_eq.mp h).symm
  · exact beq_iff_eq.mpr ((beq_iff_eq.mp h).trans (beq_iff_eq.mp h'))
  · rw [beq_iff_eq.mp h]

lemma Traits.natMap_lawful : Traits.natMap.Lawful := Traits.lawful_beq _ _

/-- `Hash` respects `Equal`. -/
def Traits.Respects (tr : Traits K V) : Prop :=
  ∀ {k k' : K}, tr.eq k k' = true → tr.hash k = tr.hash k'

lemma Traits.Lawful.respects (htr : tr.Lawful) : tr.Respects := fun h => htr.hash_eq h

/-- Each cell is in the chain of its hash. -/
def Placed (tr : Traits K V) (cs : List (List (Addr × V))) : Prop :=
  ∀ i c, cs[i]? = some c → ∀ x ∈ c, tr.hash (tr.getKey x.2) % cs.length = i

/-- No two cells have the same key. -/
def Distinct (tr : Traits K V) (cs : List (List (Addr × V))) : Prop :=
  cs.flatten.Pairwise fun x y => tr.eq (tr.getKey x.2) (tr.getKey y.2) = false

/-! ### Placed chains -/

lemma placed_nil (tr : Traits K V) : Placed tr ([] : List (List (Addr × V))) := by
  intro i c hc
  cases hc

lemma placed_replicate (tr : Traits K V) (n : Nat) :
    Placed tr (List.replicate n ([] : List (Addr × V))) := by
  intro i c hc x hx
  rw [List.getElem?_replicate] at hc
  split_ifs at hc
  cases hc
  cases hx

lemma Placed.of_values {cs cs' : List (List (Addr × V))} (h : Placed tr cs)
    (hval : values cs' = values cs) : Placed tr cs' := by
  intro i c' hc' x hx
  have hi := congrArg (fun vss => vss[i]?) hval
  simp only [values, List.getElem?_map, hc', Option.map_some] at hi
  cases hc : cs[i]? with
  | none => rw [hc] at hi; cases hi
  | some c =>
    rw [hc, Option.map_some, Option.some.injEq] at hi
    have hmem : x.2 ∈ c.map Prod.snd := hi ▸ List.mem_map_of_mem hx
    obtain ⟨y, hy, hyx⟩ := List.mem_map.mp hmem
    have hlen := congrArg List.length hval
    rw [values, values, List.length_map, List.length_map] at hlen
    rw [hlen, ← hyx]
    exact h i c hc y hy

lemma Placed.without {cs : List (List (Addr × V))} (h : Placed tr cs) (gone : List Addr) :
    Placed tr (without gone cs) := by
  intro i c hc x hx
  rw [HashToolbox.without, List.getElem?_map, Option.map_eq_some_iff] at hc
  obtain ⟨d, hd, rfl⟩ := hc
  rw [length_without]
  exact h i d hd x (List.mem_of_mem_filter hx)

lemma Place.placed_fill {pl : Place V} {rest : List (Addr × V)} (h : Placed tr pl.chains)
    (hrest : ∀ x ∈ rest, x ∈ pl.rest ∨
      tr.hash (tr.getKey x.2) % pl.chains.length = pl.pre.length) :
    Placed tr (pl.fill rest) := by
  have hlen : (pl.fill rest).length = pl.chains.length := by simp [Place.chains, Place.fill]
  have hchain : pl.chains[pl.pre.length]? = some (pl.kept ++ pl.rest) := by
    simp [Place.chains, Place.fill]
  have hset : pl.fill rest = pl.chains.set pl.pre.length (pl.kept ++ rest) := by
    simp [Place.chains, Place.fill]
  intro i c hc x hx
  rw [hlen]
  rw [hset] at hc
  by_cases hi : pl.pre.length = i
  · subst hi
    rw [List.getElem?_set_self (List.getElem?_eq_some_iff.mp hchain).1, Option.some.injEq] at hc
    rw [← hc, List.mem_append] at hx
    rcases hx with hx | hx
    · exact h _ _ hchain x (List.mem_append_left _ hx)
    · rcases hrest x hx with hx | hx
      · exact h _ _ hchain x (List.mem_append_right _ hx)
      · exact hx
  · rw [List.getElem?_set_ne hi] at hc
    exact h i c hc x hx

/-- A cell is put where its key was found. -/
lemma Placed.add {pl : Place V} (h : Placed tr pl.chains) {v : V}
    (hpl : pl.Finds tr (tr.getKey v) pl.chains) (a : Addr) : Placed tr (pl.add (a, v)) := by
  apply Place.placed_fill h
  intro x hx
  rcases List.mem_cons.mp hx with rfl | hx
  · exact Or.inr hpl.pre_length.symm
  · exact Or.inl hx

lemma Placed.regroupChain (htr : tr.Respects) {acc : List (List (Addr × V))} (h : Placed tr acc)
    (hacc : 0 < acc.length) (c : List (Addr × V)) :
    Placed tr (HashToolbox.regroupChain tr acc c) := by
  fun_induction HashToolbox.regroupChain tr acc c with
  | case1 => exact h
  | case2 acc x c ih =>
    apply ih
    · obtain ⟨pre, d, post, rfl, hpre⟩ :=
        exists_split (Nat.mod_lt (tr.hash (tr.getKey x.2)) hacc)
      rw [← hpre, modify_append]
      apply @Place.placed_fill K V tr ⟨pre, [], d, post⟩ _ h
      intro y hy
      change y ∈ (x :: c.takeWhile (sameKey tr x)) ++ d at hy
      rw [List.mem_append, List.mem_cons] at hy
      rcases hy with (rfl | hy) | hy
      · exact Or.inr hpre.symm
      · have hsame := List.mem_takeWhile_imp hy
        rw [← htr hsame]
        exact Or.inr hpre.symm
      · exact Or.inl hy
    · rwa [List.length_modify]

lemma placed_regroup (htr : tr.Respects) {n : Nat} (hn : 0 < n) (cs : List (List (Addr × V))) :
    Placed tr (regroup tr n cs) := by
  rw [regroup]
  have hlen : 0 < (List.replicate n ([] : List (Addr × V))).length := by simpa
  have hplaced := placed_replicate tr n
  generalize List.replicate n ([] : List (Addr × V)) = acc at hlen hplaced
  induction cs generalizing acc with
  | nil => exact hplaced
  | cons c cs ih =>
    apply ih
    · rwa [length_regroupChain]
    · exact hplaced.regroupChain htr hlen c

lemma Placed.sized (htr : tr.Respects) {cs : List (List (Addr × V))} (h : Placed tr cs)
    (avg size : Nat) : Placed tr (HashToolbox.sized tr avg size cs) := by
  rw [HashToolbox.sized]
  split_ifs with h₁ h₂
  · exact placed_replicate tr 1
  · exact placed_regroup htr (by omega) cs
  · exact h

/-! ### Distinct keys -/

lemma Distinct.of_values {cs cs' : List (List (Addr × V))} (h : Distinct tr cs)
    (hval : values cs' = values cs) : Distinct tr cs' := by
  have hflat := congrArg List.flatten hval
  simp only [values, ← List.map_flatten] at hflat
  have hmap : (cs.flatten.map Prod.snd).Pairwise
      fun v w => tr.eq (tr.getKey v) (tr.getKey w) = false := List.pairwise_map.mpr h
  rw [← hflat] at hmap
  exact List.pairwise_map.mp hmap

lemma Traits.Lawful.symm_false (htr : tr.Lawful) {k k' : K} (h : tr.eq k k' = false) :
    tr.eq k' k = false := by
  cases hk : tr.eq k' k with
  | false => rfl
  | true =>
    rw [htr.symm hk] at h
    exact h

lemma Distinct.of_perm (htr : tr.Lawful) {cs cs' : List (List (Addr × V))} (h : Distinct tr cs)
    (hperm : cs'.flatten.Perm cs.flatten) : Distinct tr cs' :=
  (hperm.pairwise_iff fun hxy => htr.symm_false hxy).mpr h

lemma Distinct.without {cs : List (List (Addr × V))} (h : Distinct tr cs) (gone : List Addr) :
    Distinct tr (without gone cs) := by
  rw [Distinct, flatten_without]
  exact h.sublist List.filter_sublist

/-- Cells with the same key are the same cell. -/
lemma Distinct.eq_of_eq (htr : tr.Lawful) {cs : List (List (Addr × V))} (h : Distinct tr cs)
    {x y : Addr × V} (hx : x ∈ cs.flatten) (hy : y ∈ cs.flatten)
    (heq : tr.eq (tr.getKey x.2) (tr.getKey y.2) = true) : x = y := by
  by_contra hne
  have hsymm : Std.Symm fun x y : Addr × V => tr.eq (tr.getKey x.2) (tr.getKey y.2) = false :=
    ⟨fun _ _ hxy => htr.symm_false hxy⟩
  have hfalse := List.Pairwise.forall h hx hy hne
  rw [heq] at hfalse
  cases hfalse

/-! ### Looking for a key -/

/-- When the key was not found, no cell has it. -/
lemma Place.Finds.eq_false (htr : tr.Lawful) {key : K} {cs : List (List (Addr × V))}
    {pl : Place V} (h : pl.Finds tr key cs) (hplaced : Placed tr cs) (hrest : pl.rest = [])
    {x : Addr × V} (hx : x ∈ cs.flatten) : tr.eq key (tr.getKey x.2) = false := by
  cases heq : tr.eq key (tr.getKey x.2) with
  | false => rfl
  | true =>
    obtain ⟨c, hc, hxc⟩ := List.mem_flatten.mp hx
    obtain ⟨i, hi⟩ := List.mem_iff_getElem?.mp hc
    have hpre : pl.pre.length = i := by
      rw [h.pre_length, htr.hash_eq heq]
      exact hplaced i c hi x hxc
    rw [← h.chains_eq, ← hpre] at hi
    simp only [Place.chains, Place.fill, List.getElem?_append_right le_rfl, Nat.sub_self,
      List.getElem?_cons_zero, Option.some.injEq, hrest, List.append_nil] at hi
    rw [← hi] at hxc
    rw [h.kept x hxc] at heq
    cases heq

/-- When a cell has the key, it is found. -/
lemma Place.Finds.rest_eq (htr : tr.Lawful) {key : K} {cs : List (List (Addr × V))}
    {pl : Place V} (h : pl.Finds tr key cs) (hplaced : Placed tr cs) (hdistinct : Distinct tr cs)
    {x : Addr × V} (hx : x ∈ cs.flatten) (heq : tr.eq key (tr.getKey x.2) = true) :
    ∃ rest, pl.rest = x :: rest := by
  cases hrest : pl.rest with
  | nil =>
    rw [h.eq_false htr hplaced hrest hx] at heq
    cases heq
  | cons y rest =>
    have hy := h.rest y (by rw [hrest]; rfl)
    have hmem : y ∈ cs.flatten := by
      rw [← h.chains_eq, pl.flatten_chains, Place.tail, hrest]
      simp
    have hyx := hdistinct.eq_of_eq htr hmem hx (htr.trans (htr.symm hy) heq)
    exact ⟨rest, by rw [hyx]⟩

/-! ### Iteration -/

/-- The place of a cell. -/
lemma exists_place {cs : List (List (Addr × V))} {xs ys : List (Addr × V)} {x : Addr × V}
    (h : cs.flatten = xs ++ x :: ys) :
    ∃ (pl : Place V) (rest : List (Addr × V)), pl.chains = cs ∧ pl.rest = x :: rest ∧
      ys = rest ++ pl.post.flatten ∧ xs = pl.pre.flatten ++ pl.kept := by
  induction cs generalizing xs with
  | nil => simp at h
  | cons c cs ih =>
    have hthere : ∀ zs, cs.flatten = zs ++ x :: ys → xs = c ++ zs →
        ∃ (pl : Place V) (rest : List (Addr × V)), pl.chains = c :: cs ∧ pl.rest = x :: rest ∧
          ys = rest ++ pl.post.flatten ∧ xs = pl.pre.flatten ++ pl.kept := by
      intro zs hzs hxs
      obtain ⟨pl, rest, hpl, hrest, hys, hzs'⟩ := ih hzs
      refine ⟨⟨c :: pl.pre, pl.kept, pl.rest, pl.post⟩, rest, ?_, hrest, hys, ?_⟩
      · rw [← hpl]
        rfl
      · rw [hxs, hzs', List.flatten_cons, List.append_assoc]
    rw [List.flatten_cons, List.append_eq_append_iff] at h
    rcases h with ⟨zs, hxs, hzs⟩ | ⟨zs, hc, hzs⟩
    · exact hthere zs hzs hxs
    · cases zs with
      | nil =>
        rw [List.append_nil] at hc
        exact hthere [] hzs.symm (by rw [hc, List.append_nil])
      | cons z zs =>
        rw [List.cons_append, List.cons.injEq] at hzs
        obtain ⟨rfl, hys⟩ := hzs
        refine ⟨⟨[], xs, x :: zs, cs⟩, zs, ?_, rfl, hys, rfl⟩
        rw [hc]
        rfl

/-- From `current`, and then from the bucket `pos` on, iteration goes through the cells `ys`. -/
def Ahead (s : State V) (current : Option Addr) (pos : Nat) (ys : List (Addr × V)) : Prop :=
  ∃ (pre post : List (List (Addr × V))) (rest : List (Addr × V)),
    Rep s.mem s.table.bucket (pre ++ post) ∧ pre.length = pos ∧ Seg s.mem current rest none ∧
      ys = rest ++ post.flatten ∧ current = ys.head?.map Prod.fst

lemma skipBuckets_eq {s : State V} {pre post : List (List (Addr × V))} {rest : List (Addr × V)}
    {p : Option Addr} {fuel : Nat} (h : Rep s.mem s.table.bucket (pre ++ post))
    (hp : Seg s.mem p rest none) (hfuel : post.length < fuel) :
    ∃ current pos, skipBuckets s fuel p pre.length = .ok (current, pos) ∧
      Ahead s current pos (rest ++ post.flatten) := by
  induction fuel generalizing pre post rest p with
  | zero => cases hfuel
  | succ fuel ih =>
    have hstart := hp.start_eq
    cases rest with
    | cons x rest =>
      subst hstart
      exact ⟨_, pre.length, rfl, pre, post, x :: rest, h, rfl, hp, rfl, rfl⟩
    | nil =>
      subst hstart
      cases post with
      | nil =>
        have hlen := h.length_eq
        rw [List.append_nil] at hlen
        refine ⟨none, pre.length, ?_, pre, [], [], h, rfl, rfl, rfl, rfl⟩
        simp only [List.head?_nil, Option.map_none, skipBuckets]
        rw [List.getElem?_eq_none hlen.le]
        rfl
      | cons c post =>
        obtain ⟨q, hq, hseg⟩ := h.slot
        obtain ⟨current, pos, hskip, hahead⟩ := @ih (pre ++ [c]) post c q (by simpa using h) hseg
          (Nat.lt_of_succ_lt_succ hfuel)
        refine ⟨current, pos, ?_, hahead⟩
        rw [List.length_append, List.length_singleton] at hskip
        simp only [List.head?_nil, Option.map_none, skipBuckets]
        rw [hq]
        exact hskip

/-- Each round of the loop of `operator+=` passes one cell. -/
lemma Ahead.next {s : State V} {current : Option Addr} {pos : Nat} {y : Addr × V}
    {ys : List (Addr × V)} (h : Ahead s current pos (y :: ys)) :
    ∃ (r current' : Option Addr) (pos' : Nat), current = some y.1 ∧
      s.mem.node y.1 = some ⟨y.2, r⟩ ∧
      skipBuckets s (s.table.bucket.length + 1) r pos = .ok (current', pos') ∧
      Ahead s current' pos' ys := by
  obtain ⟨pre, post, rest, hrep, rfl, hseg, hys, hcurrent⟩ := h
  cases rest with
  | nil =>
    rw [hcurrent] at hseg
    cases hseg
  | cons x rest =>
    rw [List.cons_append, List.cons.injEq] at hys
    obtain ⟨rfl, rfl⟩ := hys
    obtain ⟨r, -, hn, hnext⟩ := hseg
    have hfuel : post.length < s.table.bucket.length + 1 := by
      rw [hrep.length_eq, List.length_append]
      omega
    obtain ⟨current', pos', hskip, hahead⟩ := skipBuckets_eq hrep hnext hfuel
    exact ⟨r, current', pos', hcurrent, hn, hskip, hahead⟩

/-- A jump passes as many cells as it is long. -/
lemma advanceLoop_eq {s : State V} {current : Option Addr} {pos : Nat} {ys : List (Addr × V)}
    (h : Ahead s current pos ys) (n : Nat) :
    advanceLoop s n current pos = .ok (ys[n]?.map Prod.fst) := by
  induction n generalizing current pos ys with
  | zero =>
    obtain ⟨-, -, -, -, -, -, -, rfl⟩ := h
    rw [advanceLoop, List.head?_eq_getElem?]
    rfl
  | succ n ih =>
    cases ys with
    | nil =>
      obtain ⟨-, -, -, -, -, -, -, rfl⟩ := h
      rfl
    | cons y ys =>
      obtain ⟨r, current', pos', rfl, hn, hskip, hahead⟩ := h.next
      simp only [advanceLoop, deref, hn, bind, Except.bind, hskip]
      rw [ih hahead, List.getElem?_cons_succ]

/-- The operator `+=` goes to the cell so many places behind, or to the end. -/
lemma advance_eq_getElem? {s : State V} {cs : List (List (Addr × V))} {xs ys : List (Addr × V)}
    {x : Addr × V} (h : Rep s.mem s.table.bucket cs) (hplaced : Placed tr cs)
    (hcs : cs.flatten = xs ++ x :: ys) (n : Nat) :
    advance tr s (some x.1) n = .ok ((x :: ys)[n]?.map Prod.fst) := by
  obtain ⟨pl, rest, rfl, hrest, rfl, -⟩ := exists_place hcs
  obtain ⟨p, -, hseg⟩ := h.slot
  rw [hrest, Seg.append_iff] at hseg
  obtain ⟨q, -, r, rfl, hn, hnext⟩ := hseg
  have hchain : pl.chains[pl.pre.length]? = some (pl.kept ++ pl.rest) := by
    simp [Place.chains, Place.fill]
  have hlt := (List.getElem?_eq_some_iff.mp hchain).1
  have hval : tr.hash (tr.getKey x.2) % pl.chains.length = pl.pre.length := by
    apply hplaced _ _ hchain x
    rw [hrest]
    simp
  have hahead : Ahead s (some x.1) (pl.pre.length + 1) (x :: (rest ++ pl.post.flatten)) := by
    refine ⟨pl.pre ++ [pl.kept ++ pl.rest], pl.post, x :: rest, ?_, ?_, ⟨r, rfl, hn, hnext⟩,
      rfl, rfl⟩
    · simpa [Place.chains, Place.fill] using h
    · rw [List.length_append, List.length_singleton]
  simp only [advance, deref, hn, bind, Except.bind, hashNode, hashKey, h.length_eq,
    if_neg (Nat.zero_lt_of_lt hlt).ne', hval]
  exact advanceLoop_eq hahead n

/-- The operator `++` goes to the next cell. -/
lemma advance_eq {s : State V} {cs : List (List (Addr × V))} {xs ys : List (Addr × V)}
    {x : Addr × V} (h : Rep s.mem s.table.bucket cs) (hplaced : Placed tr cs)
    (hcs : cs.flatten = xs ++ x :: ys) :
    advance tr s (some x.1) 1 = .ok (ys.head?.map Prod.fst) := by
  rw [advance_eq_getElem? h hplaced hcs, List.getElem?_cons_succ, List.head?_eq_getElem?]

/-- The loop of `equal_range` goes to the end of the cells with the key. -/
lemma equalLoop_eq {s : State V} {cs : List (List (Addr × V))} {xs ys : List (Addr × V)} {key : K}
    {fuel : Nat} (h : Rep s.mem s.table.bucket cs) (hplaced : Placed tr cs)
    (hcs : cs.flatten = xs ++ ys) (hfuel : ys.length < fuel) :
    equalLoop tr s key fuel (ys.head?.map Prod.fst) =
      .ok ((ys.dropWhile fun y => tr.eq (tr.getKey y.2) key).head?.map Prod.fst) := by
  induction fuel generalizing xs ys with
  | zero => cases hfuel
  | succ fuel ih =>
    cases ys with
    | nil => rfl
    | cons y ys =>
      obtain ⟨a, v⟩ := y
      have hmem : (a, v) ∈ cs.flatten := by
        rw [hcs]
        simp
      obtain ⟨r, hn⟩ := h.node_of_mem hmem
      simp only [List.head?_cons, Option.map_some, equalLoop, deref, hn, bind, Except.bind]
      by_cases hkey : tr.eq (tr.getKey v) key = true
      · rw [if_pos hkey, advance_eq h hplaced hcs, List.dropWhile_cons, if_pos hkey]
        exact @ih (xs ++ [(a, v)]) ys (by rw [hcs]; simp) (Nat.lt_of_succ_lt_succ hfuel)
      · rw [if_neg hkey, List.dropWhile_cons, if_neg hkey]
        rfl

/-- `equal_range` starts at the first cell with the key. -/
lemma equalRange_eq {s : State V} {cs : List (List (Addr × V))} (h : Rep s.mem s.table.bucket cs)
    (hplaced : Placed tr cs) (hlen : 0 < cs.length) (key : K) :
    ∃ pl : Place V, pl.Finds tr key cs ∧ ∃ stop, equalRange tr s key =
      .ok (pl.rest.head?.map Prod.fst, stop) := by
  obtain ⟨pl, hpl, hfind⟩ := @findNode_eq K V tr s cs h hlen key
  have hcs := hpl.chains_eq
  subst hcs
  obtain ⟨p, hload, hseg⟩ := Place.load h
  rw [hseg.start_eq] at hload
  have hloop : ∃ stop, equalLoop tr s key (s.mem.size + 1) (pl.rest.head?.map Prod.fst) =
      .ok stop := by
    cases hrest : pl.rest with
    | nil => exact ⟨none, rfl⟩
    | cons x rest =>
      have htail : (x :: rest).head? = pl.tail.head? := by
        rw [Place.tail, hrest]
        rfl
      have hle := h.length_flatten_le
      rw [pl.flatten_chains, List.length_append] at hle
      rw [htail]
      exact ⟨_, equalLoop_eq h hplaced pl.flatten_chains (by omega)⟩
  obtain ⟨stop, hloop⟩ := hloop
  refine ⟨pl, hpl, stop, ?_⟩
  simp only [equalRange, hfind, hload, hloop, bind, Except.bind]
  rfl

/-- `find` points to the first cell with the key. -/
lemma find_eq {s : State V} {cs : List (List (Addr × V))} (h : Rep s.mem s.table.bucket cs)
    (hplaced : Placed tr cs) (hlen : 0 < cs.length) (key : K) :
    ∃ pl : Place V, pl.Finds tr key cs ∧ find tr s key = .ok (pl.rest.head?.map Prod.fst) := by
  obtain ⟨pl, hpl, stop, hrange⟩ := equalRange_eq h hplaced hlen key
  refine ⟨pl, hpl, ?_⟩
  simp only [find, hrange, bind, Except.bind]
  rfl

/-! ### Removing a range of distinct keys -/

lemma Rep.notMem_of_flatten {mem : Memory V} {bucket : List (Option Addr)}
    {cs : List (List (Addr × V))} {xs ys : List (Addr × V)} {x : Addr × V}
    (h : Rep mem bucket cs) (hcs : cs.flatten = xs ++ x :: ys) :
    x.1 ∉ xs.map Prod.fst ∧ x.1 ∉ ys.map Prod.fst := by
  have hnodup := h.nodup
  rw [addrs, hcs, List.map_append, List.map_cons, List.nodup_append, List.nodup_cons] at hnodup
  obtain ⟨-, ⟨hys, -⟩, hxs⟩ := hnodup
  exact ⟨fun hmem => hxs _ hmem _ List.mem_cons_self rfl, hys⟩

lemma ne_head?_of_notMem {a : Addr} {ys : List (Addr × V)} (h : a ∉ ys.map Prod.fst) :
    some a ≠ ys.head?.map Prod.fst := by
  intro heq
  cases ys with
  | nil => cases heq
  | cons y ys =>
    apply h
    rw [Option.some.inj heq]
    exact List.mem_cons_self

lemma upTo_append {l ys : List (Addr × V)}
    (h : ((l ++ ys).map Prod.fst).Nodup) :
    upTo (ys.head?.map Prod.fst) (l ++ ys) = l.map Prod.fst := by
  induction l with
  | nil =>
    cases ys with
    | nil => rfl
    | cons y ys => simp [upTo]
  | cons x l ih =>
    rw [List.cons_append, List.map_cons, List.nodup_cons] at h
    rw [List.map_append, List.mem_append, not_or] at h
    have hne := ne_head?_of_notMem h.1.2
    rw [← List.map_append] at h
    have htail := ih h.2
    rw [upTo] at htail
    rw [upTo, List.cons_append, List.map_cons, List.takeWhile_cons, if_pos (by simpa using hne),
      htail]
    rfl

/-- `erase` removes its range, and before it what the chain of its first cell has from the first
cell with the key. -/
lemma erase_tail {s : State V} {cs : List (List (Addr × V))} {pl : Place V}
    {earlier gone ys : List (Addr × V)} {x : Addr × V} (h : Owns s cs) (hlen : 0 < cs.length)
    (hpl : pl.Finds tr (tr.getKey x.2) cs)
    (hfind : findNode tr s (tr.getKey x.2) = .ok (pl.link s.table.version)) (hrest : pl.rest ≠ [])
    (htail : pl.tail = earlier ++ x :: (gone ++ ys)) :
    ∃ s', erase tr s (some x.1) (ys.head?.map Prod.fst) = .ok s' ∧
      Updates s s' cs (sized tr s.table.avgBucketCount
        (without ((earlier ++ x :: gone).map Prod.fst) cs).flatten.length
        (without ((earlier ++ x :: gone).map Prod.fst) cs)) := by
  have hflat : cs.flatten = (pl.pre.flatten ++ pl.kept ++ earlier) ++ x :: (gone ++ ys) := by
    rw [← hpl.chains_eq, pl.flatten_chains, htail]
    simp
  have hmem : x ∈ cs.flatten := by
    rw [hflat]
    simp
  obtain ⟨r, hn⟩ := h.rep.node_of_mem hmem
  have hys : x.1 ∉ ys.map Prod.fst := by
    have hnot := (h.rep.notMem_of_flatten hflat).2
    rw [List.map_append, List.mem_append, not_or] at hnot
    exact hnot.2
  have hnodup : (((earlier ++ x :: gone) ++ ys).map Prod.fst).Nodup := by
    have hnodup := h.rep.nodup
    rw [addrs, hflat] at hnodup
    refine hnodup.sublist (List.Sublist.map _ ?_)
    simp
  have hlast : ∀ b, ys.head?.map Prod.fst = some b → b ∈ pl.tail.map Prod.fst := by
    intro b hb
    rw [htail]
    cases ys with
    | nil => cases hb
    | cons y ys =>
      cases hb
      simp
  have hup : upTo (ys.head?.map Prod.fst) pl.tail = (earlier ++ x :: gone).map Prod.fst := by
    rw [← upTo_append hnodup, htail]
    simp
  rw [← hup]
  exact erase_eq h hlen hn (ne_head?_of_notMem hys) hpl hfind (fun hnil => absurd hnil hrest) hlast

/-- When keys are distinct, `erase` removes just the range it is given. -/
lemma erase_range {s : State V} {cs : List (List (Addr × V))} {xs gone ys : List (Addr × V)}
    {x : Addr × V} (htr : tr.Lawful) (h : Owns s cs) (hplaced : Placed tr cs)
    (hdistinct : Distinct tr cs) (hlen : 0 < cs.length)
    (hcs : cs.flatten = xs ++ ((x :: gone) ++ ys)) :
    ∃ s', erase tr s (some x.1) (ys.head?.map Prod.fst) = .ok s' ∧
      Updates s s' cs (sized tr s.table.avgBucketCount
        (without ((x :: gone).map Prod.fst) cs).flatten.length
        (without ((x :: gone).map Prod.fst) cs)) := by
  rw [List.cons_append] at hcs
  have hmem : x ∈ cs.flatten := by
    rw [hcs]
    simp
  obtain ⟨hxs, hys⟩ := h.rep.notMem_of_flatten hcs
  obtain ⟨pl, hpl, hfind⟩ := @findNode_eq K V tr s cs h.rep hlen (tr.getKey x.2)
  obtain ⟨rest, hrest⟩ := hpl.rest_eq htr hplaced hdistinct hmem (htr.refl _)
  have htail : pl.tail = x :: (gone ++ ys) := by
    have hflat := pl.flatten_chains
    rw [hpl.chains_eq, hcs, Place.tail, hrest, List.cons_append] at hflat
    obtain ⟨-, -, heq⟩ := (List.append_cons_inj_of_notMem
      (fun hmem => hxs (List.mem_map_of_mem hmem))
      fun hmem => hys (List.mem_map_of_mem hmem)).mp hflat
    rw [Place.tail, hrest, List.cons_append, ← heq]
  apply @erase_tail K V tr s cs pl [] gone ys x h hlen hpl hfind _ htail
  rw [hrest]
  exact List.cons_ne_nil _ _

end HashToolbox

end Utilmm
