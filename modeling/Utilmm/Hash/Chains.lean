import Mathlib.Data.List.TakeWhile
import Utilmm.Hash.Table

/-!
# The chains of a table

A table in memory is a list of chains, one for each bucket: the cells which are visited from the
slot of the bucket until the null pointer. A `Link` found by walking a chain is a place between two
cells.
-/

namespace Utilmm

namespace HashToolbox

variable {K V : Type}

/-- The addresses of the nodes of all the chains. -/
def addrs (cs : List (List (Addr × V))) : List Addr := cs.flatten.map Prod.fst

@[simp] lemma addrs_nil : addrs ([] : List (List (Addr × V))) = [] := rfl

@[simp] lemma addrs_cons (c : List (Addr × V)) (cs : List (List (Addr × V))) :
    addrs (c :: cs) = c.map Prod.fst ++ addrs cs := by
  simp [addrs]

@[simp] lemma addrs_append (cs cs' : List (List (Addr × V))) :
    addrs (cs ++ cs') = addrs cs ++ addrs cs' := by
  simp [addrs]

/-- The buckets hold the chains `cs`. -/
structure Rep (mem : Memory V) (bucket : List (Option Addr)) (cs : List (List (Addr × V))) :
    Prop where
  length_eq : bucket.length = cs.length
  chain : ∀ {i : Nat} {p : Option Addr} {c : List (Addr × V)},
    bucket[i]? = some p → cs[i]? = some c → Seg mem p c none
  nodup : (addrs cs).Nodup

namespace Rep

variable {mem mem' : Memory V} {bucket : List (Option Addr)} {cs pre post : List (List (Addr × V))}
  {c c' : List (Addr × V)} {p : Option Addr}

lemma nil (mem : Memory V) : Rep mem [] [] := by
  refine ⟨rfl, fun h => ?_, List.nodup_nil⟩
  simp at h

lemma cons_iff : Rep mem (p :: bucket) (c :: cs) ↔
    Seg mem p c none ∧ Rep mem bucket cs ∧ (addrs (c :: cs)).Nodup := by
  constructor
  · intro h
    have hnodup := h.nodup
    rw [addrs_cons] at hnodup
    refine ⟨@Rep.chain _ _ _ _ h 0 p c rfl rfl, ⟨?_, fun {i p c} hp hc => ?_, ?_⟩, h.nodup⟩
    · simpa using h.length_eq
    · exact @Rep.chain _ _ _ _ h (i + 1) p c (by simpa using hp) (by simpa using hc)
    · exact hnodup.of_append_right
  · rintro ⟨hseg, h, hnodup⟩
    refine ⟨by simpa using h.length_eq, fun {i q d} hq hd => ?_, hnodup⟩
    cases i with
    | zero =>
      simp only [List.getElem?_cons_zero, Option.some.injEq] at hq hd
      rw [← hq, ← hd]
      exact hseg
    | succ i =>
      rw [List.getElem?_cons_succ] at hq hd
      exact h.chain hq hd

/-- Only the nodes of the table matter. -/
lemma congr (h : Rep mem bucket cs) (hmem : ∀ a ∈ addrs cs, mem'.node a = mem.node a) :
    Rep mem' bucket cs := by
  refine ⟨h.length_eq, fun {i p c} hp hc => ?_, h.nodup⟩
  apply (h.chain hp hc).congr
  intro a ha
  apply hmem
  obtain ⟨x, hx, rfl⟩ := List.mem_map.mp ha
  exact List.mem_map_of_mem (List.mem_flatten.mpr ⟨c, List.mem_of_getElem? hc, hx⟩)

/-- The slot of a bucket holds its chain. -/
lemma slot (h : Rep mem bucket (pre ++ c :: post)) :
    ∃ p, bucket[pre.length]? = some p ∧ Seg mem p c none := by
  have hlt : pre.length < bucket.length := by
    rw [h.length_eq]
    simp
  refine ⟨bucket[pre.length], List.getElem?_eq_getElem hlt, ?_⟩
  apply h.chain (List.getElem?_eq_getElem hlt)
  simp

lemma addr_lt_size (h : Rep mem bucket cs) {a : Addr} (ha : a ∈ addrs cs) : a < mem.size := by
  obtain ⟨x, hx, rfl⟩ := List.mem_map.mp ha
  obtain ⟨c, hc, hxc⟩ := List.mem_flatten.mp hx
  obtain ⟨pre, post, rfl⟩ := List.append_of_mem hc
  obtain ⟨p, -, hseg⟩ := h.slot
  exact hseg.addr_lt_size (List.mem_map_of_mem hxc)

lemma node_of_mem (h : Rep mem bucket cs) {x : Addr × V} (hx : x ∈ cs.flatten) :
    ∃ r, mem.node x.1 = some ⟨x.2, r⟩ := by
  obtain ⟨c, hc, hxc⟩ := List.mem_flatten.mp hx
  obtain ⟨pre, post, rfl⟩ := List.append_of_mem hc
  obtain ⟨p, -, hseg⟩ := h.slot
  exact hseg.node_of_mem hxc

/-- No cell of a table is followed by the first one of a chain. -/
lemma next_of_mem (h : Rep mem bucket cs) {x : Addr × V} {n : Node V} (hx : x ∈ cs.flatten)
    (hn : mem.node x.1 = some n) : n.next = none ∨ ∃ c ∈ cs, ∃ y ∈ c.tail, n.next = some y.1 := by
  obtain ⟨c, hc, hxc⟩ := List.mem_flatten.mp hx
  obtain ⟨pre, post, rfl⟩ := List.append_of_mem hc
  obtain ⟨p, -, hseg⟩ := h.slot
  cases hseg.next_of_mem hxc hn with
  | inl hnone => exact Or.inl hnone
  | inr hsome => exact Or.inr ⟨c, hc, hsome⟩

/-- There are not more nodes than addresses. -/
lemma length_flatten_le (h : Rep mem bucket cs) : cs.flatten.length ≤ mem.size := by
  have hlen := length_le_of_nodup h.nodup fun a ha => h.addr_lt_size ha
  rwa [addrs, List.length_map] at hlen

lemma length_le (h : Rep mem bucket (pre ++ c :: post)) : c.length ≤ mem.size := by
  have hlen := h.length_flatten_le
  simp only [List.flatten_append, List.flatten_cons, List.length_append] at hlen
  omega

/-- A slot is set to a chain, and the nodes of the other chains stay as they are. -/
lemma set (h : Rep mem bucket (pre ++ c :: post)) (hc : Seg mem' p c' none)
    (hmem : ∀ a ∈ addrs pre ++ addrs post, mem'.node a = mem.node a)
    (hnodup : (addrs (pre ++ c' :: post)).Nodup) :
    Rep mem' (bucket.set pre.length p) (pre ++ c' :: post) := by
  refine ⟨by simpa using h.length_eq, fun {i q d} hq hd => ?_, hnodup⟩
  by_cases hi : pre.length = i
  · subst hi
    have hlt : pre.length < bucket.length := by
      rw [h.length_eq]
      simp
    rw [List.getElem?_set_self hlt] at hq
    cases hq
    simp only [List.getElem?_append_right le_rfl, Nat.sub_self, List.getElem?_cons_zero,
      Option.some.injEq] at hd
    rw [← hd]
    exact hc
  · rw [List.getElem?_set_ne hi] at hq
    have hd' : (pre ++ c :: post)[i]? = some d := by
      rw [← List.getElem?_set_ne (a := c') hi]
      simpa using hd
    apply (h.chain hq hd').congr
    intro a ha
    apply hmem
    rw [← addrs_append]
    obtain ⟨x, hx, rfl⟩ := List.mem_map.mp ha
    apply List.mem_map_of_mem
    apply List.mem_flatten.mpr
    refine ⟨d, ?_, hx⟩
    have herase : (pre ++ c :: post).eraseIdx pre.length = pre ++ post := by
      simp [List.eraseIdx_append_of_length_le]
    rw [← herase, List.mem_eraseIdx_iff_getElem?]
    exact ⟨i, Ne.symm hi, hd'⟩

end Rep

/-- A node which can be reached from a bucket. -/
def Stored (s : State V) (a : Addr) : Prop :=
  ∃ p ∈ s.table.bucket, ∃ c : List (Addr × V), Seg s.mem p c none ∧ a ∈ c.map Prod.fst

/-- The stored nodes are those of the chains. -/
lemma Rep.stored_iff {s : State V} {cs : List (List (Addr × V))}
    (h : Rep s.mem s.table.bucket cs) {a : Addr} : Stored s a ↔ a ∈ addrs cs := by
  constructor
  · rintro ⟨p, hp, c, hseg, ha⟩
    obtain ⟨i, hi⟩ := List.mem_iff_getElem?.mp hp
    have hlt : i < cs.length := h.length_eq ▸ (List.getElem?_eq_some_iff.mp hi).1
    rw [hseg.unique (h.chain hi (List.getElem?_eq_getElem hlt))] at ha
    obtain ⟨x, hx, rfl⟩ := List.mem_map.mp ha
    exact List.mem_map_of_mem (List.mem_flatten.mpr ⟨_, List.getElem_mem hlt, hx⟩)
  · intro ha
    obtain ⟨x, hx, rfl⟩ := List.mem_map.mp ha
    obtain ⟨c, hc, hxc⟩ := List.mem_flatten.mp hx
    obtain ⟨pre, post, rfl⟩ := List.append_of_mem hc
    obtain ⟨p, hp, hseg⟩ := h.slot
    exact ⟨p, List.mem_of_getElem? hp, c, hseg, List.mem_map_of_mem hxc⟩

/-! ### Places -/

/-- The link at the end of the cells `c` when `l` is the link to the first one. -/
def endLink (l : Link) : List (Addr × V) → Link
  | [] => l
  | (a, _) :: c => endLink (.next a) c

lemma endLink_append (l : Link) (c c' : List (Addr × V)) :
    endLink l (c ++ c') = endLink (endLink l c) c' := by
  induction c generalizing l with
  | nil => rfl
  | cons x c ih => exact ih (.next x.1)

/-- A place in a table: after the cells `kept` of the chain `kept ++ rest`. -/
structure Place (V : Type) where
  pre : List (List (Addr × V))
  kept : List (Addr × V)
  rest : List (Addr × V)
  post : List (List (Addr × V))

namespace Place

/-- The chains of the table, with `rest` replaced. -/
def fill (pl : Place V) (rest : List (Addr × V)) : List (List (Addr × V)) :=
  pl.pre ++ (pl.kept ++ rest) :: pl.post

/-- The chains of the table. -/
def chains (pl : Place V) : List (List (Addr × V)) := pl.fill pl.rest

/-- The link at the place. -/
def link (pl : Place V) (version : Nat) : Link := endLink (.slot version pl.pre.length) pl.kept

/-- The cells from the place on, in the order of iteration. -/
def tail (pl : Place V) : List (Addr × V) := pl.rest ++ pl.post.flatten

lemma flatten_chains (pl : Place V) :
    pl.chains.flatten = pl.pre.flatten ++ pl.kept ++ pl.tail := by
  simp [chains, fill, tail]

lemma addrs_fill (pl : Place V) (rest : List (Addr × V)) :
    addrs (pl.fill rest) =
      addrs pl.pre ++ (pl.kept.map Prod.fst ++ (rest.map Prod.fst ++ addrs pl.post)) := by
  simp [fill]

/-- The link holds the cells which follow. -/
lemma load {s : State V} {pl : Place V} (h : Rep s.mem s.table.bucket pl.chains) :
    ∃ p, s.load (pl.link s.table.version) = .ok p ∧ Seg s.mem p pl.rest none := by
  obtain ⟨p, hp, hseg⟩ := h.slot
  rw [link]
  rcases List.eq_nil_or_concat pl.kept with hk | ⟨kept, ⟨a, v⟩, hk⟩
  · rw [hk] at hseg ⊢
    refine ⟨p, ?_, hseg⟩
    rw [endLink, State.load, if_pos rfl, hp]
  · rw [hk, List.concat_eq_append] at hseg ⊢
    rw [Seg.append_iff] at hseg
    obtain ⟨q, hkept, hrest⟩ := hseg
    rw [Seg.append_iff] at hkept
    obtain ⟨r, -, r', -, hn, hr'⟩ := hkept
    refine ⟨q, ?_, hrest⟩
    rw [endLink_append, endLink, endLink, State.load, deref, hn]
    rw [Seg.nil_iff.mp hr']
    rfl

/-- Assigning to the link replaces the cells which follow. -/
lemma store {s : State V} {pl : Place V} {rest : List (Addr × V)} {p : Option Addr}
    (h : Rep s.mem s.table.bucket pl.chains) (hp : Seg s.mem p rest none)
    (hnodup : (addrs (pl.fill rest)).Nodup) :
    ∃ s', s.store (pl.link s.table.version) p = .ok s' ∧
      Rep s'.mem s'.table.bucket (pl.fill rest) ∧
      (∀ a ∉ pl.kept.map Prod.fst, s'.mem.node a = s.mem.node a) ∧ s'.mem.size = s.mem.size ∧
      s'.table = { s.table with bucket := s'.table.bucket } := by
  obtain ⟨q, hq, hseg⟩ := h.slot
  have hlt : pl.pre.length < s.table.bucket.length := by
    rw [h.length_eq]
    simp [chains, fill]
  rw [link]
  rcases List.eq_nil_or_concat pl.kept with hk | ⟨kept, ⟨a, v⟩, hk⟩
  · rw [hk, endLink, State.store, if_pos rfl, if_pos hlt]
    refine ⟨_, rfl, ?_, fun _ _ => rfl, rfl, rfl⟩
    apply h.set
    · rw [hk]
      exact hp
    · exact fun _ _ => rfl
    · exact hnodup
  · rw [List.concat_eq_append] at hk
    have hsplit := hseg
    rw [hk, Seg.append_iff] at hsplit
    obtain ⟨r, hkept, -⟩ := hsplit
    obtain ⟨n, hn⟩ := hkept.node_of_mem (x := (a, v)) (by simp)
    obtain ⟨hakept, harest, hapre, hapost⟩ : a ∉ kept.map Prod.fst ∧ a ∉ rest.map Prod.fst ∧
        a ∉ addrs pl.pre ∧ a ∉ addrs pl.post := by
      rw [addrs_fill, hk] at hnodup
      grind
    rw [hk, endLink_append, endLink, endLink, State.store, deref, hn]
    refine ⟨_, rfl, ?_, ?_, ?_, rfl⟩
    · have hchain : Seg (s.mem.write a ⟨v, p⟩) q (pl.kept ++ rest) none := by
        rw [hk, Seg.append_iff]
        refine ⟨p, hkept.relink hakept, hp.congr fun b hb => Memory.node_write_of_ne _ ?_⟩
        rintro rfl
        exact harest hb
      have hset : s.table.bucket = s.table.bucket.set pl.pre.length q := by
        rw [List.getElem?_eq_getElem hlt, Option.some.injEq] at hq
        rw [← hq, List.set_getElem_self]
      rw [hset]
      apply h.set hchain _ hnodup
      intro b hb
      apply Memory.node_write_of_ne
      rintro rfl
      rw [List.mem_append] at hb
      exact hb.elim hapre hapost
    · intro b hb
      apply Memory.node_write_of_ne
      rintro rfl
      simp at hb
    · exact Memory.size_write _ _ _

/-- The chains with a new cell at the place. -/
def add (pl : Place V) (x : Addr × V) : List (List (Addr × V)) := pl.fill (x :: pl.rest)

lemma perm_add (pl : Place V) (x : Addr × V) :
    (pl.add x).flatten.Perm (x :: pl.chains.flatten) := by
  simp only [add, chains, fill, List.flatten_append, List.flatten_cons, List.append_assoc,
    List.cons_append]
  refine List.Perm.trans ?_ List.perm_middle
  exact List.perm_middle.append_left _

lemma perm_addrs_add (pl : Place V) (x : Addr × V) :
    (addrs (pl.add x)).Perm (x.1 :: addrs pl.chains) := (pl.perm_add x).map Prod.fst

lemma kept_subset (pl : Place V) : pl.kept.map Prod.fst ⊆ addrs pl.chains := by
  rw [chains, addrs_fill]
  intro a ha
  exact List.mem_append_right _ (List.mem_append_left _ ha)

/-- A new node is linked in at the place. -/
lemma store_new {s : State V} {pl : Place V} {p : Option Addr}
    (h : Rep s.mem s.table.bucket pl.chains) (hp : Seg s.mem p pl.rest none) (v : V) :
    ∃ s', State.store { s with mem := s.mem.alloc ⟨v, p⟩ } (pl.link s.table.version)
        (some s.mem.size) = .ok s' ∧
      Rep s'.mem s'.table.bucket (pl.add (s.mem.size, v)) ∧
      s.mem.Frame s'.mem (addrs pl.chains) ∧
      (∀ a < s.mem.size, a ∉ pl.kept.map Prod.fst → s'.mem.node a = s.mem.node a) ∧
      s'.mem.size = s.mem.size + 1 ∧ s'.table = { s.table with bucket := s'.table.bucket } := by
  have hnew : ∀ a ∈ addrs pl.chains, a < s.mem.size := fun a ha => h.addr_lt_size ha
  have hrep₁ : Rep (s.mem.alloc ⟨v, p⟩) s.table.bucket pl.chains :=
    h.congr fun a ha => Memory.node_alloc_of_lt _ (hnew a ha)
  have hseg₁ : Seg (s.mem.alloc ⟨v, p⟩) (some s.mem.size) ((s.mem.size, v) :: pl.rest) none := by
    refine ⟨p, rfl, Memory.node_alloc_self _ _, hp.congr fun a ha => ?_⟩
    exact Memory.node_alloc_of_lt _ (hp.addr_lt_size ha)
  have hnodup : (addrs (pl.add (s.mem.size, v))).Nodup := by
    rw [(pl.perm_addrs_add _).nodup_iff, List.nodup_cons]
    exact ⟨fun ha => lt_irrefl _ (hnew _ ha), h.nodup⟩
  obtain ⟨s', hstore, hrep, hmem, hsize, htable⟩ :=
    @Place.store V ⟨s.mem.alloc ⟨v, p⟩, s.table⟩ pl _ _ hrep₁ hseg₁ hnodup
  rw [Memory.size_alloc] at hsize
  have hkeep : ∀ a < s.mem.size, a ∉ pl.kept.map Prod.fst → s'.mem.node a = s.mem.node a := by
    intro a ha hkept
    rw [hmem a hkept, Memory.node_alloc_of_lt _ ha]
  refine ⟨s', hstore, hrep, ⟨?_, fun ha hnot => ?_⟩, hkeep, hsize, htable⟩
  · rw [hsize]
    exact Nat.le_succ _
  · exact hkeep _ ha fun hkept => hnot (pl.kept_subset hkept)

/-- Move the place behind the cells which satisfy `p`. -/
def seek (pl : Place V) (p : Addr × V → Bool) : Place V :=
  ⟨pl.pre, pl.kept ++ pl.rest.takeWhile p, pl.rest.dropWhile p, pl.post⟩

@[simp] lemma chains_seek (pl : Place V) (p : Addr × V → Bool) :
    (pl.seek p).chains = pl.chains := by
  simp [chains, fill, seek]

end Place

lemma exists_split {cs : List (List (Addr × V))} {i : Nat} (h : i < cs.length) :
    ∃ pre c post, cs = pre ++ c :: post ∧ pre.length = i := by
  refine ⟨cs.take i, cs[i], cs.drop (i + 1), ?_, ?_⟩
  · simp
  · simp [h.le]

/-! ### Looking for a key -/

variable {tr : Traits K V}

/-- The place `pl` in the chains `cs` is where the nodes with `key` start, or the end of their
bucket when there are none. -/
structure Place.Finds (tr : Traits K V) (key : K) (cs : List (List (Addr × V))) (pl : Place V) :
    Prop where
  chains_eq : pl.chains = cs
  pre_length : pl.pre.length = tr.hash key % cs.length
  kept : ∀ x ∈ pl.kept, tr.eq key (tr.getKey x.2) = false
  rest : ∀ x ∈ pl.rest.head?, tr.eq key (tr.getKey x.2) = true

lemma findLoop_eq {s : State V} {key : K} {fuel : Nat} {pl : Place V}
    (h : Rep s.mem s.table.bucket pl.chains) (hfuel : pl.rest.length < fuel) :
    findLoop tr s key fuel (pl.link s.table.version) =
      .ok ((pl.seek fun x => !tr.eq key (tr.getKey x.2)).link s.table.version) := by
  induction fuel generalizing pl with
  | zero => cases hfuel
  | succ fuel ih =>
    obtain ⟨p, hload, hseg⟩ := Place.load h
    obtain ⟨pre, kept, rest, post⟩ := pl
    rw [findLoop, hload]
    cases rest with
    | nil =>
      rw [Seg.nil_iff.mp hseg]
      simp [Place.seek, bind, Except.bind, pure, Except.pure]
    | cons x rest =>
      obtain ⟨a, v⟩ := x
      obtain ⟨r, rfl, hn, -⟩ := hseg
      simp only [bind, Except.bind, deref, hn]
      by_cases hkey : tr.eq key (tr.getKey v) = true
      · simp [hkey, Place.seek, pure, Except.pure]
      · rw [if_neg hkey]
        have hrest := @ih ⟨pre, kept ++ [(a, v)], rest, post⟩
        simp only [Place.link, endLink_append, endLink] at hrest
        rw [hrest]
        · simp [Place.link, Place.seek, hkey, endLink_append, endLink]
        · simpa [Place.chains, Place.fill] using h
        · simpa using hfuel

/-- `find_node` ends at the place of the key. -/
lemma findNode_eq {s : State V} {cs : List (List (Addr × V))} (h : Rep s.mem s.table.bucket cs)
    (hlen : 0 < cs.length) (key : K) :
    ∃ pl : Place V, pl.Finds tr key cs ∧ findNode tr s key = .ok (pl.link s.table.version) := by
  obtain ⟨pre, c, post, hcs, hpre⟩ := exists_split (Nat.mod_lt (tr.hash key) hlen)
  have hpl : (Place.mk pre [] c post).chains = cs := hcs.symm
  refine ⟨(Place.mk pre [] c post).seek fun x => !tr.eq key (tr.getKey x.2), ⟨?_, hpre, ?_, ?_⟩, ?_⟩
  · rw [Place.chains_seek, hpl]
  · intro x hx
    change x ∈ c.takeWhile _ at hx
    simpa using List.mem_takeWhile_imp hx
  · intro x hx
    have hhead := List.head?_dropWhile_not (fun x => !tr.eq key (tr.getKey x.2)) c
    change x ∈ (c.dropWhile _).head? at hx
    rw [Option.mem_def.mp hx] at hhead
    simpa using hhead
  · rw [findNode, hashKey, h.length_eq, if_neg hlen.ne', ← hpre]
    rw [hcs] at h
    exact @findLoop_eq K V tr s key _ ⟨pre, [], c, post⟩ h (Nat.lt_succ_of_le h.length_le)

end HashToolbox

end Utilmm
