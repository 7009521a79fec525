import Utilmm.Core.Runs
import Utilmm.Hash.Duplicates

/-!
# Ranges of iterators

A table is changed by `insert_unique`, `insert_multiple`, `erase` and `clear`. The range that
`equal_range` returns is always just the run of its key. But `erase` goes to the start of the run of
its first node, wherever in the run the node is.
-/

namespace Utilmm

namespace HashToolbox

variable {K V : Type} {tr : Traits K V}

/-- From `it`, the operator `++` visits the nodes `l` until `last`. -/
inductive Between (tr : Traits K V) (s : State V) (last : Option Addr) :
    Option Addr → List Addr → Prop
  | stop : Between tr s last last []
  | next {a : Addr} {it : Option Addr} {l : List Addr} (hne : some a ≠ last)
      (hadvance : advance tr s (some a) 1 = .ok it) (h : Between tr s last it l) :
      Between tr s last (some a) (a :: l)

/-- A table with one bucket and no node. -/
def State.oneBucket (mem : Memory V) (version : Nat) : State V :=
  ⟨mem, { Table.new with bucket := [none], version := version }⟩

/-- The operations which change a table. -/
inductive Change (V : Type)
  | insertUnique (v : V)
  | insertMultiple (v : V)
  | erase (first last : Option Addr)
  | clear

def State.change (tr : Traits K V) (s : State V) : Change V → Except Fault (State V)
  | .insertUnique v => do
    let (s, _) ← HashToolbox.insertUnique tr s v
    return s
  | .insertMultiple v => do
    let (s, _) ← HashToolbox.insertMultiple tr s v
    return s
  | .erase first last => HashToolbox.erase tr s first last
  | .clear => HashToolbox.clear tr s

/-- `first` points into the table or is `end`, and `last` is reached from there. -/
def ValidRange (tr : Traits K V) (s : State V) (first last : Option Addr) : Prop :=
  (∀ a, first = some a → Stored s a) ∧ ∃ l, Between tr s last first l

/-- A table alone in a memory. -/
def tableMachine (tr : Traits K V) : Machine (State V) (Change V) Fault where
  legal s
    | .erase first last => ValidRange tr s first last
    | _ => True
  step := State.change tr

/-! ### What is between two iterators -/

lemma Between.of_cells {s : State V} {cs : List (List (Addr × V))} {xs gone ys : List (Addr × V)}
    (h : Rep s.mem s.table.bucket cs) (hplaced : Placed tr cs)
    (hcs : cs.flatten = xs ++ (gone ++ ys)) :
    Between tr s (ys.head?.map Prod.fst) ((gone ++ ys).head?.map Prod.fst) (gone.map Prod.fst) := by
  induction gone generalizing xs with
  | nil => exact .stop
  | cons x gone ih =>
    refine .next ?_ (advance_eq h hplaced hcs) (@ih (xs ++ [x]) (by rw [hcs]; simp))
    rw [List.cons_append] at hcs
    have hnot := (h.notMem_of_flatten hcs).2
    rw [List.map_append, List.mem_append, not_or] at hnot
    exact ne_head?_of_notMem hnot.2

lemma Between.ne {s : State V} {first last : Option Addr} {a : Addr} {l : List Addr}
    (h : Between tr s last first (a :: l)) : first ≠ last := by
  cases h with
  | next hne => exact hne

/-- What is visited are the cells in the order of the chains. -/
lemma Between.cells {s : State V} {cs : List (List (Addr × V))} {xs tail : List (Addr × V)}
    {first last : Option Addr} {l : List Addr} (hl : Between tr s last first l)
    (h : Rep s.mem s.table.bucket cs) (hplaced : Placed tr cs) (hcs : cs.flatten = xs ++ tail)
    (hfirst : first = tail.head?.map Prod.fst) :
    ∃ gone ys, tail = gone ++ ys ∧ last = ys.head?.map Prod.fst ∧ l = gone.map Prod.fst := by
  induction hl generalizing xs tail with
  | stop => exact ⟨[], tail, rfl, hfirst, rfl⟩
  | @next a it l hne hadvance _ ih =>
    cases tail with
    | nil => cases hfirst
    | cons x tail =>
      cases hfirst
      rw [advance_eq h hplaced hcs, Except.ok.injEq] at hadvance
      obtain ⟨gone, ys, htail, hlast, hl⟩ :=
        @ih (xs ++ [x]) tail (by rw [hcs]; simp) hadvance.symm
      exact ⟨x :: gone, ys, by rw [htail, List.cons_append], hlast, by rw [hl, List.map_cons]⟩

/-- A range from a stored node splits the cells. -/
lemma Between.split {s : State V} {cs : List (List (Addr × V))} {a : Addr} {last : Option Addr}
    {l : List Addr} (hl : Between tr s last (some a) l) (hne : some a ≠ last)
    (h : Rep s.mem s.table.bucket cs) (hplaced : Placed tr cs) (ha : Stored s a) :
    ∃ xs x gone ys, cs.flatten = xs ++ (x :: gone ++ ys) ∧ x.1 = a ∧
      last = ys.head?.map Prod.fst ∧ l = (x :: gone).map Prod.fst := by
  obtain ⟨x, hx, rfl⟩ := List.mem_map.mp (h.stored_iff.mp ha)
  obtain ⟨xs, tail, hcs⟩ := List.append_of_mem hx
  obtain ⟨gone, ys, htail, hlast, hgone⟩ := hl.cells h hplaced hcs rfl
  cases gone with
  | nil =>
    rw [List.nil_append] at htail
    rw [hlast, ← htail] at hne
    exact absurd rfl hne
  | cons y gone =>
    cases (List.cons.inj htail).1
    exact ⟨xs, x, gone, ys, by rw [hcs, htail], rfl, hlast, hgone⟩

/-! ### Runs of changes -/

/-- The cells are placed in clusters, and there are as many buckets as `resize` wants. -/
structure Tidy (tr : Traits K V) (s : State V) (cs : List (List (Addr × V))) : Prop where
  owns : Owns s cs
  clustered : Clustered tr cs
  fits : 1 + cs.flatten.length / s.table.avgBucketCount ≤ cs.length

lemma le_length_sized (avg size : Nat) (cs : List (List (Addr × V))) :
    1 + size / avg ≤ (sized tr avg size cs).length := by
  rw [sized]
  split_ifs with h₁ h₂
  · simp [h₁]
  · rw [length_regroup (by omega)]
  · exact not_lt.mp h₂

/-- Where the buckets suffice, a change of the size moves nothing. -/
lemma flatten_sized {avg : Nat} {cs : List (List (Addr × V))}
    (hfits : 1 + cs.flatten.length / avg ≤ cs.length) :
    (sized tr avg cs.flatten.length cs).flatten = cs.flatten := by
  rw [sized]
  split_ifs with h₁ h₂
  · rw [List.length_eq_zero_iff.mp h₁]
    rfl
  · exact absurd h₂ (not_lt.mpr hfits)
  · rfl

namespace Tidy

variable {s s' : State V} {cs cs' : List (List (Addr × V))}

lemma pos (h : Tidy tr s cs) : 0 < cs.length :=
  (Nat.add_pos_left Nat.one_pos _).trans_le h.fits

lemma oneBucket (tr : Traits K V) (mem : Memory V) (version : Nat) :
    Tidy tr (.oneBucket mem version) [[]] :=
  ⟨⟨rep_replicate mem 1, rfl⟩, clustered_replicate tr 1, by simp⟩

lemma of_updates (htr : tr.Lawful) (hcl : Clustered tr cs')
    (hup : Updates s s' cs (sized tr s.table.avgBucketCount cs'.flatten.length cs')) :
    Tidy tr s' (sized tr s.table.avgBucketCount cs'.flatten.length cs') := by
  refine ⟨hup.owns, hcl.sized htr _ _, ?_⟩
  rw [(perm_sized _ _).length_eq, hup.avg]
  exact le_length_sized _ _ _

lemma insert (htr : tr.Lawful) {it : Except Fault (Option Addr)} {pl : Place V} {v : V}
    (h : Tidy tr s cs) (hpl : pl.Finds tr (tr.getKey v) cs) (hins : Inserted tr s s' it pl v) :
    ∃ cs', Tidy tr s' cs' := by
  have hcs := hpl.chains_eq
  subst hcs
  exact ⟨_, of_updates htr (h.clustered.add htr hpl _) hins.updates⟩

/-- The steps keep a table tidy. -/
lemma change (htr : tr.Lawful) (h : Tidy tr s cs) (op : Change V)
    (hlegal : (tableMachine tr).legal s op) : ∃ s', s.change tr op = .ok s' ∧
      ∃ cs', Tidy tr s' cs' := by
  cases op with
  | insertUnique v =>
    obtain ⟨pl, hpl, ⟨x, rest, -, hok⟩ | ⟨-, s', it, hok, hins⟩⟩ :=
      @insertUnique_eq K V tr s cs h.owns h.pos v
    · refine ⟨s, ?_, cs, h⟩
      simp only [State.change, hok, Except.ok_bind]
      rfl
    · refine ⟨s', ?_, h.insert htr hpl hins⟩
      simp only [State.change, hok, Except.ok_bind]
      rfl
  | insertMultiple v =>
    obtain ⟨pl, hpl, s', it, hok, hins⟩ := @insertMultiple_eq K V tr s cs h.owns h.pos v
    refine ⟨s', ?_, h.insert htr hpl hins⟩
    simp only [State.change, hok, Except.ok_bind]
    rfl
  | erase first last =>
    obtain ⟨hfirst, l, hl⟩ := hlegal
    by_cases hne : first = last
    · exact ⟨s, if_pos hne, cs, h⟩
    obtain ⟨a, rfl⟩ : ∃ a, first = some a := by
      cases hl with
      | stop => exact absurd rfl hne
      | @next a => exact ⟨a, rfl⟩
    obtain ⟨xs, x, gone, ys, hcs, rfl, rfl, -⟩ :=
      hl.split hne h.owns.rep h.clustered.placed (hfirst a rfl)
    obtain ⟨before, earlier, s', -, -, -, herase, hup⟩ :=
      erase_run htr h.owns h.clustered h.pos hcs
    exact ⟨s', herase, _, of_updates htr (h.clustered.without _) hup⟩
  | clear =>
    obtain ⟨s', hclear, hup⟩ := @clear_eq K V tr s cs h.owns.rep
    exact ⟨s', hclear, [[]], hup.owns, clustered_replicate tr 1, by simp⟩

/-- Every table of a run is tidy. -/
lemma run (htr : tr.Lawful) {ops : List (Change V)} (hs : ∃ cs, Tidy tr s cs)
    (hlegal : (tableMachine tr).Legal s ops) :
    (tableMachine tr).Holds (fun s => ∃ cs, Tidy tr s cs) s ops := by
  refine Machine.Holds.of_invariant (C := fun _ _ => True) (fun _ h => h) ?_ hs hlegal
    (.of_forall fun _ _ => trivial)
  rintro s op ⟨cs, h⟩ hlegal -
  exact h.change htr op hlegal

end Tidy

/-! ### The range of a key -/

/-- The node `a` is stored and has the key. -/
def HasKey (tr : Traits K V) (s : State V) (key : K) (a : Addr) : Prop :=
  Stored s a ∧ ∃ n, s.mem.node a = some n ∧ tr.eq (tr.getKey n.val) key = true

/-- `equal_range` is the range of the nodes with the key, which are one run of a bucket. -/
def RangeExact (tr : Traits K V) (s : State V) (key : K) : Prop :=
  ∃ first last l, equalRange tr s key = .ok (first, last) ∧ Between tr s last first l ∧ l.Nodup ∧
    (∀ a, a ∈ l ↔ HasKey tr s key a) ∧ (first = last ↔ ∀ a, ¬ HasKey tr s key a) ∧
    ∃ p ∈ s.table.bucket, ∃ c : List (Addr × V), Seg s.mem p c none ∧ l <:+: c.map Prod.fst

/-- The cells with a key are those between the two iterators of `equal_range`. -/
lemma equalRange_cells {s : State V} {cs : List (List (Addr × V))} (htr : tr.Lawful)
    (h : Rep s.mem s.table.bucket cs) (hcl : Clustered tr cs) (hlen : 0 < cs.length) (key : K) :
    ∃ (pl : Place V) (run after : List (Addr × V)) (last : Option Addr), pl.chains = cs ∧
      pl.rest = run ++ after ∧ (∀ x ∈ cs.flatten, tr.eq key (tr.getKey x.2) = true ↔ x ∈ run) ∧
      equalRange tr s key = .ok (run.head?.map Prod.fst, last) ∧
      Between tr s last (run.head?.map Prod.fst) (run.map Prod.fst) ∧
      (run.head?.map Prod.fst = last ↔ run = []) := by
  obtain ⟨pl, hpl, hfind⟩ := @findNode_eq K V tr s cs h hlen key
  have hrun := fun x => @Place.Finds.mem_run K V tr key cs pl htr hpl hcl x
  have hdrop := hpl.dropWhile_tail htr hcl h.nodup
  have hhead := hpl.rest
  have hcs := hpl.chains_eq
  subst hcs
  obtain ⟨p, hload, hseg⟩ := Place.load h
  rw [hseg.start_eq] at hload
  cases hrest : pl.rest with
  | nil =>
    rw [hrest] at hload hrun
    refine ⟨pl, [], [], endIter, rfl, hrest, fun x hx => hrun x hx, ?_, .stop, by simp [endIter]⟩
    simp only [equalRange, hfind, hload, Except.ok_bind]
    rfl
  | cons x rest =>
    have hx : tr.eq key (tr.getKey x.2) = true := hhead x (by rw [hrest]; rfl)
    have htail := pl.tail_split fun y => tr.eq key (tr.getKey y.2)
    rw [hrest] at hload hrun htail hdrop
    rw [List.dropWhile_cons, if_pos hx] at hdrop
    rw [List.takeWhile_cons, if_pos hx] at hrun
    rw [List.takeWhile_cons, if_pos hx, List.dropWhile_cons, if_pos hx] at htail
    have hloop := @equalLoop_eq K V tr s pl.chains _ pl.tail key (s.mem.size + 1) h hcl.placed
      pl.flatten_chains (by
        have hle := h.length_flatten_le
        rw [pl.flatten_chains, List.length_append] at hle
        omega)
    rw [hdrop, htail] at hloop
    have hflat := pl.flatten_chains
    rw [htail] at hflat
    have hbetween := Between.of_cells h hcl.placed hflat
    refine ⟨pl, _, rest.dropWhile fun y => tr.eq key (tr.getKey y.2), _, rfl, ?_,
      fun y hy => hrun y hy, ?_, hbetween, ?_⟩
    · rw [hrest, List.cons_append, List.takeWhile_append_dropWhile]
    · simp only [equalRange, hfind, hload, Except.ok_bind]
      exact congrArg (· >>= _) hloop
    · exact iff_of_false hbetween.ne (List.cons_ne_nil _ _)

/-- In a tidy table every range is exact. -/
lemma Tidy.rangeExact (htr : tr.Lawful) {s : State V} {cs : List (List (Addr × V))}
    (h : Tidy tr s cs) (key : K) : RangeExact tr s key := by
  obtain ⟨pl, run, after, last, hpl, hrest, hrun, hrange, hbetween, hempty⟩ :=
    equalRange_cells htr h.owns.rep h.clustered h.pos key
  subst hpl
  have hrep := h.owns.rep
  have hsub : ∀ x ∈ run, x ∈ pl.chains.flatten := by
    intro x hx
    rw [pl.flatten_chains, Place.tail, hrest]
    simp [hx]
  have hkey : ∀ a, a ∈ run.map Prod.fst ↔ HasKey tr s key a := by
    intro a
    constructor
    · intro ha
      obtain ⟨x, hx, rfl⟩ := List.mem_map.mp ha
      obtain ⟨r, hn⟩ := hrep.node_of_mem (hsub x hx)
      refine ⟨hrep.stored_iff.mpr (List.mem_map_of_mem (hsub x hx)), _, hn, ?_⟩
      exact htr.symm ((hrun x (hsub x hx)).mpr hx)
    · rintro ⟨ha, n, hn, heq⟩
      obtain ⟨x, hx, rfl⟩ := List.mem_map.mp (hrep.stored_iff.mp ha)
      obtain ⟨r, hn'⟩ := hrep.node_of_mem hx
      obtain rfl := Option.some.inj (hn.symm.trans hn')
      exact List.mem_map_of_mem ((hrun x hx).mp (htr.symm heq))
  refine ⟨_, last, _, hrange, hbetween, ?_, hkey, ?_, ?_⟩
  · have hnodup := hrep.nodup
    rw [addrs, pl.flatten_chains, Place.tail, hrest] at hnodup
    simp only [List.map_append] at hnodup
    exact hnodup.of_append_right.of_append_left.of_append_left
  · rw [hempty]
    constructor
    · rintro rfl a ha
      have hmem := (hkey a).mpr ha
      simp at hmem
    · intro hnone
      rw [List.eq_nil_iff_forall_not_mem]
      exact fun x hx => hnone x.1 ((hkey x.1).mp (List.mem_map_of_mem hx))
  · obtain ⟨p, hp, hseg⟩ := hrep.slot
    rw [hrest] at hseg
    refine ⟨p, List.mem_of_getElem? hp, _, hseg, pl.kept.map Prod.fst, after.map Prod.fst, ?_⟩
    simp

/-- In every run of changes, `equal_range` is exact. -/
theorem equalRange_exact (htr : tr.Lawful) (mem : Memory V) (version : Nat)
    (ops : List (Change V)) (hlegal : (tableMachine tr).Legal (.oneBucket mem version) ops) :
    (tableMachine tr).Holds (fun s => ∀ key, RangeExact tr s key) (.oneBucket mem version) ops := by
  refine Machine.Holds.imp ?_ (Tidy.run htr ⟨_, .oneBucket tr mem version⟩ hlegal)
  rintro s ⟨cs, h⟩ key
  exact h.rangeExact htr key

/-- Two values with one key. -/
theorem equalRange_exact_two : (tableMachine Traits.natMap).Holds
    (fun s => ∀ key, RangeExact Traits.natMap s key) (.oneBucket Memory.empty 0)
    [.insertMultiple (5, 50), .insertMultiple (5, 51)] :=
  equalRange_exact Traits.natMap_lawful Memory.empty 0 _ (by simp [Machine.Legal, tableMachine])

/-! ### Removing a range -/

/-- The nodes `l` are those of the table in the order of iteration. -/
structure Iterates (tr : Traits K V) (s : State V) (l : List Addr) : Prop where
  nodup : l.Nodup
  mem_iff : ∀ a, a ∈ l ↔ Stored s a
  next : ∀ xs a ys, l = xs ++ a :: ys → advance tr s (some a) 1 = .ok ys.head?

/-- `erase` removes the nodes `gone` and keeps the other ones in their order. -/
def ErasesRange (tr : Traits K V) (s : State V) (first last : Option Addr) (gone : List Addr) :
    Prop :=
  ∃ s' l, erase tr s first last = .ok s' ∧ Iterates tr s l ∧
    Iterates tr s' (l.filter fun a => a ∉ gone) ∧
    (∀ a, Stored s' a → (s'.mem.node a).map Node.val = (s.mem.node a).map Node.val) ∧
    s'.table.nodeCount + gone.length = s.table.nodeCount

/-- No node before `a` in its bucket has the same key. -/
def FirstOfRun (tr : Traits K V) (s : State V) (a : Addr) : Prop :=
  ∃ p ∈ s.table.bucket, ∃ kept v rest, Seg s.mem p (kept ++ (a, v) :: rest) none ∧
    ∀ y ∈ kept, tr.eq (tr.getKey v) (tr.getKey y.2) = false

lemma Rep.iterates {s : State V} {cs : List (List (Addr × V))} (h : Rep s.mem s.table.bucket cs)
    (hplaced : Placed tr cs) : Iterates tr s (addrs cs) := by
  refine ⟨h.nodup, fun a => h.stored_iff.symm, fun xs a ys hsplit => ?_⟩
  obtain ⟨xs', cells, hcs, rfl, hcells⟩ := List.map_eq_append_iff.mp hsplit
  obtain ⟨x, ys', rfl, rfl, rfl⟩ := List.map_eq_cons_iff.mp hcells
  rw [advance_eq h hplaced hcs, List.head?_map]

/-- Where the cells are split at a node whose run starts there, none before has its key. -/
lemma firstOfRun_iff {s : State V} {cs : List (List (Addr × V))} {xs ys : List (Addr × V)}
    {x : Addr × V} (htr : tr.Lawful) (h : Rep s.mem s.table.bucket cs) (hplaced : Placed tr cs)
    (hcs : cs.flatten = xs ++ x :: ys) :
    FirstOfRun tr s x.1 ↔ ∀ y ∈ xs, sameKey tr x y = false := by
  constructor
  · rintro ⟨p, hp, kept, v, rest, hseg, hkept⟩ y hy
    obtain ⟨i, hi⟩ := List.mem_iff_getElem?.mp hp
    have hlt : i < cs.length := h.length_eq ▸ (List.getElem?_eq_some_iff.mp hi).1
    have hchain := List.getElem?_eq_getElem hlt
    rw [← hseg.unique (h.chain hi hchain)] at hchain
    obtain ⟨pre, post, hsplit⟩ := List.append_of_mem (List.mem_of_getElem? hchain)
    have hnodup : (cs.flatten.map Prod.fst).Nodup := h.nodup
    have hcell : (x.1, v) = x := by
      refine List.inj_on_of_nodup_map hnodup ?_ ?_ rfl
      · exact List.mem_flatten.mpr ⟨_, List.mem_of_getElem? hchain, by simp⟩
      · simp [hcs]
    rw [hcell] at hchain hsplit
    have hflat : cs.flatten = (pre.flatten ++ kept) ++ x :: (rest ++ post.flatten) := by
      simp [hsplit]
    obtain ⟨hxs, hys⟩ := h.notMem_of_flatten hflat
    have hsame := hcs
    rw [hflat] at hsame
    obtain ⟨rfl, -, -⟩ := (List.append_cons_inj_of_notMem
      (fun hmem => hxs (List.mem_map_of_mem hmem))
      fun hmem => hys (List.mem_map_of_mem hmem)).mp hsame
    rcases List.mem_append.mp hy with hpre | hy
    · -- a cell of an earlier chain would be in two chains
      cases heq : sameKey tr x y with
      | false => rfl
      | true =>
        have hmem := hplaced.mem_chain htr hchain (by simp) (by simp [hcs, hpre]) heq
        rw [hsplit, List.flatten_append, List.flatten_cons] at hnodup
        refine absurd rfl ((List.nodup_append.mp hnodup.of_map).2.2 y hpre y ?_)
        exact List.mem_append_left _ hmem
    · have hkey := hkept y hy
      rwa [show v = x.2 from congrArg Prod.snd hcell] at hkey
  · intro hfirst
    obtain ⟨pl, rest, rfl, hrest, -, rfl⟩ := exists_place hcs
    obtain ⟨p, hp, hseg⟩ := h.slot
    rw [hrest] at hseg
    refine ⟨p, List.mem_of_getElem? hp, pl.kept, x.2, rest, hseg, fun y hy => ?_⟩
    exact hfirst y (List.mem_append_right _ hy)

namespace Tidy

variable {s : State V} {cs : List (List (Addr × V))} {xs gone ys : List (Addr × V)} {x : Addr × V}

/-- What `erase` leaves of a tidy table. -/
lemma erase_run (htr : tr.Lawful) (h : Tidy tr s cs) (hcs : cs.flatten = xs ++ (x :: gone ++ ys)) :
    ∃ before earlier s' cs', xs = before ++ earlier ∧ (∀ y ∈ earlier, sameKey tr x y = true) ∧
      (∀ y ∈ before, sameKey tr x y = false) ∧
      erase tr s (some x.1) (ys.head?.map Prod.fst) = .ok s' ∧ Tidy tr s' cs' ∧
      cs'.flatten = before ++ ys := by
  obtain ⟨before, earlier, s', rfl, hearlier, hbefore, herase, hup⟩ :=
    HashToolbox.erase_run htr h.owns h.clustered h.pos hcs
  refine ⟨before, earlier, s', _, rfl, hearlier, hbefore, herase,
    of_updates htr (h.clustered.without _) hup, ?_⟩
  have hnodup := h.owns.rep.nodup
  have hsplit : cs.flatten = before ++ (earlier ++ x :: gone) ++ ys := by
    rw [hcs]
    simp
  rw [addrs, hsplit] at hnodup
  have hleft : (HashToolbox.without ((earlier ++ x :: gone).map Prod.fst) cs).flatten =
      before ++ ys := by
    rw [flatten_without, hsplit, filter_middle hnodup]
  have hle : (before ++ ys).length ≤ cs.flatten.length := by
    rw [hsplit]
    simp only [List.length_append]
    omega
  rw [flatten_sized, hleft]
  rw [hleft, length_without]
  exact (Nat.add_le_add_left (Nat.div_le_div_right hle) 1).trans h.fits

lemma iterates (h : Tidy tr s cs) : Iterates tr s (addrs cs) :=
  h.owns.rep.iterates h.clustered.placed

/-- Starting from the first node of its run, `erase` removes the range. -/
lemma erasesRange (htr : tr.Lawful) (h : Tidy tr s cs)
    (hcs : cs.flatten = xs ++ (x :: gone ++ ys)) (hfirst : ∀ y ∈ xs, sameKey tr x y = false) :
    ErasesRange tr s (some x.1) (ys.head?.map Prod.fst) ((x :: gone).map Prod.fst) := by
  obtain ⟨before, earlier, s', cs', rfl, hearlier, -, herase, h', hleft⟩ := h.erase_run htr hcs
  have hnil : earlier = [] := by
    rw [List.eq_nil_iff_forall_not_mem]
    intro y hy
    have hsame := hearlier y hy
    rw [hfirst y (List.mem_append_right _ hy)] at hsame
    cases hsame
  subst hnil
  rw [List.append_nil] at hcs
  have hnodup := h.owns.rep.nodup
  rw [addrs, hcs, ← List.append_assoc] at hnodup
  have hfilter : (addrs cs).filter (fun a => a ∉ (x :: gone).map Prod.fst) = addrs cs' := by
    rw [addrs, addrs, hleft, hcs, ← List.append_assoc, ← filter_middle hnodup, List.filter_map]
    rfl
  refine ⟨s', addrs cs, herase, h.iterates, hfilter ▸ h'.iterates, fun a ha => ?_, ?_⟩
  · obtain ⟨y, hy, rfl⟩ := List.mem_map.mp (h'.owns.rep.stored_iff.mp ha)
    have hmem : y ∈ cs.flatten := by
      rw [hleft, List.mem_append] at hy
      rw [hcs]
      simp only [List.mem_append]
      exact hy.imp_right Or.inr
    obtain ⟨r', hn'⟩ := h'.owns.rep.node_of_mem hy
    obtain ⟨r, hn⟩ := h.owns.rep.node_of_mem hmem
    rw [hn, hn']
    rfl
  · rw [h'.owns.count, h.owns.count, hleft, hcs, List.length_map]
    simp only [List.length_append]
    omega

/-- Starting later in a run, `erase` also removes the nodes before. -/
lemma firstOfRun (htr : tr.Lawful) (h : Tidy tr s cs)
    (hcs : cs.flatten = xs ++ (x :: gone ++ ys))
    (herases : ErasesRange tr s (some x.1) (ys.head?.map Prod.fst) ((x :: gone).map Prod.fst)) :
    FirstOfRun tr s x.1 := by
  obtain ⟨before, earlier, s', cs', rfl, -, hbefore, herase, h', hleft⟩ := h.erase_run htr hcs
  obtain ⟨s₁, l, herase₁, hl, hl', -⟩ := herases
  obtain rfl := Except.ok.inj (herase.symm.trans herase₁)
  rw [firstOfRun_iff htr h.owns.rep h.clustered.placed hcs]
  intro y hy
  refine (List.mem_append.mp hy).elim (hbefore y) fun hearlier => ?_
  have hnodup := h.owns.rep.nodup
  rw [addrs, hcs] at hnodup
  simp only [List.map_append, List.nodup_append, List.mem_append] at hnodup
  have hy' := List.mem_map_of_mem (f := Prod.fst) hearlier
  have hstored : Stored s' y.1 := by
    rw [← hl'.mem_iff, List.mem_filter, decide_eq_true_iff, hl.mem_iff, h.owns.rep.stored_iff]
    refine ⟨?_, fun hmem => hnodup.2.2 y.1 (Or.inr hy') y.1 (Or.inl hmem) rfl⟩
    rw [addrs, hcs]
    simp [List.mem_map_of_mem hearlier]
  rw [h'.owns.rep.stored_iff, addrs, hleft, List.map_append, List.mem_append] at hstored
  rcases hstored with hmem | hmem
  · exact absurd rfl (hnodup.1.2.2 y.1 hmem y.1 hy')
  · exact absurd rfl (hnodup.2.2 y.1 (Or.inr hy') y.1 (Or.inr hmem))

end Tidy

/-- In every run of changes, `erase` removes just its range if and only if the range is empty or
starts with the first node of a run. -/
theorem erasesRange_iff (htr : tr.Lawful) (mem : Memory V) (version : Nat) (ops : List (Change V))
    (s : State V) (first last : Option Addr) (gone : List Addr)
    (hlegal : (tableMachine tr).Legal (.oneBucket mem version) ops)
    (hrun : ops.foldlM (tableMachine tr).step (.oneBucket mem version) = .ok s)
    (hfirst : ∀ a, first = some a → Stored s a) (hgone : Between tr s last first gone) :
    ErasesRange tr s first last gone ↔
      first = last ∨ ∃ a, first = some a ∧ FirstOfRun tr s a := by
  obtain ⟨cs, h⟩ := (Tidy.run htr ⟨_, .oneBucket tr mem version⟩ hlegal).result hrun
  by_cases hne : first = last
  · refine iff_of_true ?_ (Or.inl hne)
    cases hgone with
    | stop =>
      refine ⟨s, addrs cs, if_pos rfl, h.iterates, ?_, fun _ _ => rfl, rfl⟩
      simpa using h.iterates
    | next hne' => exact absurd hne hne'
  obtain ⟨a, rfl⟩ : ∃ a, first = some a := by
    cases hgone with
    | stop => exact absurd rfl hne
    | @next a => exact ⟨a, rfl⟩
  obtain ⟨xs, x, gone', ys, hcs, rfl, rfl, rfl⟩ :=
    hgone.split hne h.owns.rep h.clustered.placed (hfirst a rfl)
  constructor
  · exact fun herases => Or.inr ⟨x.1, rfl, h.firstOfRun htr hcs herases⟩
  · rintro (heq | ⟨a, ha, hrun⟩)
    · exact absurd heq hne
    · cases ha
      exact h.erasesRange htr hcs
        ((firstOfRun_iff htr h.owns.rep h.clustered.placed hcs).mp hrun)

/-- A table with two values under one key. -/
def State.twoValues : State (Nat × Nat) :=
  ⟨⟨[some ⟨(5, 50), none⟩, some ⟨(5, 51), some 0⟩]⟩, ⟨[some 1], 0, 2, 64⟩⟩

lemma twoValues_seg : Seg State.twoValues.mem (some 1) [(1, (5, 51)), (0, (5, 50))] none :=
  ⟨some 0, rfl, rfl, none, rfl, rfl, rfl⟩

theorem erasesRange_run :
    ErasesRange Traits.natMap State.twoValues (some 1) endIter [1, 0] :=
  (erasesRange_iff Traits.natMap_lawful Memory.empty 0
    [.insertMultiple (5, 50), .insertMultiple (5, 51)] State.twoValues (some 1) endIter [1, 0]
    (by simp [Machine.Legal, tableMachine]) rfl
    (fun a ha => ⟨some 1, by decide, _, twoValues_seg, by cases ha; decide⟩)
    (.next (by decide) rfl (.next (by decide) rfl .stop))).mpr
    (Or.inr ⟨1, rfl, some 1, by decide, [], _, _, twoValues_seg, by simp⟩)

/-- To erase the second node of a run erases the first one too. -/
theorem not_erasesRange_second :
    ∃ ops, (tableMachine Traits.natMap).Legal (.oneBucket Memory.empty 0) ops ∧
      ops.foldlM (tableMachine Traits.natMap).step (.oneBucket Memory.empty 0) =
        .ok State.twoValues ∧ Stored State.twoValues 0 ∧
      Between Traits.natMap State.twoValues endIter (some 0) [0] ∧
      ¬ ErasesRange Traits.natMap State.twoValues (some 0) endIter [0] := by
  refine ⟨[.insertMultiple (5, 50), .insertMultiple (5, 51)],
    by simp [Machine.Legal, tableMachine], rfl, ⟨some 1, by decide, _, twoValues_seg, by decide⟩,
    .next (by decide) rfl .stop, ?_⟩
  rintro ⟨s', l, herase, -, -, -, hcount⟩
  have hgone : erase Traits.natMap State.twoValues (some 0) endIter =
      .ok ⟨⟨[none, none]⟩, ⟨[none], 1, 0, 64⟩⟩ := rfl
  obtain rfl := Except.ok.inj (hgone.symm.trans herase)
  exact absurd hcount (by decide)

end HashToolbox

end Utilmm
