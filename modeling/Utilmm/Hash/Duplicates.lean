import Utilmm.Core.Groups
import Utilmm.Hash.Placement

/-!
# Duplicate keys

`insert_multiple` puts a cell next to those with its key, and a table which grows moves them
together. So the cells with a key are always one run of a chain: the run at which `find_node` stops,
and through which `equal_range` goes.
-/

namespace Utilmm

namespace HashToolbox

variable {K V : Type} {tr : Traits K V}

/-- Each cell is in the chain of its hash, next to the cells with the same key. -/
structure Clustered (tr : Traits K V) (cs : List (List (Addr × V))) : Prop where
  placed : Placed tr cs
  grouped : ∀ c ∈ cs, Grouped (fun x y => sameKey tr x y = true) c

lemma sameKey_equivalence (htr : tr.Lawful) :
    Equivalence fun x y : Addr × V => sameKey tr x y = true :=
  ⟨fun _ => htr.refl _, fun h => htr.symm h, fun h h' => htr.trans h h'⟩

lemma clustered_replicate (tr : Traits K V) (n : Nat) :
    Clustered tr (List.replicate n ([] : List (Addr × V))) := by
  refine ⟨placed_replicate tr n, fun c hc => ?_⟩
  rw [List.eq_of_mem_replicate hc]
  exact Grouped.nil

/-- Cells with the same key are in the same chain. -/
lemma Placed.chain_eq (htr : tr.Lawful) {cs : List (List (Addr × V))} (h : Placed tr cs)
    {i j : Nat} {c d : List (Addr × V)} (hc : cs[i]? = some c) (hd : cs[j]? = some d)
    {x y : Addr × V} (hx : x ∈ c) (hy : y ∈ d) (hxy : sameKey tr x y = true) : i = j := by
  rw [← h i c hc x hx, ← h j d hd y hy, htr.hash_eq hxy]

/-- The cells with the key of a cell are in its chain. -/
lemma Placed.mem_chain (htr : tr.Lawful) {cs : List (List (Addr × V))} (h : Placed tr cs) {i : Nat}
    {c : List (Addr × V)} (hc : cs[i]? = some c) {x y : Addr × V} (hx : x ∈ c)
    (hy : y ∈ cs.flatten) (hxy : sameKey tr x y = true) : y ∈ c := by
  obtain ⟨d, hd, hyd⟩ := List.mem_flatten.mp hy
  obtain ⟨j, hj⟩ := List.mem_iff_getElem?.mp hd
  obtain rfl := h.chain_eq htr hc hj hx hyd hxy
  exact Option.some.inj (hc.symm.trans hj) ▸ hyd

namespace Clustered

variable {cs : List (List (Addr × V))}

lemma without (h : Clustered tr cs) (gone : List Addr) : Clustered tr (without gone cs) := by
  refine ⟨h.placed.without gone, fun c hc => ?_⟩
  obtain ⟨d, hd, rfl⟩ := List.mem_map.mp hc
  exact (h.grouped d hd).sublist List.filter_sublist

/-- A cell is put at the place of its key. -/
lemma add (htr : tr.Lawful) {pl : Place V} (h : Clustered tr pl.chains) {v : V}
    (hpl : pl.Finds tr (tr.getKey v) pl.chains) (a : Addr) : Clustered tr (pl.add (a, v)) := by
  refine ⟨h.placed.add hpl a, fun c hc => ?_⟩
  rw [Place.add, Place.fill, List.mem_append, List.mem_cons] at hc
  rcases hc with hc | rfl | hc
  · exact h.grouped c (List.mem_append_left _ hc)
  · apply Grouped.insert (sameKey_equivalence htr)
    · exact h.grouped _ (List.mem_append_right _ List.mem_cons_self)
    · intro y hy
      rw [sameKey, hpl.kept y hy]
      exact Bool.false_ne_true
    · exact hpl.rest
  · exact h.grouped c (List.mem_append_right _ (List.mem_cons_of_mem _ hc))

end Clustered

/-! ### Growing -/

/-- The runs of a chain are put in front of chains without their keys. -/
lemma grouped_regroupChain (htr : tr.Lawful) {acc : List (List (Addr × V))}
    {c : List (Addr × V)} (hacc : 0 < acc.length)
    (h : ∀ d ∈ acc, Grouped (fun x y => sameKey tr x y = true) d)
    (hc : Grouped (fun x y => sameKey tr x y = true) c)
    (happart : ∀ x ∈ c, ∀ y ∈ acc.flatten, ¬ sameKey tr x y = true) :
    ∀ d ∈ regroupChain tr acc c, Grouped (fun x y => sameKey tr x y = true) d := by
  have hr := sameKey_equivalence htr
  fun_induction regroupChain tr acc c with
  | case1 => exact h
  | case2 acc x c ih =>
    have hi : tr.hash (tr.getKey x.2) % acc.length < acc.length := Nat.mod_lt _ hacc
    have hrun : ∀ y ∈ x :: c.takeWhile (sameKey tr x), sameKey tr x y = true := by
      intro y hy
      rcases List.mem_cons.mp hy with rfl | hy
      · exact htr.refl _
      · exact List.mem_takeWhile_imp hy
    apply ih
    · rwa [List.length_modify]
    · obtain ⟨pre, e, post, rfl, hpre⟩ := exists_split hi
      intro d hd
      rw [← hpre, modify_append, List.mem_append, List.mem_cons] at hd
      rcases hd with hd | rfl | hd
      · exact h d (List.mem_append_left _ hd)
      · refine (Grouped.of_related hr hrun).append (h e (by simp)) ?_
        intro y hy z hz hyz
        refine happart x List.mem_cons_self z ?_ (hr.trans (hrun y hy) hyz)
        simp [hz]
      · exact h d (List.mem_append_right _ (List.mem_cons_of_mem _ hd))
    · exact hc.sublist ((List.dropWhile_sublist _).trans (List.sublist_cons_self _ _))
    · intro y hy z hz hyz
      rw [(perm_modify hi _).mem_iff, List.mem_append] at hz
      rcases hz with hz | hz
      · -- behind the run its key does not occur
        exact hc.not_of_mem_dropWhile (fun _ => Iff.rfl) hy (hr.trans (hrun z hz) (hr.symm hyz))
      · exact happart y (List.mem_cons_of_mem _ ((List.dropWhile_sublist _).subset hy)) z hz hyz

lemma grouped_foldl (htr : tr.Lawful) {cs acc : List (List (Addr × V))} (hacc : 0 < acc.length)
    (h : ∀ d ∈ acc, Grouped (fun x y => sameKey tr x y = true) d)
    (hcs : ∀ c ∈ cs, Grouped (fun x y => sameKey tr x y = true) c)
    (happart : cs.Pairwise fun c d => ∀ x ∈ d, ∀ y ∈ c, ¬ sameKey tr x y = true)
    (happart' : ∀ c ∈ cs, ∀ x ∈ c, ∀ y ∈ acc.flatten, ¬ sameKey tr x y = true) :
    ∀ d ∈ cs.foldl (regroupChain tr) acc, Grouped (fun x y => sameKey tr x y = true) d := by
  induction cs generalizing acc with
  | nil => exact h
  | cons c cs ih =>
    rw [List.forall_mem_cons] at hcs happart'
    rw [List.pairwise_cons] at happart
    apply ih
    · rwa [length_regroupChain]
    · exact grouped_regroupChain htr hacc h hcs.1 happart'.1
    · exact hcs.2
    · exact happart.2
    · intro d hd x hx y hy
      rw [(perm_regroupChain hacc c).mem_iff, List.mem_append] at hy
      rcases hy with hy | hy
      · exact happart.1 d hd x hx y hy
      · exact happart'.2 d hd x hx y hy

namespace Clustered

variable {cs : List (List (Addr × V))}

lemma regroup (htr : tr.Lawful) (h : Clustered tr cs) {n : Nat} (hn : 0 < n) :
    Clustered tr (regroup tr n cs) := by
  refine ⟨placed_regroup htr.respects hn cs, ?_⟩
  apply grouped_foldl htr (by simpa) (clustered_replicate tr n).grouped h.grouped
  · rw [List.pairwise_iff_getElem]
    intro i j hi hj hij x hx y hy hxy
    exact hij.ne' (h.placed.chain_eq htr (List.getElem?_eq_getElem hj)
      (List.getElem?_eq_getElem hi) hx hy hxy)
  · simp

lemma sized (htr : tr.Lawful) (h : Clustered tr cs) (avg size : Nat) :
    Clustered tr (sized tr avg size cs) := by
  rw [HashToolbox.sized]
  split_ifs with h₁ h₂
  · exact clustered_replicate tr 1
  · exact h.regroup htr (by omega)
  · exact h

end Clustered

/-! ### The run of a key -/

lemma Place.tail_split (pl : Place V) (p : Addr × V → Bool) :
    pl.tail = pl.rest.takeWhile p ++ (pl.rest.dropWhile p ++ pl.post.flatten) := by
  rw [← List.append_assoc, List.takeWhile_append_dropWhile, Place.tail]

namespace Place.Finds

variable {key : K} {cs : List (List (Addr × V))} {pl : Place V}

/-- The cells with a key are the run which starts at the place of the key. -/
lemma mem_run (htr : tr.Lawful) (hpl : pl.Finds tr key cs) (h : Clustered tr cs) {x : Addr × V}
    (hx : x ∈ cs.flatten) : tr.eq key (tr.getKey x.2) = true ↔
      x ∈ pl.rest.takeWhile fun y => tr.eq key (tr.getKey y.2) := by
  refine ⟨fun heq => ?_, fun hmem => by simpa using List.mem_takeWhile_imp hmem⟩
  cases hrest : pl.rest with
  | nil =>
    rw [hpl.eq_false htr h.placed hrest hx] at heq
    cases heq
  | cons y rest =>
    have hy : tr.eq key (tr.getKey y.2) = true := hpl.rest y (by rw [hrest]; rfl)
    have hchain : cs[pl.pre.length]? = some (pl.kept ++ y :: rest) := by
      rw [← hpl.chains_eq, Place.chains, Place.fill, hrest]
      simp
    have hsame : sameKey tr y x = true := htr.trans (htr.symm hy) heq
    have hxc := h.placed.mem_chain htr hchain (by simp) hx hsame
    rw [List.mem_append] at hxc
    rcases hxc with hxk | hxr
    · rw [hpl.kept x hxk] at heq
      cases heq
    · have hgroup := (h.grouped _ (List.mem_of_getElem? hchain)).sublist
        (List.sublist_append_right _ _)
      rw [List.takeWhile_cons, if_pos hy]
      rcases List.mem_cons.mp hxr with rfl | hxr
      · exact List.mem_cons_self
      · rw [← List.takeWhile_append_dropWhile
          (p := fun z : Addr × V => tr.eq key (tr.getKey z.2)) (l := rest), List.mem_append] at hxr
        refine List.mem_cons_of_mem _ (hxr.resolve_right fun hdrop => ?_)
        refine hgroup.not_of_mem_dropWhile (fun z => ?_) hdrop hsame
        exact ⟨fun hz => htr.trans (htr.symm hy) hz, fun hz => htr.trans hy hz⟩

/-- Behind the run of a key come only cells with other keys. -/
lemma eq_false_behind (htr : tr.Lawful) (hpl : pl.Finds tr key cs) (h : Clustered tr cs)
    (hnodup : (addrs cs).Nodup) {y : Addr × V}
    (hy : y ∈ (pl.rest.dropWhile fun y => tr.eq key (tr.getKey y.2)) ++ pl.post.flatten) :
    tr.eq key (tr.getKey y.2) = false := by
  have hflat : cs.flatten = pl.pre.flatten ++ pl.kept ++ pl.tail := by
    rw [← hpl.chains_eq, pl.flatten_chains]
  rw [pl.tail_split fun y => tr.eq key (tr.getKey y.2)] at hflat
  have hmem : y ∈ cs.flatten := by
    rw [hflat]
    exact List.mem_append_right _ (List.mem_append_right _ hy)
  cases heq : tr.eq key (tr.getKey y.2) with
  | false => rfl
  | true =>
    -- then it would be a second time in the run
    have hrun := (hpl.mem_run htr h hmem).mp heq
    have hcells : cs.flatten.Nodup := List.Nodup.of_map Prod.fst hnodup
    rw [hflat] at hcells
    exact absurd rfl ((List.nodup_append.mp hcells.of_append_right).2.2 y hrun y hy)

/-- From the place of a key on, the cells with the key end where its run ends. -/
lemma dropWhile_tail (htr : tr.Lawful) (hpl : pl.Finds tr key cs) (h : Clustered tr cs)
    (hnodup : (addrs cs).Nodup) : (pl.tail.dropWhile fun y => tr.eq (tr.getKey y.2) key) =
      (pl.rest.dropWhile fun y => tr.eq key (tr.getKey y.2)) ++ pl.post.flatten := by
  rw [pl.tail_split fun y => tr.eq key (tr.getKey y.2), List.dropWhile_append_of_pos]
  · cases hmore : (pl.rest.dropWhile fun y => tr.eq key (tr.getKey y.2)) ++ pl.post.flatten with
    | nil => rfl
    | cons y ys =>
      have hy := hpl.eq_false_behind htr h hnodup (by rw [hmore]; exact List.mem_cons_self)
      rw [List.dropWhile_cons_of_neg]
      rw [htr.symm_false hy]
      exact Bool.false_ne_true
  · intro y hy
    exact htr.symm (List.mem_takeWhile_imp (p := fun z : Addr × V => tr.eq key (tr.getKey z.2)) hy)

/-- Before a cell in the order of iteration come first those with other keys, and then those of its
run. -/
lemma split (htr : tr.Lawful) {xs ys : List (Addr × V)} {x : Addr × V}
    (hpl : pl.Finds tr (tr.getKey x.2) cs) (h : Clustered tr cs) (hnodup : (addrs cs).Nodup)
    (hcs : cs.flatten = xs ++ x :: ys) :
    ∃ earlier, xs = pl.pre.flatten ++ pl.kept ++ earlier ∧ pl.tail = earlier ++ x :: ys ∧
      (∀ y ∈ earlier, sameKey tr x y = true) ∧
      ∀ y ∈ pl.pre.flatten ++ pl.kept, sameKey tr x y = false := by
  have hx : x ∈ cs.flatten := by
    rw [hcs]
    simp
  have hflat : cs.flatten = pl.pre.flatten ++ pl.kept ++ pl.tail := by
    rw [← hpl.chains_eq, pl.flatten_chains]
  have hrun := (hpl.mem_run htr h hx).mp (htr.refl _)
  obtain ⟨earlier, later, hsplit⟩ := List.append_of_mem hrun
  obtain ⟨drop, hrest⟩ : ∃ drop, pl.rest = (earlier ++ x :: later) ++ drop :=
    ⟨_, by rw [← hsplit, List.takeWhile_append_dropWhile]⟩
  have htail : pl.tail = earlier ++ x :: (later ++ drop ++ pl.post.flatten) := by
    rw [Place.tail, hrest]
    simp
  have hmap : (cs.flatten.map Prod.fst).Nodup := hnodup
  have hcells : cs.flatten.Nodup := hmap.of_map
  rw [hflat, htail, ← List.append_assoc] at hcs
  have hfree : x ∉ pl.pre.flatten ++ pl.kept ++ earlier ∧
      x ∉ later ++ drop ++ pl.post.flatten := by
    rw [hflat, htail, ← List.append_assoc, List.nodup_append, List.nodup_cons] at hcells
    exact ⟨fun hmem => hcells.2.2 x hmem x List.mem_cons_self rfl, hcells.2.1.1⟩
  obtain ⟨hxs, -, hys⟩ := (List.append_cons_inj_of_notMem hfree.1 hfree.2).mp hcs
  refine ⟨earlier, hxs.symm, by rw [htail, hys], fun y hy => ?_, fun y hy => ?_⟩
  · have hmem : y ∈ pl.rest.takeWhile fun y => tr.eq (tr.getKey x.2) (tr.getKey y.2) := by
      rw [hsplit]
      simp [hy]
    exact List.mem_takeWhile_imp hmem
  · cases heq : sameKey tr x y with
    | false => rfl
    | true =>
      have hmem := (hpl.mem_run htr h (hflat ▸ List.mem_append_left _ hy)).mp heq
      rw [hflat, List.nodup_append] at hcells
      refine absurd rfl (hcells.2.2 y hy y (List.mem_append_left _ ?_))
      exact (List.takeWhile_sublist _).subset hmem

end Place.Finds

/-- `erase` removes its range, and before it what the run of the first cell has earlier. -/
lemma erase_run {s : State V} {cs : List (List (Addr × V))} {xs gone ys : List (Addr × V)}
    {x : Addr × V} (htr : tr.Lawful) (h : Owns s cs) (hcl : Clustered tr cs)
    (hlen : 0 < cs.length) (hcs : cs.flatten = xs ++ (x :: gone ++ ys)) :
    ∃ before earlier s', xs = before ++ earlier ∧ (∀ y ∈ earlier, sameKey tr x y = true) ∧
      (∀ y ∈ before, sameKey tr x y = false) ∧
      erase tr s (some x.1) (ys.head?.map Prod.fst) = .ok s' ∧
      Updates s s' cs (sized tr s.table.avgBucketCount
        (without ((earlier ++ x :: gone).map Prod.fst) cs).flatten.length
        (without ((earlier ++ x :: gone).map Prod.fst) cs)) := by
  rw [List.cons_append] at hcs
  have hmem : x ∈ cs.flatten := by
    rw [hcs]
    simp
  obtain ⟨pl, hpl, hfind⟩ := @findNode_eq K V tr s cs h.rep hlen (tr.getKey x.2)
  obtain ⟨earlier, hxs, htail, hearlier, hbefore⟩ := hpl.split htr hcl h.rep.nodup hcs
  have hrest : pl.rest ≠ [] := by
    intro hnil
    have hrun := (hpl.mem_run htr hcl hmem).mp (htr.refl _)
    simp [hnil] at hrun
  obtain ⟨s', herase, hupdates⟩ := erase_tail h hlen hpl hfind hrest htail
  exact ⟨pl.pre.flatten ++ pl.kept, earlier, s', hxs, hearlier, hbefore, herase, hupdates⟩

end HashToolbox

end Utilmm
