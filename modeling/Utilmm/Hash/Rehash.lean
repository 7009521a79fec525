import Utilmm.Hash.Chains

/-!
# Growing

When a table grows, the nodes of each chain are moved run by run, a run being a first cell and those
after it with the same key, and each run is put in front of the new chain of its first cell.
-/

namespace Utilmm

namespace HashToolbox

variable {K V : Type} (tr : Traits K V)

/-- The cells after the first cell `x` of a run have the key of `x`. -/
def sameKey (x y : Addr × V) : Bool := tr.eq (tr.getKey x.2) (tr.getKey y.2)

/-- Move the runs of a chain to the new chains `acc`. -/
def regroupChain (acc : List (List (Addr × V))) :
    List (Addr × V) → List (List (Addr × V))
  | [] => acc
  | x :: c =>
    regroupChain
      (acc.modify (tr.hash (tr.getKey x.2) % acc.length) ((x :: c.takeWhile (sameKey tr x)) ++ ·))
      (c.dropWhile (sameKey tr x))
termination_by c => c.length
decreasing_by exact Nat.lt_succ_of_le (List.length_dropWhile_le _ _)

/-- The chains after a move to `n` buckets. -/
def regroup (n : Nat) (cs : List (List (Addr × V))) : List (List (Addr × V)) :=
  cs.foldl (regroupChain tr) (List.replicate n [])

variable {tr}

/-! ### Lists of chains -/

lemma modify_append (pre post : List (List (Addr × V))) (c : List (Addr × V))
    (f : List (Addr × V) → List (Addr × V)) :
    (pre ++ c :: post).modify pre.length f = pre ++ f c :: post := by
  induction pre with
  | nil => rfl
  | cons d pre ih => rw [List.cons_append, List.length_cons, List.modify_succ_cons, ih]; rfl

lemma length_regroupChain (acc : List (List (Addr × V))) (c : List (Addr × V)) :
    (regroupChain tr acc c).length = acc.length := by
  fun_induction regroupChain tr acc c with
  | case1 => rfl
  | case2 acc x c ih => rw [ih, List.length_modify]

lemma perm_modify {acc : List (List (Addr × V))} {i : Nat} (hi : i < acc.length)
    (run : List (Addr × V)) : (acc.modify i (run ++ ·)).flatten.Perm (run ++ acc.flatten) := by
  obtain ⟨pre, c, post, rfl, rfl⟩ := exists_split hi
  rw [modify_append]
  simp only [List.flatten_append, List.flatten_cons, List.append_assoc]
  exact List.perm_append_comm_assoc _ _ _

/-- A move of cells between chains does not repeat an address. -/
lemma nodup_modify {acc : List (List (Addr × V))} {i : Nat} (hi : i < acc.length)
    {run rest : List (Addr × V)} (h : (addrs ((run ++ rest) :: acc)).Nodup) :
    (addrs (rest :: acc.modify i (run ++ ·))).Nodup := by
  refine (List.Perm.nodup_iff ?_).mp h
  apply List.Perm.map
  rw [List.flatten_cons, List.flatten_cons, List.append_assoc]
  refine (List.perm_append_comm_assoc _ _ _).trans ?_
  exact (perm_modify hi run).symm.append_left _

lemma perm_regroupChain {acc : List (List (Addr × V))} (hacc : 0 < acc.length)
    (c : List (Addr × V)) : (regroupChain tr acc c).flatten.Perm (c ++ acc.flatten) := by
  fun_induction regroupChain tr acc c with
  | case1 => exact List.Perm.refl _
  | case2 acc x c ih =>
    have hi : tr.hash (tr.getKey x.2) % acc.length < acc.length := Nat.mod_lt _ hacc
    refine (ih (by rwa [List.length_modify])).trans ?_
    refine ((perm_modify hi _).append_left _).trans ?_
    refine (List.perm_append_comm_assoc _ _ _).trans ?_
    rw [← List.append_assoc, List.cons_append, List.takeWhile_append_dropWhile]

lemma foldl_regroupChain (cs : List (List (Addr × V))) {acc : List (List (Addr × V))}
    (hacc : 0 < acc.length) :
    (cs.foldl (regroupChain tr) acc).length = acc.length ∧
      (cs.foldl (regroupChain tr) acc).flatten.Perm (cs.flatten ++ acc.flatten) := by
  induction cs generalizing acc with
  | nil => exact ⟨rfl, List.Perm.refl _⟩
  | cons c cs ih =>
    have hlen : (regroupChain tr acc c).length = acc.length := length_regroupChain acc c
    obtain ⟨hlen', hperm⟩ := @ih (regroupChain tr acc c) (by rwa [hlen])
    refine ⟨hlen'.trans hlen, hperm.trans ?_⟩
    refine ((perm_regroupChain hacc c).append_left _).trans ?_
    rw [List.flatten_cons, List.append_assoc]
    exact List.perm_append_comm_assoc _ _ _

lemma length_regroup {n : Nat} (hn : 0 < n) (cs : List (List (Addr × V))) :
    (regroup tr n cs).length = n := by
  have hacc : 0 < (List.replicate n ([] : List (Addr × V))).length := by simpa
  rw [regroup, (foldl_regroupChain cs hacc).1, List.length_replicate]

/-- Growing keeps the cells. -/
lemma perm_regroup {n : Nat} (hn : 0 < n) (cs : List (List (Addr × V))) :
    (regroup tr n cs).flatten.Perm cs.flatten := by
  have hacc : 0 < (List.replicate n ([] : List (Addr × V))).length := by simpa
  simpa [regroup] using (@foldl_regroupChain K V tr cs _ hacc).2

/-- A last cell with a key of its own is moved in front of its new chain. -/
lemma regroupChain_concat {c : List (Addr × V)} {x : Addr × V}
    (h : ∀ y ∈ c, sameKey tr y x = false) (acc : List (List (Addr × V))) :
    regroupChain tr acc (c ++ [x]) =
      (regroupChain tr acc c).modify (tr.hash (tr.getKey x.2) % acc.length) ([x] ++ ·) := by
  fun_induction regroupChain tr acc c with
  | case1 acc => simp [regroupChain]
  | case2 acc y c ih =>
    have hxy : sameKey tr y x = false := h y List.mem_cons_self
    have hsplit : c.takeWhile (sameKey tr y) = (c ++ [x]).takeWhile (sameKey tr y) ∧
        c.dropWhile (sameKey tr y) ++ [x] = (c ++ [x]).dropWhile (sameKey tr y) := by
      clear ih h
      induction c with
      | nil => simp [hxy]
      | cons z c ih =>
        by_cases hz : sameKey tr y z = true
        · simpa [hz] using ih
        · simp [hz]
    have hrest : ∀ z ∈ c.dropWhile (sameKey tr y), sameKey tr z x = false := fun z hz =>
      h z (List.mem_cons_of_mem _ ((List.dropWhile_sublist _).subset hz))
    rw [List.cons_append, regroupChain, ← hsplit.1, ← hsplit.2, ih hrest, List.length_modify]

/-- A new first cell follows no other one. -/
lemma mem_tail_modify {acc : List (List (Addr × V))} {i : Nat} {x y : Addr × V}
    {c : List (Addr × V)} (hc : c ∈ acc.modify i ([x] ++ ·)) (hy : y ∈ c.tail) :
    y ∈ acc.flatten := by
  induction acc generalizing i with
  | nil => simp at hc
  | cons d acc ih =>
    cases i with
    | zero =>
      rcases List.mem_cons.mp hc with rfl | hc
      · exact List.mem_append_left _ hy
      · exact List.mem_append_right _ (List.mem_flatten.mpr ⟨c, hc, List.mem_of_mem_tail hy⟩)
    | succ i =>
      rcases List.mem_cons.mp hc with rfl | hc
      · exact List.mem_append_left _ (List.mem_of_mem_tail hy)
      · exact List.mem_append_right _ (ih hc)

/-! ### Moving the nodes -/

/-- `lastOfRun` finds the last cell of a run. -/
lemma lastOfRun_eq {mem : Memory V} {first v : V} {fuel : Nat} {a : Addr} {c : List (Addr × V)}
    (h : Seg mem (some a) ((a, v) :: c) none) (hfuel : c.length < fuel) :
    ∃ init b w, (a, v) :: c.takeWhile (fun y => tr.eq (tr.getKey first) (tr.getKey y.2)) =
        init ++ [(b, w)] ∧ lastOfRun tr mem first fuel a = .ok b := by
  induction fuel generalizing a v c with
  | zero => cases hfuel
  | succ fuel ih =>
    obtain ⟨r, -, hn, hseg⟩ := h
    simp only [lastOfRun, deref, hn, bind, Except.bind]
    cases c with
    | nil =>
      rw [Seg.nil_iff.mp hseg]
      exact ⟨[], a, v, rfl, rfl⟩
    | cons y c =>
      obtain ⟨b, w⟩ := y
      have hr := hseg
      obtain ⟨r', rfl, hm, -⟩ := hseg
      simp only [hm]
      by_cases hkey : tr.eq (tr.getKey first) (tr.getKey w) = true
      · obtain ⟨init, b', w', heq, hlast⟩ := ih hr (Nat.lt_of_succ_lt_succ hfuel)
        refine ⟨(a, v) :: init, b', w', ?_, ?_⟩
        · rw [List.takeWhile_cons, if_pos hkey, heq]
          rfl
        · rw [if_pos hkey, hlast]
      · refine ⟨[], a, v, ?_, ?_⟩
        · rw [List.takeWhile_cons, if_neg hkey]
          rfl
        · rw [if_neg hkey]
          rfl

/-- `moveRun` puts the first run of a chain in front of its new chain. -/
lemma moveRun_eq {mem : Memory V} {tmp : List (Option Addr)} {acc : List (List (Addr × V))}
    {beg : Addr} {x : Addr × V} {c : List (Addr × V)} (hacc : 0 < acc.length)
    (h : Rep mem tmp acc) (hseg : Seg mem (some beg) (x :: c) none)
    (hnodup : (addrs ((x :: c) :: acc)).Nodup) :
    ∃ mem' tmp' rest, moveRun tr acc.length mem tmp beg = .ok (mem', tmp', rest) ∧
      Rep mem' tmp' (acc.modify (tr.hash (tr.getKey x.2) % acc.length)
        ((x :: c.takeWhile (sameKey tr x)) ++ ·)) ∧
      Seg mem' rest (c.dropWhile (sameKey tr x)) none ∧ mem'.size = mem.size ∧
      ∀ a ∉ (x :: c).map Prod.fst, mem'.node a = mem.node a := by
  obtain ⟨a, v⟩ := x
  have hseg' := hseg
  obtain ⟨r, ha, hn, -⟩ := hseg
  cases ha
  have hmoved := hnodup
  rw [addrs_cons] at hnodup
  have hfuel : c.length < mem.size + 1 := by
    have hle := length_le_of_nodup hnodup.of_append_left fun b hb => hseg'.addr_lt_size hb
    rw [List.length_map, List.length_cons] at hle
    omega
  obtain ⟨init, b, w, heq, hlast⟩ := @lastOfRun_eq K V tr mem v v _ beg c hseg' hfuel
  change (beg, v) :: c.takeWhile (sameKey tr (beg, v)) = _ at heq
  -- the run ends in the cell `b`, behind which the rest of the chain starts
  have hsplit : (beg, v) :: c = (init ++ [(b, w)]) ++ c.dropWhile (sameKey tr (beg, v)) := by
    rw [← heq, List.cons_append]
    rw [List.takeWhile_append_dropWhile]
  rw [hsplit] at hmoved
  rw [hsplit, Seg.append_iff] at hseg'
  obtain ⟨q, hrun, hrest⟩ := hseg'
  obtain ⟨q', -, q'', -, hb, hq⟩ := Seg.append_iff.mp hrun
  rw [Seg.nil_iff] at hq
  subst hq
  replace hmoved := nodup_modify (Nat.mod_lt (tr.hash (tr.getKey v)) hacc) hmoved
  obtain ⟨pre, d, post, rfl, hpre⟩ := exists_split (Nat.mod_lt (tr.hash (tr.getKey v)) hacc)
  obtain ⟨p, hp, hd⟩ := h.slot
  rw [hsplit, addrs_append, addrs_cons] at hnodup
  have hbfree : b ∉ init.map Prod.fst ∧ b ∉ d.map Prod.fst ∧ b ∉ addrs pre ∧ b ∉ addrs post ∧
      b ∉ (c.dropWhile (sameKey tr (beg, v))).map Prod.fst := by
    grind
  obtain ⟨hbinit, hbd, hbpre, hbpost, hbrest⟩ := hbfree
  have hwrite : ∀ l : List Addr, b ∉ l →
      ∀ e ∈ l, (mem.write b ⟨w, p⟩).node e = mem.node e := by
    intro l hl e he
    apply Memory.node_write_of_ne
    rintro rfl
    exact hl he
  refine ⟨mem.write b ⟨w, p⟩, tmp.set pre.length (some beg), q'', ?_, ?_, ?_, ?_, ?_⟩
  · simp only [moveRun, deref, hn, bind, Except.bind, hlast, hb, hashNode, hashKey,
      if_neg hacc.ne', ← hpre, hp]
    rfl
  · rw [← hpre, modify_append, heq]
    apply h.set
    · rw [Seg.append_iff]
      exact ⟨p, hrun.relink hbinit, hd.congr (hwrite _ hbd)⟩
    · apply hwrite
      rw [List.mem_append]
      exact fun hmem => hmem.elim hbpre hbpost
    · rw [← hpre, modify_append, addrs_cons] at hmoved
      exact hmoved.of_append_right
  · exact hrest.congr (hwrite _ hbrest)
  · exact Memory.size_write _ _ _
  · intro e he
    apply Memory.node_write_of_ne
    rintro rfl
    apply he
    rw [hsplit]
    simp

lemma moveBucket_eq {mem : Memory V} {tmp : List (Option Addr)} {acc : List (List (Addr × V))}
    {fuel : Nat} {p : Option Addr} {c : List (Addr × V)} (hacc : 0 < acc.length)
    (h : Rep mem tmp acc) (hseg : Seg mem p c none) (hnodup : (addrs (c :: acc)).Nodup)
    (hfuel : c.length < fuel) :
    ∃ mem' tmp', moveBucket tr acc.length fuel (mem, tmp) p = .ok (mem', tmp') ∧
      Rep mem' tmp' (regroupChain tr acc c) ∧ mem'.size = mem.size ∧
      ∀ a ∉ c.map Prod.fst, mem'.node a = mem.node a := by
  induction fuel generalizing mem tmp acc p c with
  | zero => cases hfuel
  | succ fuel ih =>
    cases c with
    | nil =>
      rw [Seg.nil_iff.mp hseg]
      refine ⟨mem, tmp, rfl, ?_, rfl, fun _ _ => rfl⟩
      rwa [regroupChain]
    | cons x c =>
      obtain ⟨beg, hbeg⟩ : ∃ beg, p = some beg := ⟨_, hseg.start_eq⟩
      subst hbeg
      obtain ⟨mem₁, tmp₁, rest, hmove, h₁, hseg₁, hsize₁, hmem₁⟩ :=
        @moveRun_eq K V tr _ _ _ _ _ _ hacc h hseg hnodup
      have hi : tr.hash (tr.getKey x.2) % acc.length < acc.length := Nat.mod_lt _ hacc
      have hsplit : x :: c = (x :: c.takeWhile (sameKey tr x)) ++ c.dropWhile (sameKey tr x) := by
        rw [List.cons_append, List.takeWhile_append_dropWhile]
      have hnodup₁ := hnodup
      rw [hsplit] at hnodup₁
      have hrest := @ih mem₁ tmp₁ _ rest _ (by rwa [List.length_modify]) h₁ hseg₁
        (nodup_modify hi hnodup₁)
        ((List.length_dropWhile_le _ _).trans_lt (Nat.lt_of_succ_lt_succ hfuel))
      rw [List.length_modify] at hrest
      obtain ⟨mem', tmp', hbucket, h', hsize, hmem⟩ := hrest
      refine ⟨mem', tmp', ?_, ?_, hsize.trans hsize₁, fun a ha => ?_⟩
      · simp only [moveBucket, hmove, bind, Except.bind]
        exact hbucket
      · rwa [regroupChain]
      · rw [hmem, hmem₁ a ha]
        intro hdrop
        apply ha
        rw [List.map_cons]
        exact List.mem_cons_of_mem _ ((List.dropWhile_sublist _).map _ |>.mem hdrop)

lemma rehashLoop_eq {mem : Memory V} {tmp bucket : List (Option Addr)}
    {cs acc : List (List (Addr × V))} (hacc : 0 < acc.length) (h : Rep mem bucket cs)
    (htmp : Rep mem tmp acc) (hnodup : (addrs (cs ++ acc)).Nodup) :
    ∃ mem' tmp', bucket.foldlM
        (fun state p => moveBucket tr acc.length (state.1.size + 1) state p) (mem, tmp) =
          .ok (mem', tmp') ∧
      Rep mem' tmp' (cs.foldl (regroupChain tr) acc) ∧ mem'.size = mem.size ∧
      ∀ a ∉ addrs cs, mem'.node a = mem.node a := by
  induction cs generalizing mem tmp bucket acc with
  | nil =>
    rw [List.length_eq_zero_iff.mp h.length_eq]
    exact ⟨mem, tmp, rfl, htmp, rfl, fun _ _ => rfl⟩
  | cons c cs ih =>
    obtain ⟨p, bucket, rfl⟩ := List.exists_cons_of_length_eq_add_one h.length_eq
    obtain ⟨hseg, hcs, hnodupc⟩ := Rep.cons_iff.mp h
    rw [List.cons_append, addrs_cons, addrs_append] at hnodup
    have hnodup₁ : (addrs (c :: acc)).Nodup := by
      rw [addrs_cons]
      grind
    have hfuel : c.length < mem.size + 1 := Nat.lt_succ_of_le (@Rep.length_le V mem _ [] cs c h)
    obtain ⟨mem₁, tmp₁, hmove, h₁, hsize₁, hmem₁⟩ :=
      @moveBucket_eq K V tr mem tmp acc _ p c hacc htmp hseg hnodup₁ hfuel
    have hlen : (regroupChain tr acc c).length = acc.length := length_regroupChain acc c
    have hloop := @ih mem₁ tmp₁ bucket (regroupChain tr acc c) (by rwa [hlen]) ?_ h₁ ?_
    · rw [hlen] at hloop
      obtain ⟨mem', tmp', hrest, h', hsize, hmem⟩ := hloop
      refine ⟨mem', tmp', ?_, h', hsize.trans hsize₁, fun a ha => ?_⟩
      · rw [List.foldlM_cons, hmove]
        exact hrest
      · rw [addrs_cons, List.mem_append, not_or] at ha
        rw [hmem a ha.2, hmem₁ a ha.1]
    · apply hcs.congr
      intro a ha
      apply hmem₁
      grind
    · rw [addrs_append]
      have hperm : (addrs (regroupChain tr acc c)).Perm (c.map Prod.fst ++ addrs acc) := by
        rw [← addrs_cons]
        exact (perm_regroupChain hacc c).map _
      refine ((hperm.append_left _).nodup_iff).mpr ?_
      refine (List.perm_append_comm_assoc _ _ _).nodup_iff.mpr ?_
      exact hnodup

lemma rep_replicate (mem : Memory V) (n : Nat) :
    Rep mem (List.replicate n none) (List.replicate n []) := by
  refine ⟨by simp, fun hp hc => ?_, by simp [addrs]⟩
  rw [List.getElem?_replicate] at hp hc
  split_ifs at hp hc
  cases hp
  cases hc
  rfl

/-- `rehash` moves the chains to `n` buckets. -/
lemma rehash_eq {mem : Memory V} {bucket : List (Option Addr)} {cs : List (List (Addr × V))}
    {n : Nat} (hn : 0 < n) (h : Rep mem bucket cs) :
    ∃ mem' tmp', rehash tr n mem bucket = .ok (mem', tmp') ∧ Rep mem' tmp' (regroup tr n cs) ∧
      mem'.size = mem.size ∧ ∀ a ∉ addrs cs, mem'.node a = mem.node a := by
  have hloop := @rehashLoop_eq K V tr mem (List.replicate n none) bucket cs (List.replicate n [])
    (by simpa) h (rep_replicate mem n) (by simpa [addrs] using h.nodup)
  rwa [List.length_replicate] at hloop

/-! ### Changing the size -/

/-- The table owns the nodes of the chains `cs`, and has counted them. -/
structure Owns (s : State V) (cs : List (List (Addr × V))) : Prop where
  rep : Rep s.mem s.table.bucket cs
  count : s.table.nodeCount = cs.flatten.length

/-- The value of a node is written through an iterator. -/
lemma Owns.write_val {s : State V} {cs : List (List (Addr × V))} {a : Addr} {v v' : V}
    {r : Option Addr} (h : Owns s cs) (hn : s.mem.node a = some ⟨v, r⟩) :
    Owns { s with mem := s.mem.write a ⟨v', r⟩ } (cs.map (Seg.setVal a v')) := by
  have hflat : (cs.map (Seg.setVal a v')).flatten = Seg.setVal a v' cs.flatten := by
    rw [Seg.setVal, List.map_flatten]
    rfl
  refine ⟨⟨?_, fun {i p c} hp hc => ?_, ?_⟩, ?_⟩
  · rw [List.length_map]
    exact h.rep.length_eq
  · rw [List.getElem?_map] at hc
    obtain ⟨d, hd, rfl⟩ := Option.map_eq_some_iff.mp hc
    exact (h.rep.chain hp hd).write_val hn
  · rw [addrs, hflat, Seg.map_fst_setVal]
    exact h.rep.nodup
  · rw [hflat, Seg.setVal, List.length_map]
    exact h.count

/-- The table with chains `cs` has become the table with chains `cs'`: it uses no node which is not
new or was not its own. -/
structure Updates (s s' : State V) (cs cs' : List (List (Addr × V))) : Prop where
  owns : Owns s' cs'
  frame : s.mem.Frame s'.mem (addrs cs)
  owned : ∀ a ∈ addrs cs', a ∈ addrs cs ∨ s.mem.size ≤ a
  avg : s'.table.avgBucketCount = s.table.avgBucketCount

lemma Updates.refl {s : State V} {cs : List (List (Addr × V))} (h : Owns s cs) :
    Updates s s cs cs := ⟨h, .refl _ _, fun _ ha => Or.inl ha, rfl⟩

/-- A first part which only touches what the table owns leads to an update. -/
lemma Updates.of_frame {s s₁ s₂ : State V} {cs cs₁ cs₂ : List (List (Addr × V))}
    (h : Updates s₁ s₂ cs₁ cs₂) (hframe : s.mem.Frame s₁.mem (addrs cs))
    (howned : ∀ a ∈ addrs cs₁, a ∈ addrs cs ∨ s.mem.size ≤ a)
    (havg : s₁.table.avgBucketCount = s.table.avgBucketCount) : Updates s s₂ cs cs₂ := by
  refine ⟨h.owns, hframe.trans h.frame howned, fun a ha => ?_, h.avg.trans havg⟩
  rcases h.owned a ha with ha | ha
  · exact howned a ha
  · exact Or.inr (hframe.size_le.trans ha)

/-- The chains after a change of the number of nodes. -/
def sized (tr : Traits K V) (avg size : Nat) (cs : List (List (Addr × V))) :
    List (List (Addr × V)) :=
  if size = 0 then [[]]
  else if 1 + size / avg > cs.length then regroup tr (1 + size / avg) cs else cs

lemma length_sized_pos (avg size : Nat) {cs : List (List (Addr × V))} (hcs : 0 < cs.length) :
    0 < (sized tr avg size cs).length := by
  rw [sized]
  split_ifs with h₁ h₂
  · exact Nat.one_pos
  · rw [length_regroup (by omega)]
    omega
  · exact hcs

lemma perm_sized (avg : Nat) (cs : List (List (Addr × V))) :
    (sized tr avg cs.flatten.length cs).flatten.Perm cs.flatten := by
  rw [sized]
  split_ifs with h₁ h₂
  · rw [List.length_eq_zero_iff.mp h₁]
    exact List.Perm.refl _
  · exact perm_regroup (by omega) cs
  · exact List.Perm.refl _

/-- A table which does not grow only counts its nodes. -/
lemma resize_of_le {s : State V} {size : Nat} (hsize : size ≠ 0)
    (hle : 1 + size / s.table.avgBucketCount ≤ s.table.bucket.length) :
    resize tr s size = .ok ⟨s.mem, { s.table with nodeCount := size }⟩ := by
  rw [resize, if_neg hsize, if_neg (not_lt.mpr hle)]

/-- `resize` to the number of nodes. -/
lemma resize_eq {s : State V} {cs : List (List (Addr × V))} (h : Rep s.mem s.table.bucket cs) :
    ∃ s', resize tr s cs.flatten.length = .ok s' ∧
      Updates s s' cs (sized tr s.table.avgBucketCount cs.flatten.length cs) ∧
      s'.mem.size = s.mem.size := by
  by_cases hzero : cs.flatten.length = 0
  · rw [resize, sized, if_pos hzero, if_pos hzero]
    refine ⟨_, rfl, ⟨⟨rep_replicate s.mem 1, hzero⟩, .refl _ _, fun a ha => ?_, rfl⟩, rfl⟩
    cases ha
  by_cases hgrow : 1 + cs.flatten.length / s.table.avgBucketCount > cs.length
  · obtain ⟨mem, tmp, hrehash, hrep, hsize, hmem⟩ :=
      @rehash_eq K V tr _ _ _ _ (Nat.zero_lt_of_lt hgrow) h
    have hperm := @perm_regroup K V tr _ (Nat.zero_lt_of_lt hgrow) cs
    rw [sized, if_neg hzero, if_pos hgrow]
    refine ⟨⟨mem, { s.table with
      bucket := tmp, version := s.table.version + 1, nodeCount := cs.flatten.length }⟩, ?_,
      ⟨⟨hrep, hperm.length_eq.symm⟩, ⟨hsize.ge, fun _ ha => hmem _ ha⟩, fun a ha => ?_, rfl⟩, hsize⟩
    · rw [resize, if_neg hzero, h.length_eq]
      simp only [if_pos hgrow, hrehash]
      rfl
    · exact Or.inl ((hperm.map _).mem_iff.mp ha)
  · rw [resize_of_le hzero (by rw [h.length_eq]; exact not_lt.mp hgrow), sized, if_neg hzero,
      if_neg hgrow]
    exact ⟨_, rfl, ⟨⟨h, rfl⟩, .refl _ _, fun a ha => Or.inl ha, rfl⟩, rfl⟩

end HashToolbox

end Utilmm
