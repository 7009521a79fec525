import Utilmm.Graph.DfsForest

/-!
# How often `undirected_dfs` classifies an edge

An edge is met twice, once from each end, and the first time it is reported as a tree edge or as a
back edge. The second time a tree edge and a loop lead to a gray vertex, where the colour of the
edge keeps the search silent. Any other back edge leads to a black vertex then, where the colour is
not looked at.
-/

namespace Utilmm

namespace UndirectedGraph

variable {V E : Type}

namespace Event

@[simp] def crossed : Event V E → Option (EdgeDescriptor E)
  | forwardOrCrossEdge d => some d
  | _ => none

/-- The calls which classify an edge. -/
@[simp] def classified : Event V E → Option (EdgeDescriptor E)
  | treeEdge d => some d
  | backEdge d => some d
  | forwardOrCrossEdge d => some d
  | _ => none

end Event

abbrev crosses (evs : List (Event V E)) : List (EdgeDescriptor E) := calls Event.crossed evs
abbrev classified (evs : List (Event V E)) : List (EdgeDescriptor E) := calls Event.classified evs

lemma perm_classified (evs : List (Event V E)) :
    (classified evs).Perm (reported evs ++ crosses evs) := by
  induction evs with
  | nil => exact .refl _
  | cons e evs ih =>
    cases e with
    | treeEdge d => simpa using ih
    | backEdge d => simpa using ih
    | forwardOrCrossEdge d => simpa using (ih.cons d).trans List.perm_middle.symm
    | _ => simpa using ih

/-- The same edge, met from its other end. -/
def opposite (d : EdgeDescriptor E) : EdgeDescriptor E := (d.1, !d.2)

@[simp] lemma opposite_fst (d : EdgeDescriptor E) : (opposite d).1 = d.1 := rfl

@[simp] lemma opposite_opposite (d : EdgeDescriptor E) : opposite (opposite d) = d := by
  simp [opposite]

lemma opposite_ne (d : EdgeDescriptor E) : opposite d ≠ d := by
  intro h
  simpa [opposite] using congrArg Prod.snd h

lemma eq_or_eq_opposite {d d' : EdgeDescriptor E} (h : d'.1 = d.1) : d' = d ∨ d' = opposite d := by
  obtain ⟨e, b⟩ := d
  obtain ⟨e', b'⟩ := d'
  obtain rfl : e' = e := h
  cases b <;> cases b' <;> simp [opposite]

variable [DecidableEq V] {g : BidirectionalGraph V E} {u v : V}

@[simp] lemma source_opposite (d : EdgeDescriptor E) : source g (opposite d) = target g d :=
  source_not

@[simp] lemma target_opposite (d : EdgeDescriptor E) : target g (opposite d) = source g d :=
  target_not

/-- Every edge of the graph is classified by exactly one call. -/
def ClassifiesOnce [DecidableEq E] (g : BidirectionalGraph V E) (evs : List (Event V E)) : Prop :=
  ∀ e ∈ g.edges, ((classified evs).map Prod.fst).count e = 1

/-- No cycle of the graph has an edge between two vertices. -/
def OnlyLoops (g : BidirectionalGraph V E) : Prop :=
  ∀ u ds, (∀ d ∈ ds, d.1 ∈ g.edges) → (arcs g).IsCycle u ds → ∀ d ∈ ds, source g d = target g d

/-! ### The second time an edge is met -/

/-- The examined edges which are classified, and those of which the search says nothing. The latter
go back along the tree edges `ts` and those of the search, or they are loops. -/
structure Accounts (g : BidirectionalGraph V E) (ts : List (EdgeDescriptor E))
    (evs : List (Event V E)) (silent : List (EdgeDescriptor E)) : Prop where
  examined : (examined evs).Perm (reported evs ++ (crosses evs ++ silent))
  along : ∀ d ∈ silent, opposite d ∈ ts ++ trees evs ∨ source g d = target g d
  back : ∀ d ∈ trees evs, opposite d ∈ silent
  cross : ∀ d ∈ crosses evs, source g d ≠ target g d

/-- The edges from `u` to its gray ancestors are white, apart from the tree edges `ts`. -/
def Fresh (g : BidirectionalGraph V E) (ts : List (EdgeDescriptor E)) (c : Colors V E) (u : V)
    (ei : List (EdgeDescriptor E)) : Prop :=
  ∀ d ∈ ei, c.vertex (target g d) = .gray → target g d ≠ u → c.edge d.1 ≠ .white →
    opposite d ∈ ts

namespace Scans

variable [DecidableEq E] {func : V → Bool} {c c' : Colors V E} {ei : List (EdgeDescriptor E)}
  {evs : List (Event V E)} {ts : List (EdgeDescriptor E)} {d : EdgeDescriptor E}

/-- A gray vertex is not black when an edge leads there. -/
lemma cross_target (h : Scans g func c u ei evs c') (hd : d ∈ crosses evs) :
    c.vertex (target g d) ≠ .gray := by
  intro hgray
  induction h with
  | nil => simp at hd
  | @tree c c₁ c₂ u d' ei evs evs' _ hv hsub _ ihsub ihrest =>
    have hne : target g d ≠ target g d' := fun heq => by
      rw [← heq, hgray] at hv
      cases hv
    have hgray' : ((c.putEdge d' .black).putVertex (target g d') .gray).vertex (target g d) =
        .gray := by simpa [hne] using hgray
    rcases (by simpa using hd : d ∈ crosses evs ∨ d ∈ crosses evs') with hd | hd
    · exact ihsub hd hgray'
    · refine ihrest hd ?_
      have hsame := hsub.vertex_eq (v := target g d) (by simp [hgray'])
      simpa [hne] using hsame.trans hgray'
  | back _ _ _ _ ih => exact ih (by simpa using hd) hgray
  | seen _ _ _ _ ih => exact ih (by simpa using hd) hgray
  | cross _ hv _ ih =>
    rcases (by simpa using hd : d = _ ∨ d ∈ crosses _) with rfl | hd
    · rw [hgray] at hv
      cases hv
    · exact ih hd hgray

/-- The edges that are examined leave `u` or a vertex which is discovered. -/
lemma source_of_examined (h : Scans g func c u ei evs c') (hei : ∀ d ∈ ei, source g d = u)
    (hu : u ∈ g.vertices) (hd : d ∈ examined evs) :
    source g d = u ∨ source g d ∈ discovered evs := by
  rcases List.mem_append.mp (h.perm_examined.mem_iff.mp hd) with hd | hd
  · exact Or.inl (hei d hd)
  · obtain ⟨v, hv, hd⟩ := List.mem_flatMap.mp hd
    rw [(leaves_of_mem_range ((h.joined hv).mem_vertices hu) d hd).2]
    exact Or.inr hv

end Scans

namespace Fresh

variable [DecidableEq E] {c c₁ : Colors V E} {ei : List (EdgeDescriptor E)}
  {evs : List (Event V E)} {ts : List (EdgeDescriptor E)} {d : EdgeDescriptor E}

/-- An edge which was examined matters no more. -/
lemma paint (h : Fresh g ts c u (d :: ei)) (hd : source g d = u) (hnot : d ∉ ei) :
    Fresh g ts (c.putEdge d .black) u ei := by
  intro d' hd' hgray hne hedge
  by_cases heq : d'.1 = d.1
  · rcases eq_or_eq_opposite heq with rfl | rfl
    · exact absurd hd' hnot
    · rw [target_opposite] at hne
      exact absurd hd hne
  · exact h d' (List.mem_cons_of_mem d hd') hgray hne (by simpa [heq] using hedge)

/-- The edges of a white vertex are white, so only the tree edge to it is not. -/
lemma descend (hc : Settled g c) (hd : Leaves g u d) (hgray : c.vertex u = .gray)
    (hv : c.vertex (target g d) = .white) :
    Fresh g (ts ++ [d]) ((c.putEdge d .black).putVertex (target g d) .gray) (target g d)
      (descriptors g (target g d)) := by
  intro d' hd' _ _ hedge
  obtain ⟨he, hsource⟩ := (mem_descriptors (target_mem hd.1)).mp hd'
  by_cases heq : d'.1 = d.1
  · rcases eq_or_eq_opposite heq with rfl | rfl
    · rw [← hsource, hd.2, hgray] at hv
      cases hv
    · simp
  · have hwhite : c.edge d'.1 = .white := hc.ends (opposite d') he (by simpa [hsource] using hv)
    exact absurd hwhite (by simpa [heq] using hedge)

/-- A search from `v` examines no edge between `u` and a vertex which it leaves gray. -/
lemma comeBack (h : Fresh g ts c u ei) (hgray : c.vertex u ≠ .white) (hv : v ∈ g.vertices)
    (hwhite : c.vertex v = .white) (hei : ∀ d ∈ ei, source g d = u)
    (hsub : Scans g nontruth2 (c.putVertex v .gray) v (descriptors g v) evs c₁)
    (hedges : ∀ e, c₁.edge e ≠ .white → c.edge e ≠ .white ∨ ∃ d ∈ examined evs, d.1 = e) :
    Fresh g ts (c₁.putVertex v .black) u ei := by
  intro d hd hgray' hne hedge
  have htarget : target g d ≠ v := fun heq => by simp [heq] at hgray'
  have hdiscovered : target g d ∉ discovered evs := fun hmem => by
    simp [htarget, hsub.paints.result, hmem] at hgray'
  have hu : u ≠ v ∧ u ∉ discovered evs := by
    refine ⟨fun heq => hgray (heq ▸ hwhite), fun hmem => ?_⟩
    have hwhite' := hsub.paints.white u hmem
    exact Colors.putVertex_ne_white (by decide) (fun _ => hgray) hwhite'
  rcases hedges _ hedge with hedge | ⟨d', hd', heq⟩
  · have hsame := hsub.paints.result (target g d)
    rw [if_neg hdiscovered] at hsame
    exact h d hd (by simpa [htarget, hsame] using hgray') hne hedge
  · -- `d'` leaves a vertex of the search, but its ends are `u` and the gray vertex
    exfalso
    have hsource := hsub.source_of_examined
      (fun d hd => ((mem_descriptors hv).mp hd).2) hv hd'
    rcases eq_or_eq_opposite heq with rfl | rfl
    · rw [hei _ hd] at hsource
      exact hsource.elim hu.1 hu.2
    · rw [source_opposite] at hsource
      exact hsource.elim htarget hdiscovered

end Fresh

lemma perm_interleave {α : Type} (a a' b b' l l' : List α) :
    ((a ++ (b ++ l)) ++ (a' ++ (b' ++ l'))).Perm ((a ++ a') ++ ((b ++ b') ++ (l ++ l'))) := by
  rw [← Multiset.coe_eq_coe]
  simp only [← Multiset.coe_add]
  abel

/-! ### The accounts of a search -/

section

variable {evs evs' : List (Event V E)} {ts silent silent' : List (EdgeDescriptor E)}
  {d : EdgeDescriptor E}

lemma accounts_nil : Accounts g ts [] [] := ⟨by simp, by simp, by simp, by simp⟩

lemma accounts_append (h : Accounts g ts evs silent) (h' : Accounts g ts evs' silent') :
    Accounts g ts (evs ++ evs') (silent ++ silent') := by
  refine ⟨?_, ?_, ?_, ?_⟩
  · simpa using (h.examined.append h'.examined).trans (perm_interleave _ _ _ _ _ _)
  · intro d hd
    rcases List.mem_append.mp hd with hd | hd
    · refine (h.along d hd).imp_left fun hmem => ?_
      rcases List.mem_append.mp hmem with hmem | hmem <;> simp [hmem]
    · refine (h'.along d hd).imp_left fun hmem => ?_
      rcases List.mem_append.mp hmem with hmem | hmem <;> simp [hmem]
  · intro d hd
    rcases (by simpa using hd : d ∈ trees evs ∨ d ∈ trees evs') with hd | hd
    · exact List.mem_append_left _ (h.back d hd)
    · exact List.mem_append_right _ (h'.back d hd)
  · intro d hd
    rcases (by simpa using hd : d ∈ crosses evs ∨ d ∈ crosses evs') with hd | hd
    · exact h.cross d hd
    · exact h'.cross d hd

/-- The calls for a vertex do not count. -/
lemma accounts_start (h : Accounts g ts evs silent) (v : V) :
    Accounts g ts (.startVertex v :: evs) silent :=
  ⟨by simpa using h.examined, by simpa using h.along, by simpa using h.back,
    by simpa using h.cross⟩

lemma accounts_visit (h : Accounts g ts evs silent) (v : V) :
    Accounts g ts (.discoverVertex v :: (evs ++ [.finishVertex v])) silent :=
  ⟨by simpa using h.examined, by simpa using h.along, by simpa using h.back,
    by simpa using h.cross⟩

/-- A tree edge, where the way back along it is silent. -/
lemma accounts_tree (h : Accounts g (ts ++ [d]) evs silent) (hback : opposite d ∈ silent) :
    Accounts g ts (.examineEdge d :: .treeEdge d :: evs) silent := by
  refine ⟨by simpa using h.examined.cons d, ?_, ?_, by simpa using h.cross⟩
  · intro d' hd'
    simpa using h.along d' hd'
  · intro d' hd'
    rcases (by simpa using hd' : d' = d ∨ d' ∈ trees evs) with rfl | hd'
    · exact hback
    · exact h.back d' hd'

lemma accounts_back (h : Accounts g ts evs silent) (d : EdgeDescriptor E) :
    Accounts g ts (.examineEdge d :: .backEdge d :: evs) silent :=
  ⟨by simpa using h.examined.cons d, by simpa using h.along, by simpa using h.back,
    by simpa using h.cross⟩

lemma accounts_seen (h : Accounts g ts evs silent)
    (hd : opposite d ∈ ts ∨ source g d = target g d) :
    Accounts g ts (.examineEdge d :: evs) (d :: silent) := by
  refine ⟨?_, ?_, ?_, by simpa using h.cross⟩
  · have hperm := (h.examined.cons d).trans List.perm_middle.symm
    simpa using hperm.trans (List.perm_middle.symm.append_left _)
  · intro d' hd'
    rcases List.mem_cons.mp hd' with rfl | hd'
    · exact hd.imp_left (List.mem_append_left _)
    · simpa using h.along d' hd'
  · intro d' hd'
    exact List.mem_cons_of_mem d (h.back d' (by simpa using hd'))

lemma accounts_cross (h : Accounts g ts evs silent) (hd : source g d ≠ target g d) :
    Accounts g ts (.examineEdge d :: .forwardOrCrossEdge d :: evs) silent := by
  refine ⟨?_, by simpa using h.along, by simpa using h.back, ?_⟩
  · simpa using (h.examined.cons d).trans List.perm_middle.symm
  · intro d' hd'
    rcases (by simpa using hd' : d' = d ∨ d' ∈ crosses evs) with rfl | hd'
    · exact hd
    · exact h.cross d' hd'

end

/-- In a search from `u` the edges are classified, or there is nothing to say about them. -/
lemma Scans.exists_accounts [DecidableEq E] {c c' : Colors V E} {ei : List (EdgeDescriptor E)}
    {evs : List (Event V E)} {ts : List (EdgeDescriptor E)}
    (h : Scans g nontruth2 c u ei evs c') (hc : Settled g c) (hgray : c.vertex u = .gray)
    (hei : ∀ d ∈ ei, source g d = u) (hnodup : ei.Nodup) (hfresh : Fresh g ts c u ei) :
    ∃ silent, Accounts g ts evs silent := by
  induction h generalizing ts with
  | nil => exact ⟨[], accounts_nil⟩
  | @tree c c₁ c₂ u d ei evs evs' hd hv hsub hrest ihsub ihrest =>
    have hne : u ≠ target g d := by
      rintro heq
      rw [← heq, hgray] at hv
      cases hv
    have htarget := target_mem hd.1
    have hu' : (c.putVertex (target g d) .gray).vertex u ≠ .white :=
      Colors.putVertex_ne_white (by decide) fun _ => by simp [hgray]
    have hsettled : Settled g ((c.putEdge d .black).putVertex (target g d) .gray) :=
      hc.putVertex_gray.putEdge hd hu' (by simp)
    obtain ⟨hsettled₁, hreports⟩ := hsub.settled_reports hsettled (by simp)
    have hblack : Settled g (c₁.putVertex (target g d) .black) :=
      hsettled₁.putVertex_black htarget fun d' hd' => hsub.edge_ne_white_of_mem hd'
    have hdescend : Fresh g (ts ++ [d]) ((c.putEdge d .black).putVertex (target g d) .gray)
        (target g d) (descriptors g (target g d)) := Fresh.descend hc hd hgray hv
    obtain ⟨silent, hsilent⟩ := ihsub hsettled (by simp)
      (fun d' hd' => ((mem_descriptors htarget).mp hd').2) (nodup_descriptors htarget) hdescend
    have hgray₁ : (c₁.putVertex (target g d) .black).vertex u = .gray := by
      have hsame := hsub.vertex_eq (v := u) (by simp [hne, hgray])
      simpa [hne, hgray] using hsame
    have hfresh₁ : Fresh g ts (c₁.putVertex (target g d) .black) u ei := by
      refine (hfresh.paint hd.2 (List.nodup_cons.mp hnodup).1).comeBack (by simp [hgray])
        htarget hv (fun d' hd' => hei d' (List.mem_cons_of_mem d hd')) hsub fun e he => ?_
      refine ((hreports.ne_white e).mp he).symm.imp id fun hmem => ?_
      obtain ⟨d', hd', rfl⟩ := List.mem_map.mp hmem
      exact ⟨d', hsilent.examined.symm.subset (List.mem_append_left _ hd'), rfl⟩
    obtain ⟨silent', hsilent'⟩ := ihrest hblack hgray₁
      (fun d' hd' => hei d' (List.mem_cons_of_mem d hd')) (List.nodup_cons.mp hnodup).2 hfresh₁
    -- the way back along `d` is silent: its edge is painted, and `u` stays gray
    have hback : opposite d ∈ silent := by
      have hexamined : opposite d ∈ examined evs := by
        refine hsub.perm_examined.symm.subset (List.mem_append_left _ ?_)
        exact (mem_descriptors htarget).mpr ⟨hd.1, source_opposite d⟩
      rcases List.mem_append.mp (hsilent.examined.subset hexamined) with hmem | hmem
      · simpa using hreports.white _ (List.mem_map_of_mem hmem)
      · refine (List.mem_append.mp hmem).resolve_left fun hcross => ?_
        refine hsub.cross_target hcross ?_
        rw [target_opposite, hd.2]
        simp [hne, hgray]
    refine ⟨silent ++ silent', ?_⟩
    simpa using accounts_append (accounts_tree (accounts_visit hsilent _) hback) hsilent'
  | @back c c' u d ei evs hd hv he hrest ih =>
    have hsettled := hc.putEdge hd (by simp [hgray]) (by simp [hv])
    obtain ⟨silent, hsilent⟩ := ih hsettled hgray
      (fun d' hd' => hei d' (List.mem_cons_of_mem d hd')) (List.nodup_cons.mp hnodup).2
      (hfresh.paint hd.2 (List.nodup_cons.mp hnodup).1)
    exact ⟨silent, accounts_back hsilent d⟩
  | @seen c c' u d ei evs hd hv he hrest ih =>
    have hsettled := hc.putEdge hd (by simp [hgray]) (by simp [hv])
    obtain ⟨silent, hsilent⟩ := ih hsettled hgray
      (fun d' hd' => hei d' (List.mem_cons_of_mem d hd')) (List.nodup_cons.mp hnodup).2
      (hfresh.paint hd.2 (List.nodup_cons.mp hnodup).1)
    refine ⟨d :: silent, accounts_seen hsilent ?_⟩
    by_cases hloop : target g d = u
    · exact Or.inr (hd.2.trans hloop.symm)
    · exact Or.inl (hfresh d List.mem_cons_self hv hloop he)
  | @cross c c' u d ei evs hd hv hrest ih =>
    have hsettled := hc.putEdge hd (by simp [hgray]) (by simp [hv])
    obtain ⟨silent, hsilent⟩ := ih hsettled hgray
      (fun d' hd' => hei d' (List.mem_cons_of_mem d hd')) (List.nodup_cons.mp hnodup).2
      (hfresh.paint hd.2 (List.nodup_cons.mp hnodup).1)
    refine ⟨silent, accounts_cross hsilent fun heq => ?_⟩
    rw [← heq, hd.2, hgray] at hv
    cases hv

/-- In a sweep the edges are classified, or there is nothing to say about them. -/
lemma Sweeps.exists_accounts [DecidableEq E] {c c' : Colors V E} {us : List V}
    {evs : List (Event V E)} (h : Sweeps g c us evs c') (hc : Settled g c)
    (hgray : ∀ v ∈ g.vertices, c.vertex v ≠ .gray) : ∃ silent, Accounts g [] evs silent := by
  induction h with
  | nil => exact ⟨[], accounts_nil⟩
  | skip _ _ ih => exact ih hc hgray
  | @root c c₁ c₂ u us evs evs' hmem hu hscan hrest ih =>
    have hsettled := hc.putVertex_gray (v := u)
    have hblack : Settled g (c₁.putVertex u .black) :=
      (hscan.settled_reports hsettled (by simp)).1.putVertex_black hmem
        fun d hd => hscan.edge_ne_white_of_mem hd
    -- between two searches no vertex is gray, so `u` has no ancestors
    have hfresh : Fresh g [] (c.putVertex u .gray) u (descriptors g u) := by
      intro d hd hgray' hne _
      refine absurd (by simpa [hne] using hgray') (hgray (target g d) ?_)
      exact target_mem ((mem_descriptors hmem).mp hd).1
    have hgray₁ : ∀ v ∈ g.vertices, (c₁.putVertex u .black).vertex v ≠ .gray := by
      intro v hv hgray'
      by_cases hne : v = u
      · simp [hne] at hgray'
      · have hgray' := hscan.paints.gray_of_gray (by simpa [hne] using hgray')
        exact hgray v hv (by simpa [hne] using hgray')
    obtain ⟨silent, hsilent⟩ := hscan.exists_accounts hsettled (by simp)
      (fun d hd => ((mem_descriptors hmem).mp hd).2) (nodup_descriptors hmem) hfresh
    obtain ⟨silent', hsilent'⟩ := ih hblack hgray₁
    refine ⟨silent ++ silent', ?_⟩
    simpa using accounts_append (accounts_start (accounts_visit hsilent u) u) hsilent'

/-! ### Back edges which are not loops -/

/-- An edge is classified again if and only if it is a back edge and no loop. -/
lemma crosses_eq_nil_iff {evs : List (Event V E)} {silent : List (EdgeDescriptor E)}
    (h : Accounts g [] evs silent) (hexamined : (examined evs).Perm (g.edges.flatMap orientations))
    (hreported : ((trees evs ++ backs evs).map Prod.fst).Perm g.edges) :
    crosses evs = [] ↔ ∀ d ∈ backs evs, source g d = target g d := by
  have hnodup := hreported.nodup_iff.mpr g.edges_nodup
  have honce := (hexamined.symm.trans h.examined).nodup_iff.mp (nodup_orientations g)
  rw [List.nodup_append, List.nodup_append] at honce
  obtain ⟨-, ⟨-, -, hsilent⟩, hfirst⟩ := honce
  constructor
  · intro hnil d hd
    by_contra hloop
    have hmem : d ∈ trees evs ++ backs evs := List.mem_append_right _ hd
    have hopposite : opposite d ∈ reported evs ++ (crosses evs ++ silent) := by
      refine h.examined.subset (hexamined.symm.subset (mem_orientations.mpr ?_))
      exact hreported.subset (List.mem_map.mpr ⟨d, hmem, rfl⟩)
    rw [hnil, List.nil_append, List.mem_append, (perm_reported evs).mem_iff] at hopposite
    rcases hopposite with hopposite | hopposite
    · exact opposite_ne d (List.inj_on_of_nodup_map hnodup hopposite hmem rfl)
    · rcases h.along _ hopposite with htree | hback
      · rw [opposite_opposite, List.nil_append] at htree
        exact (List.nodup_append.mp hnodup.of_map).2.2 d htree d hd rfl
      · exact hloop (by simpa using hback.symm)
  · intro hloops
    by_contra hne
    obtain ⟨d, hd⟩ := List.exists_mem_of_ne_nil _ hne
    have hexists : d.1 ∈ (trees evs ++ backs evs).map Prod.fst := by
      refine hreported.symm.subset (mem_orientations.mp (hexamined.subset ?_))
      exact h.examined.symm.subset (List.mem_append_right _ (List.mem_append_left _ hd))
    obtain ⟨t, ht, heq⟩ := List.mem_map.mp hexists
    have hnot : d ≠ t := by
      rintro rfl
      have hmem := (perm_reported evs).symm.subset ht
      exact hfirst d hmem d (List.mem_append_left _ hd) rfl
    obtain rfl : d = opposite t := (eq_or_eq_opposite heq.symm).resolve_left hnot
    rcases List.mem_append.mp ht with ht | ht
    · exact hsilent _ hd _ (h.back t ht) rfl
    · exact h.cross _ hd (by simpa using (hloops t ht).symm)

/-- Once every edge is reported, any other call classifies one again. -/
lemma classifiesOnce_iff [DecidableEq E] {evs : List (Event V E)}
    (hreported : ((reported evs).map Prod.fst).Perm g.edges)
    (hcrosses : ∀ d ∈ crosses evs, d.1 ∈ g.edges) :
    ClassifiesOnce g evs ↔ crosses evs = [] := by
  have hcount : ∀ e ∈ g.edges, ((classified evs).map Prod.fst).count e =
      1 + ((crosses evs).map Prod.fst).count e := by
    intro e he
    rw [((perm_classified evs).map _).count_eq, List.map_append, List.count_append,
      hreported.count_eq, List.count_eq_one_of_mem g.edges_nodup he]
  constructor
  · intro honce
    by_contra hne
    obtain ⟨d, hd⟩ := List.exists_mem_of_ne_nil _ hne
    have hpos := List.count_pos_iff.mpr (List.mem_map_of_mem (f := Prod.fst) hd)
    have hone := honce d.1 (hcrosses d hd)
    rw [hcount d.1 (hcrosses d hd)] at hone
    omega
  · intro hnil e he
    rw [hcount e he, hnil]
    rfl

/-- The back edges are loops if and only if every cycle runs along loops. -/
lemma onlyLoops_iff {evs : List (Event V E)}
    (hreported : ((trees evs ++ backs evs).map Prod.fst).Perm g.edges)
    (hgrows : (arcs g).Grows (trees evs))
    (hancestors : ∀ d ∈ backs evs, ∃ ds, ds.Sublist (trees evs) ∧
      (arcs g).Leads (target g d) ds (source g d)) :
    OnlyLoops g ↔ ∀ d ∈ backs evs, source g d = target g d := by
  constructor
  · intro honly d hd
    obtain ⟨ds, hmem, hds, hcycle⟩ := exists_isCycle_of_back hreported hancestors hd
    exact honly _ ds hds hcycle d hmem
  · intro hloops u ds hds hcycle d hd
    by_contra hne
    -- without its loops the cycle runs along tree edges
    refine hgrows.not_isCycle (fun d' hd' => ?_) (hcycle.filter_loops hd hne)
    obtain ⟨hd', hne'⟩ := List.mem_filter.mp hd'
    obtain ⟨t, ht, heq⟩ := List.mem_map.mp (hreported.symm.subset (hds d' hd'))
    refine ⟨t, (List.mem_append.mp ht).resolve_right fun hback => ?_, along_of_eq heq.symm⟩
    rw [decide_eq_true_eq] at hne'
    apply hne'
    show source g d' = target g d'
    rcases eq_or_eq_opposite heq.symm with rfl | rfl
    · exact hloops _ hback
    · simpa using (hloops _ hback).symm

/-- `undirected_dfs` classifies every edge once if and only if no cycle of the graph has an edge
between two vertices. -/
theorem undirectedDfs_classifiesOnce_iff [DecidableEq E] (g : BidirectionalGraph V E)
    (c : Colors V E) {startVertex : V} (hstart : startVertex ∈ g.vertices) :
    ∃ k c' evs, (∀ fuel, k ≤ fuel → undirectedDfs g fuel c startVertex = some (c', evs)) ∧
      (ClassifiesOnce g evs ↔ OnlyLoops g) := by
  obtain ⟨evs, c', hsweep, k, hk⟩ := undirectedDfs_sweeps c hstart
  have hwhite : ∀ v ∈ g.vertices, (paintWhite g c).vertex v = .white :=
    fun v hv => paintWhite_vertex c hv
  have hgray := paintWhite_ne_gray (g := g) c
  have hsettled := settled_paintWhite (g := g) c
  have hdiscovered := hsweep.perm_discovered (by simp +contextual) hwhite
  have hreported := hsweep.perm_edges (by simp +contextual) hsettled hgray
    fun e he => paintWhite_edge c he
  have hsplit : ((trees evs ++ backs evs).map Prod.fst).Perm g.edges :=
    ((perm_reported evs).map _).symm.trans hreported
  have hexamined := (hsweep.perm_examined.trans (hdiscovered.flatMap_right _)).trans
    (perm_flatMap_descriptors g)
  have hgrafts : Grafts g [] evs := hsweep.grafts (by simp)
  obtain ⟨silent, hsilent⟩ := hsweep.exists_accounts hsettled hgray
  have hcrosses : ∀ d ∈ crosses evs, d.1 ∈ g.edges := fun d hd =>
    mem_orientations.mp (hexamined.subset (hsilent.examined.symm.subset
      (List.mem_append_right _ (List.mem_append_left _ hd))))
  have hcalls : ∀ {α : Type} (f : Event V E → Option α), (∀ u, f (.initializeVertex u) = none) →
      calls f (g.vertices.map .initializeVertex ++ evs) = calls f evs :=
    fun f hf => calls_initializeVertex f hf g.vertices evs
  refine ⟨k, c', _, hk, ?_⟩
  rw [onlyLoops_iff hsplit hgrafts.grows.2 fun d hd => hsweep.ancestor hgray hd,
    ← crosses_eq_nil_iff hsilent hexamined hsplit, ← classifiesOnce_iff hreported hcrosses,
    ClassifiesOnce, classified, hcalls _ fun _ => rfl]
  rfl

/-- A path with a loop at its end. -/
def pathGraph : BidirectionalGraph Nat Nat :=
  .ofEdges [0, 1, 2] [0, 1, 2] id (fun e => min (e + 1) 2) (by decide) (by decide) (by decide)
    (by decide)

theorem undirectedDfs_classifiesOnce_iff_pathGraph :
    1 ∈ pathGraph.vertices ∧ ∃ k c' evs,
      (∀ fuel, k ≤ fuel → undirectedDfs pathGraph fuel ⟨fun _ => .gray, fun _ => .black⟩ 1 =
        some (c', evs)) ∧ (ClassifiesOnce pathGraph evs ↔ OnlyLoops pathGraph) :=
  ⟨by decide, undirectedDfs_classifiesOnce_iff pathGraph _ (by decide)⟩

/-- Three vertices and an edge between any two of them. -/
def triangle : BidirectionalGraph Nat Nat :=
  .ofEdges [0, 1, 2] [0, 1, 2] id (fun e => (e + 1) % 3) (by decide) (by decide) (by decide)
    (by decide)

/-- The edge which closes the triangle is a back edge, and then a forward or cross edge. -/
theorem not_classifiesOnce_triangle :
    ∃ c' evs, undirectedDfs triangle 20 ⟨fun _ => .white, fun _ => .white⟩ 0 = some (c', evs) ∧
      ¬ ClassifiesOnce triangle evs := by
  refine ⟨_, _, rfl, fun honce => ?_⟩
  have hone := honce 0 (by decide)
  revert hone
  decide

end UndirectedGraph

end Utilmm
