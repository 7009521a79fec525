import Utilmm.Graph.DfsVisits

/-!
# The forest of `undirected_dfs`

The colour of an edge tells whether it was reported: an edge is white as long as one of its ends is
white, and it is not when one of its ends is black. A gray vertex is an ancestor of the vertex
whose edges are scanned, so an edge is a tree edge or leads back to an ancestor.
-/

namespace Utilmm

namespace UndirectedGraph

variable {V E : Type} [DecidableEq V]

/-! ### The colours of the edges -/

/-- The edges of white vertices are white, and those of black vertices are not. -/
structure Settled (g : BidirectionalGraph V E) (c : Colors V E) : Prop where
  ends : ∀ d : EdgeDescriptor E, d.1 ∈ g.edges → c.vertex (target g d) = .white →
    c.edge d.1 = .white
  done : ∀ d : EdgeDescriptor E, d.1 ∈ g.edges → c.vertex (target g d) = .black →
    c.edge d.1 ≠ .white

namespace Settled

variable {g : BidirectionalGraph V E} {c : Colors V E} {u v : V} {d : EdgeDescriptor E}

lemma putVertex_gray (h : Settled g c) : Settled g (c.putVertex v .gray) := by
  refine ⟨fun d hd hwhite => ?_, fun d hd hblack => ?_⟩
  · by_cases hne : target g d = v
    · simp [hne] at hwhite
    · exact h.ends d hd (by simpa [hne] using hwhite)
  · by_cases hne : target g d = v
    · simp [hne] at hblack
    · exact h.done d hd (by simpa [hne] using hblack)

lemma putVertex_black (h : Settled g c) (hv : v ∈ g.vertices)
    (hedges : ∀ d ∈ descriptors g v, c.edge d.1 ≠ .white) :
    Settled g (c.putVertex v .black) := by
  refine ⟨fun d hd hwhite => ?_, fun d hd hblack => ?_⟩
  · by_cases hne : target g d = v
    · simp [hne] at hwhite
    · exact h.ends d hd (by simpa [hne] using hwhite)
  · by_cases hne : target g d = v
    · have hmem : (d.1, !d.2) ∈ descriptors g v :=
        (mem_descriptors hv).mpr ⟨hd, source_not.trans hne⟩
      exact hedges (d.1, !d.2) hmem
    · exact h.done d hd (by simpa [hne] using hblack)

/-- Only an edge with no white end is painted. -/
lemma putEdge [DecidableEq E] (h : Settled g c) (hd : Leaves g u d) (hu : c.vertex u ≠ .white)
    (hv : c.vertex (target g d) ≠ .white) : Settled g (c.putEdge d .black) := by
  refine ⟨fun d' hd' hwhite => ?_, fun d' hd' hblack => ?_⟩
  · have hne : d'.1 ≠ d.1 := by
      obtain ⟨e, b⟩ := d
      obtain ⟨e', b'⟩ := d'
      rintro rfl
      obtain ⟨-, rfl⟩ := hd
      cases b <;> cases b' <;> simp_all
    simpa [hne] using h.ends d' hd' hwhite
  · exact Colors.putEdge_ne_white.mpr (.inr (h.done d' hd' hblack))

end Settled

section

variable {m m₁ m' : E → Color} {es es' : List E} {e : E}

/-- The edges `es` are those which were white and are not any more. -/
structure Reports (m : E → Color) (es : List E) (m' : E → Color) : Prop where
  white : ∀ e ∈ es, m e = .white
  nodup : es.Nodup
  ne_white : ∀ e, m' e ≠ .white ↔ e ∈ es ∨ m e ≠ .white

namespace Reports

lemma refl (m : E → Color) : Reports m [] m := ⟨by simp, by simp, by simp⟩

lemma trans (h : Reports m es m₁) (h' : Reports m₁ es' m') : Reports m (es ++ es') m' := by
  have hwhite : ∀ e ∈ es', e ∉ es ∧ m e = .white := by
    intro e he
    have := mt (h.ne_white e).mpr (not_not.mpr (h'.white e he))
    rwa [not_or, not_not] at this
  refine ⟨?_, ?_, ?_⟩
  · intro e he
    rcases List.mem_append.mp he with he | he
    · exact h.white e he
    · exact (hwhite e he).2
  · rw [List.nodup_append]
    refine ⟨h.nodup, h'.nodup, ?_⟩
    rintro e he e' he' rfl
    exact (hwhite e he').1 he
  · intro e
    rw [h'.ne_white, h.ne_white, List.mem_append]
    tauto

lemma single [DecidableEq E] (he : m e = .white) : Reports m [e] (Function.update m e .black) := by
  refine ⟨by simp [he], by simp, fun e' => ?_⟩
  by_cases hee : e' = e <;> simp [hee]

lemma skip [DecidableEq E] (he : m e ≠ .white) : Reports m [] (Function.update m e .black) := by
  refine ⟨by simp, by simp, fun e' => ?_⟩
  by_cases hee : e' = e <;> simp [hee, he]

end Reports

end

/-! ### Forests of calls -/

/-- The calls go on after the vertices `vs` were discovered: every tree edge leads from one of
these to a new vertex, which is discovered next. -/
def Grafts (g : BidirectionalGraph V E) : List V → List (Event V E) → Prop
  | _, [] => True
  | vs, .treeEdge d :: .discoverVertex u :: evs =>
    source g d ∈ vs ∧ target g d = u ∧ u ∉ vs ∧ Grafts g (u :: vs) evs
  | _, .treeEdge _ :: _ => False
  | vs, .discoverVertex u :: evs => u ∉ vs ∧ Grafts g (u :: vs) evs
  | vs, _ :: evs => Grafts g vs evs

variable {g : BidirectionalGraph V E} {u v : V}

/-- The tree edges make a forest. -/
lemma Grafts.grows {vs : List V} {evs : List (Event V E)} (h : Grafts g vs evs) :
    (∀ d ∈ trees evs, target g d ∉ vs) ∧ (arcs g).Grows (trees evs) := by
  fun_induction Grafts g vs evs with
  | case1 => simp [Arcs.Grows]
  | case2 vs d u evs ih =>
    obtain ⟨hsource, rfl, hnew, h⟩ := h
    obtain ⟨htarget, hloop, hpair⟩ := ih h
    have htrees : trees (.treeEdge d :: .discoverVertex (target g d) :: evs) =
        d :: trees evs := by simp
    rw [htrees]
    refine ⟨?_, ?_, List.pairwise_cons.mpr ⟨?_, hpair⟩⟩
    · intro d' hd'
      rcases List.mem_cons.mp hd' with rfl | hd'
      · exact hnew
      · exact fun hmem => htarget d' hd' (List.mem_cons_of_mem _ hmem)
    · intro d' hd'
      rcases List.mem_cons.mp hd' with rfl | hd'
      · show source g d' ≠ target g d'
        exact fun heq => hnew (heq ▸ hsource)
      · exact hloop d' hd'
    · intro d' hd'
      have hne : target g d' ≠ target g d ∧ target g d' ∉ vs := by simpa using htarget d' hd'
      show target g d' ≠ source g d ∧ target g d' ≠ target g d
      exact ⟨fun heq => hne.2 (heq ▸ hsource), hne.1⟩
  | case3 => exact h.elim
  | case4 vs u evs ih =>
    obtain ⟨htarget, hgrows⟩ := ih h.2
    refine ⟨fun d hd hmem => ?_, by simpa using hgrows⟩
    exact htarget d (by simpa using hd) (List.mem_cons_of_mem u hmem)
  | case5 vs e evs _ htree _ ih =>
    have htrees : trees (e :: evs) = trees evs := by
      cases e with
      | treeEdge d => exact (htree d rfl).elim
      | _ => simp
    rw [htrees]
    exact ih h

/-! ### Scans -/

namespace Scans

variable [DecidableEq E] {func : V → Bool} {c c' : Colors V E}
  {ei : List (EdgeDescriptor E)} {evs : List (Event V E)}

lemma grafts (h : Scans g func c u ei evs c') {vs : List V} (hu : u ∈ vs)
    (hvs : ∀ v ∈ vs, c.vertex v ≠ .white) {post : List (Event V E)}
    (hpost : Grafts g ((discovered evs).reverse ++ vs) post) : Grafts g vs (evs ++ post) := by
  induction h generalizing vs post with
  | nil => simpa using hpost
  | @tree c c₁ c₂ u d ei evs evs' hd hv hsub hrest ihsub ihrest =>
    have hnew : target g d ∉ vs := fun hmem => hvs _ hmem hv
    have hvs' : ∀ w ∈ target g d :: vs,
        ((c.putEdge d .black).putVertex (target g d) .gray).vertex w ≠ .white :=
      fun w hw => Colors.putVertex_ne_white (by decide) fun hne =>
        hvs w (List.mem_of_ne_of_mem hne hw)
    have hvs'' : ∀ w ∈ (discovered evs).reverse ++ target g d :: vs,
        (c₁.putVertex (target g d) .black).vertex w ≠ .white := by
      intro w hw
      apply Colors.putVertex_ne_white (by decide)
      intro _
      rcases List.mem_append.mp hw with hw | hw
      · exact hsub.paints.ne_white_of_mem (List.mem_reverse.mp hw)
      · exact hsub.paints.ne_white (hvs' w hw)
    refine ⟨hd.2 ▸ hu, rfl, hnew, ?_⟩
    show Grafts g (target g d :: vs) (evs ++ .finishVertex (target g d) :: evs' ++ post)
    rw [List.append_assoc]
    apply ihsub (by simp) hvs'
    apply ihrest (by simp [hu]) hvs''
    simpa using hpost
  | back _ _ _ _ ih => exact ih hu hvs (by simpa using hpost)
  | seen _ _ _ _ ih => exact ih hu hvs (by simpa using hpost)
  | cross _ _ _ ih => exact ih hu hvs (by simpa using hpost)

/-- The tree edges lead to what is discovered. -/
lemma map_target_trees (h : Scans g func c u ei evs c') :
    (trees evs).map (target g) = discovered evs := by
  induction h with
  | nil => rfl
  | tree _ _ _ _ ihsub ihrest => simp [ihsub, ihrest]
  | back _ _ _ _ ih => simpa using ih
  | seen _ _ _ _ ih => simpa using ih
  | cross _ _ _ ih => simpa using ih

/-- A back edge leads to an ancestor, if the gray vertices are ancestors of `u`. -/
lemma ancestor (h : Scans g func c u ei evs c') {ts : List (EdgeDescriptor E)}
    (hts : ∀ w ∈ g.vertices, c.vertex w = .gray → ∃ ds, ds.Sublist ts ∧ (arcs g).Leads w ds u)
    {d : EdgeDescriptor E} (hd : d ∈ backs evs) :
    ∃ ds, ds.Sublist (ts ++ trees evs) ∧ (arcs g).Leads (target g d) ds (source g d) := by
  induction h generalizing ts with
  | nil => simp at hd
  | @tree c c₁ c₂ u d' ei evs evs' hd' hv hsub hrest ihsub ihrest =>
    have hsplit : trees (.examineEdge d' :: .treeEdge d' :: .discoverVertex (target g d') ::
        (evs ++ .finishVertex (target g d') :: evs')) = d' :: (trees evs ++ trees evs') := by simp
    rw [hsplit]
    rcases (by simpa using hd : d ∈ backs evs ∨ d ∈ backs evs') with hd | hd
    · -- the ancestors of the target are those of `u` and the target itself
      have htarget : ∀ w ∈ g.vertices,
          ((c.putEdge d' .black).putVertex (target g d') .gray).vertex w = .gray →
          ∃ ds, ds.Sublist (ts ++ [d']) ∧ (arcs g).Leads w ds (target g d') := by
        intro w hw hgray
        by_cases hne : w = target g d'
        · exact ⟨[], List.nil_sublist _, hne⟩
        · obtain ⟨ds, hds, hleads⟩ := hts w hw (by simpa [hne] using hgray)
          exact ⟨ds ++ [d'], hds.append_right [d'],
            Arcs.Leads.append_iff.mpr ⟨u, hleads, hd'.2, rfl⟩⟩
      obtain ⟨ds, hds, hleads⟩ := ihsub htarget hd
      refine ⟨ds, hds.trans ?_, hleads⟩
      simp
    · have hrest : ∀ w ∈ g.vertices, (c₁.putVertex (target g d') .black).vertex w = .gray →
          ∃ ds, ds.Sublist ts ∧ (arcs g).Leads w ds u := by
        intro w hw hgray
        by_cases hne : w = target g d'
        · simp [hne] at hgray
        · have hgray := hsub.paints.gray_of_gray (by simpa [hne] using hgray)
          exact hts w hw (by simpa [hne] using hgray)
      obtain ⟨ds, hds, hleads⟩ := ihrest hrest hd
      refine ⟨ds, hds.trans ?_, hleads⟩
      exact (List.Sublist.refl ts).append ((List.sublist_append_right _ _).cons d')
  | back hd' hv _ _ ih =>
    rcases (by simpa using hd : d = _ ∨ d ∈ backs _) with rfl | hd
    · obtain ⟨ds, hds, hleads⟩ := hts _ (target_mem hd'.1) hv
      exact ⟨ds, hds.trans (List.sublist_append_left _ _), hd'.2 ▸ hleads⟩
    · simpa using ih hts hd
  | seen _ _ _ _ ih => simpa using ih hts (by simpa using hd)
  | cross _ _ _ ih => simpa using ih hts (by simpa using hd)

/-- No edge turns white. -/
lemma edge_kept (h : Scans g func c u ei evs c') {e : E} (he : c.edge e ≠ .white) :
    c'.edge e ≠ .white := by
  induction h with
  | nil => exact he
  | tree _ _ _ _ ihsub ihrest => exact ihrest (ihsub (Colors.putEdge_ne_white.mpr (.inr he)))
  | back _ _ _ _ ih => exact ih (Colors.putEdge_ne_white.mpr (.inr he))
  | seen _ _ _ _ ih => exact ih (Colors.putEdge_ne_white.mpr (.inr he))
  | cross _ _ _ ih => exact ih (Colors.putEdge_ne_white.mpr (.inr he))

/-- No edge which was examined is white. -/
lemma edge_ne_white (h : Scans g func c u ei evs c') {d : EdgeDescriptor E}
    (hd : d ∈ examined evs) : c'.edge d.1 ≠ .white := by
  induction h with
  | nil => simp at hd
  | @tree c c₁ c₂ u d' ei evs evs' _ _ hsub hrest ihsub ihrest =>
    rcases (by simpa using hd : d = d' ∨ d ∈ examined evs ∨ d ∈ examined evs') with rfl | hd | hd
    · exact hrest.edge_kept (hsub.edge_kept (Colors.putEdge_ne_white.mpr (.inl rfl)))
    · exact hrest.edge_kept (ihsub hd)
    · exact ihrest hd
  | back _ _ _ hrest ih =>
    rcases (by simpa using hd : d = _ ∨ d ∈ examined _) with rfl | hd
    · exact hrest.edge_kept (Colors.putEdge_ne_white.mpr (.inl rfl))
    · exact ih hd
  | seen _ _ _ hrest ih =>
    rcases (by simpa using hd : d = _ ∨ d ∈ examined _) with rfl | hd
    · exact hrest.edge_kept (Colors.putEdge_ne_white.mpr (.inl rfl))
    · exact ih hd
  | cross _ _ hrest ih =>
    rcases (by simpa using hd : d = _ ∨ d ∈ examined _) with rfl | hd
    · exact hrest.edge_kept (Colors.putEdge_ne_white.mpr (.inl rfl))
    · exact ih hd

lemma edge_ne_white_of_mem (h : Scans g func c u ei evs c') {d : EdgeDescriptor E}
    (hd : d ∈ ei) : c'.edge d.1 ≠ .white :=
  h.edge_ne_white (h.perm_examined.mem_iff.mpr (List.mem_append_left _ hd))

/-- A search settles the edges of what it discovers. The edges which lose their white colour are
reported, each once. -/
lemma settled_reports (h : Scans g nontruth2 c u ei evs c') (hc : Settled g c)
    (hu : c.vertex u ≠ .white) :
    Settled g c' ∧ Reports c.edge ((reported evs).map Prod.fst) c'.edge := by
  induction h with
  | nil => exact ⟨hc, .refl _⟩
  | @tree c c₁ c₂ u d ei evs evs' hd hv hsub hrest ihsub ihrest =>
    have hu' : (c.putVertex (target g d) .gray).vertex u ≠ .white :=
      Colors.putVertex_ne_white (by decide) fun _ => hu
    have hgray : Settled g ((c.putEdge d .black).putVertex (target g d) .gray) :=
      hc.putVertex_gray.putEdge hd hu' (by simp)
    obtain ⟨hsettled, hreports⟩ := ihsub hgray (by simp)
    have hblack : Settled g (c₁.putVertex (target g d) .black) :=
      hsettled.putVertex_black (target_mem hd.1) fun d' hd' => hsub.edge_ne_white_of_mem hd'
    obtain ⟨hsettled', hreports'⟩ := ihrest hblack
      (Colors.putVertex_ne_white (by decide) fun _ => hsub.paints.ne_white hu')
    have h := (Reports.single (hc.ends d hd.1 hv)).trans (hreports.trans hreports')
    exact ⟨hsettled', by simpa using h⟩
  | back hd hv he _ ih =>
    obtain ⟨hsettled, hreports⟩ := ih (hc.putEdge hd hu (by simp [hv])) hu
    exact ⟨hsettled, by simpa using (Reports.single he).trans hreports⟩
  | seen hd hv he _ ih =>
    obtain ⟨hsettled, hreports⟩ := ih (hc.putEdge hd hu (by simp [hv])) hu
    exact ⟨hsettled, by simpa using (Reports.skip he).trans hreports⟩
  | cross hd hv _ ih =>
    obtain ⟨hsettled, hreports⟩ := ih (hc.putEdge hd hu (by simp [hv])) hu
    exact ⟨hsettled, by simpa using (Reports.skip (hc.done _ hd.1 hv)).trans hreports⟩

end Scans

/-! ### Sweeps -/

namespace Sweeps

variable [DecidableEq E] {c c' : Colors V E} {us : List V} {evs : List (Event V E)}

lemma grafts (h : Sweeps g c us evs c') {vs : List V} (hvs : ∀ v ∈ vs, c.vertex v ≠ .white) :
    Grafts g vs evs := by
  induction h generalizing vs with
  | nil => trivial
  | skip _ _ ih => exact ih hvs
  | @root c c₁ c₂ u us evs evs' _ hu hscan _ ih =>
    have hvs' : ∀ v ∈ u :: vs, (c.putVertex u .gray).vertex v ≠ .white :=
      fun v hv => Colors.putVertex_ne_white (by decide) fun hne =>
        hvs v (List.mem_of_ne_of_mem hne hv)
    refine ⟨fun hmem => hvs u hmem hu, hscan.grafts (by simp) hvs' (ih ?_)⟩
    intro v hv
    apply Colors.putVertex_ne_white (by decide)
    intro _
    rcases List.mem_append.mp hv with hv | hv
    · exact hscan.paints.ne_white_of_mem (List.mem_reverse.mp hv)
    · exact hscan.paints.ne_white (hvs' v hv)

/-- A vertex is discovered as a start vertex or through a tree edge. -/
lemma perm_started (h : Sweeps g c us evs c') :
    (discovered evs).Perm (started evs ++ (trees evs).map (target g)) := by
  induction h with
  | nil => exact .refl _
  | skip _ _ ih => exact ih
  | @root c c₁ c₂ u us evs evs' _ _ hscan _ ih =>
    have h := (ih.append_left (discovered evs)).trans (List.perm_append_comm_assoc _ _ _)
    simpa [hscan.started_eq_nil, hscan.map_target_trees] using h.cons u

/-- No vertex of the graph is gray between two searches. -/
lemma ne_gray (h : Sweeps g c us evs c') (hc : ∀ v ∈ g.vertices, c.vertex v ≠ .gray)
    (hv : v ∈ g.vertices) : c'.vertex v ≠ .gray :=
  fun hgray => hc v hv (h.paints.gray_of_gray hgray)

lemma ancestor (h : Sweeps g c us evs c') (hc : ∀ v ∈ g.vertices, c.vertex v ≠ .gray)
    {d : EdgeDescriptor E} (hd : d ∈ backs evs) :
    ∃ ds, ds.Sublist (trees evs) ∧ (arcs g).Leads (target g d) ds (source g d) := by
  induction h with
  | nil => simp at hd
  | skip _ _ ih => exact ih hc hd
  | @root c c₁ c₂ u us evs evs' _ hu hscan hrest ih =>
    have hsplit : trees (.startVertex u :: .discoverVertex u ::
        (evs ++ .finishVertex u :: evs')) = trees evs ++ trees evs' := by simp
    rw [hsplit]
    rcases (by simpa using hd : d ∈ backs evs ∨ d ∈ backs evs') with hd | hd
    · have hgray : ∀ w ∈ g.vertices, (c.putVertex u .gray).vertex w = .gray →
          ∃ ds, ds.Sublist [] ∧ (arcs g).Leads w ds u := by
        intro w hw hgray
        by_cases hne : w = u
        · exact ⟨[], .refl _, hne⟩
        · exact absurd (by simpa [hne] using hgray) (hc w hw)
      obtain ⟨ds, hds, hleads⟩ := hscan.ancestor hgray hd
      exact ⟨ds, hds.trans (List.sublist_append_left _ _), hleads⟩
    · have hc' : ∀ v ∈ g.vertices, (c₁.putVertex u .black).vertex v ≠ .gray := by
        intro v hv hgray
        by_cases hne : v = u
        · simp [hne] at hgray
        · have hgray := hscan.paints.gray_of_gray (by simpa [hne] using hgray)
          exact hc v hv (by simpa [hne] using hgray)
      obtain ⟨ds, hds, hleads⟩ := ih hc' hd
      exact ⟨ds, hds.trans (List.sublist_append_right _ _), hleads⟩

lemma settled_reports (h : Sweeps g c us evs c') (hc : Settled g c) :
    Settled g c' ∧ Reports c.edge ((reported evs).map Prod.fst) c'.edge := by
  induction h with
  | nil => exact ⟨hc, .refl _⟩
  | skip _ _ ih => exact ih hc
  | @root c c₁ c₂ u us evs evs' hmem hu hscan hrest ih =>
    obtain ⟨hsettled, hreports⟩ := hscan.settled_reports hc.putVertex_gray (by simp)
    have hblack : Settled g (c₁.putVertex u .black) :=
      hsettled.putVertex_black hmem fun d hd => hscan.edge_ne_white_of_mem hd
    obtain ⟨hsettled', hreports'⟩ := ih hblack
    exact ⟨hsettled', by simpa using hreports.trans hreports'⟩

/-- A sweep of all vertices reports every edge once. -/
lemma perm_edges (h : Sweeps g c us evs c') (hus : ∀ v ∈ g.vertices, v ∈ us)
    (hc : Settled g c) (hgray : ∀ v ∈ g.vertices, c.vertex v ≠ .gray)
    (hwhite : ∀ e ∈ g.edges, c.edge e = .white) :
    ((reported evs).map Prod.fst).Perm g.edges := by
  obtain ⟨hsettled, hreports⟩ := h.settled_reports hc
  rw [List.perm_ext_iff_of_nodup hreports.nodup g.edges_nodup]
  intro e
  constructor
  · intro he
    obtain ⟨d, hd, rfl⟩ := List.mem_map.mp he
    exact h.reported_mem hd
  · intro he
    have hmem : g.target e ∈ g.vertices := g.target_mem e he
    have hblack : c'.vertex (g.target e) = .black := by
      have hne := h.ne_white (hus _ hmem)
      have hne' := h.ne_gray hgray hmem
      generalize c'.vertex (g.target e) = color at hne hne'
      cases color <;> simp at hne hne' ⊢
    rcases (hreports.ne_white e).mp (hsettled.done (e, false) he hblack) with hmem | hne
    · exact hmem
    · exact absurd (hwhite e he) hne

end Sweeps

/-! ### The forest and the back edges -/

/-- Two orientations of one edge run along each other. -/
lemma along_of_eq {d t : EdgeDescriptor E} (h : d.1 = t.1) : (arcs g).Along d t := by
  obtain ⟨e, b⟩ := d
  obtain ⟨e', b'⟩ := t
  obtain rfl : e = e' := h
  refine ⟨rfl, ?_⟩
  cases b <;> cases b' <;> simp [arcs]

/-- A back edge and the tree edges from its target to its source make a cycle. -/
lemma exists_isCycle_of_back {evs : List (Event V E)}
    (hreported : ((trees evs ++ backs evs).map Prod.fst).Perm g.edges)
    (hancestors : ∀ d ∈ backs evs, ∃ ds, ds.Sublist (trees evs) ∧
      (arcs g).Leads (target g d) ds (source g d)) {d : EdgeDescriptor E} (hd : d ∈ backs evs) :
    ∃ ds, d ∈ ds ∧ (∀ d' ∈ ds, d'.1 ∈ g.edges) ∧ (arcs g).IsCycle (target g d) ds := by
  obtain ⟨ds, hds, hleads⟩ := hancestors d hd
  have hmem : ∀ d ∈ trees evs ++ backs evs, d.1 ∈ g.edges :=
    fun d hd => hreported.subset (List.mem_map_of_mem hd)
  have hnodup := hreported.nodup_iff.mpr g.edges_nodup
  rw [List.map_append, List.nodup_append] at hnodup
  have hnot : d.1 ∉ (trees evs).map Prod.fst :=
    fun h => hnodup.2.2 _ h _ (List.mem_map_of_mem hd) rfl
  refine ⟨ds ++ [d], by simp, fun d' hd' => hmem d' ?_, .of_sublist hnodup.1 hds hnot hleads⟩
  rcases List.mem_append.mp hd' with hd' | hd'
  · exact List.mem_append_left _ (hds.subset hd')
  · exact List.mem_append_right _ (List.mem_singleton.mp hd' ▸ hd)

/-- There is a back edge in a component if and only if there is a cycle. -/
lemma exists_back_iff {evs : List (Event V E)}
    (hreported : ((trees evs ++ backs evs).map Prod.fst).Perm g.edges)
    (hgrows : (arcs g).Grows (trees evs))
    (hancestors : ∀ d ∈ backs evs, ∃ ds, ds.Sublist (trees evs) ∧
      (arcs g).Leads (target g d) ds (source g d)) (u : V) :
    (∃ d ∈ backs evs, Joined g u (source g d)) ↔
      ∃ v ds, Joined g u v ∧ (∀ d ∈ ds, d.1 ∈ g.edges) ∧ (arcs g).IsCycle v ds := by
  constructor
  · rintro ⟨d, hd, hjoined⟩
    obtain ⟨ds, hmem, hds, hcycle⟩ := exists_isCycle_of_back hreported hancestors hd
    exact ⟨target g d, ds, hjoined.tail ⟨d, ⟨hds d hmem, rfl⟩, rfl⟩, hds, hcycle⟩
  · rintro ⟨v, ds, hjoined, hds, hcycle⟩
    by_contra hnone
    refine hgrows.not_isCycle (fun d hd => ?_) hcycle
    obtain ⟨t, ht, heq⟩ := List.mem_map.mp (hreported.symm.subset (hds d hd))
    refine ⟨t, (List.mem_append.mp ht).resolve_right fun hback => ?_, along_of_eq heq.symm⟩
    -- both ends of a back edge on the cycle are in the component
    obtain ⟨l, hl, hleads⟩ := hcycle.leads.exists_of_mem hd
    have hsource : Joined g u (source g d) :=
      hjoined.trans (Joined.of_leads hleads fun d' hd' => hds d' (hl d' hd'))
    have htarget : Joined g u (target g d) := hsource.tail ⟨d, ⟨hds d hd, rfl⟩, rfl⟩
    apply hnone
    refine ⟨t, hback, ?_⟩
    obtain ⟨-, ⟨hs, -⟩ | ⟨hs, -⟩⟩ := along_of_eq (g := g) heq
    · exact (show source g t = source g d from hs) ▸ hsource
    · exact (show source g t = target g d from hs) ▸ htarget

/-- The calls of a search that splits the edges into a spanning forest and back edges. -/
structure SplitsEdges (g : BidirectionalGraph V E) (evs : List (Event V E)) : Prop where
  reported : ((trees evs ++ backs evs).map Prod.fst).Perm g.edges
  nests : Nests g [] evs
  grafts : Grafts g [] evs
  forest : ∀ u ds, (∀ d ∈ ds, d.1 ∈ (trees evs).map Prod.fst) → ¬ (arcs g).IsCycle u ds
  components : (started evs).Nodup ∧ ∀ v ∈ g.vertices, ∃! r, r ∈ started evs ∧ Joined g r v
  spanning : ∀ v ∈ g.vertices, ∃ r ∈ started evs, ∃ ds, ds.Sublist (trees evs) ∧
    (arcs g).Leads r ds v
  count : (trees evs).length + (started evs).length = g.vertices.length
  ancestors : ∀ d ∈ backs evs, ∃ ds, ds.Sublist (trees evs) ∧
    (arcs g).Leads (target g d) ds (source g d)
  cyclic : ∀ u ∈ g.vertices, (∃ d ∈ backs evs, Joined g u (source g d)) ↔
    ∃ v ds, Joined g u v ∧ (∀ d ∈ ds, d.1 ∈ g.edges) ∧ (arcs g).IsCycle v ds

lemma grafts_initializeVertex (us vs : List V) (evs : List (Event V E)) :
    Grafts g vs (us.map .initializeVertex ++ evs) ↔ Grafts g vs evs := by
  induction us with
  | nil => rfl
  | cons u us ih => simpa [Grafts] using ih

/-- At the start no edge is reported. -/
lemma settled_paintWhite [DecidableEq E] (c : Colors V E) : Settled g (paintWhite g c) := by
  refine ⟨fun d hd _ => paintWhite_edge c hd, fun d hd hblack => ?_⟩
  rw [paintWhite_vertex c (target_mem hd)] at hblack
  cases hblack

lemma paintWhite_ne_gray [DecidableEq E] (c : Colors V E) :
    ∀ v ∈ g.vertices, (paintWhite g c).vertex v ≠ .gray := by
  intro v hv
  rw [paintWhite_vertex c hv]
  decide

/-- `undirected_dfs` splits the edges into a spanning forest and back edges. -/
theorem undirectedDfs_splitsEdges [DecidableEq E] (g : BidirectionalGraph V E) (c : Colors V E)
    {startVertex : V} (hstart : startVertex ∈ g.vertices) :
    ∃ k c' evs, (∀ fuel, k ≤ fuel → undirectedDfs g fuel c startVertex = some (c', evs)) ∧
      SplitsEdges g evs := by
  obtain ⟨evs, c', hsweep, k, hk⟩ := undirectedDfs_sweeps c hstart
  have hwhite : ∀ v ∈ g.vertices, (paintWhite g c).vertex v = .white :=
    fun v hv => paintWhite_vertex c hv
  have hgray := paintWhite_ne_gray (g := g) c
  have hclosed := closed_paintWhite (g := g) c
  have hsettled := settled_paintWhite (g := g) c
  have hdiscovered := hsweep.perm_discovered (by simp +contextual) hwhite
  have hreported : ((trees evs ++ backs evs).map Prod.fst).Perm g.edges :=
    ((perm_reported evs).map _).symm.trans (hsweep.perm_edges (by simp +contextual) hsettled
      hgray fun e he => paintWhite_edge c he)
  have hgrafts : Grafts g [] evs := hsweep.grafts (by simp)
  have hancestors := fun d (hd : d ∈ backs evs) => hsweep.ancestor hgray hd
  refine ⟨k, c', _, hk, ?_⟩
  have htrees : trees (g.vertices.map .initializeVertex ++ evs) = trees evs :=
    calls_initializeVertex _ (fun _ => rfl) _ _
  have hbacks : backs (g.vertices.map .initializeVertex ++ evs) = backs evs :=
    calls_initializeVertex _ (fun _ => rfl) _ _
  have hstarted : started (g.vertices.map .initializeVertex ++ evs) = started evs :=
    calls_initializeVertex _ (fun _ => rfl) _ _
  constructor
  · rwa [htrees, hbacks]
  · exact (nests_initializeVertex _ _).mpr hsweep.nests
  · exact (grafts_initializeVertex _ _ _).mpr hgrafts
  · intro u ds hds
    refine hgrafts.grows.2.not_isCycle fun d hd => ?_
    obtain ⟨t, ht, heq⟩ := List.mem_map.mp (hds d hd)
    exact ⟨t, htrees ▸ ht, along_of_eq heq.symm⟩
  · rw [hstarted]
    exact ⟨hsweep.nodup_started hclosed, fun v hv =>
      hsweep.existsUnique_started hclosed (hdiscovered.mem_iff.mpr hv)⟩
  · intro v hv
    obtain ⟨r, hr, -, hleads⟩ := hsweep.exists_leads (hdiscovered.mem_iff.mpr hv)
    rw [hstarted, htrees]
    exact ⟨r, hr, hleads⟩
  · have hlength := (hdiscovered.symm.trans hsweep.perm_started).length_eq
    rw [List.length_append, List.length_map] at hlength
    rw [htrees, hstarted, hlength, Nat.add_comm]
  · rw [hbacks, htrees]
    exact hancestors
  · intro u _
    rw [hbacks]
    exact exists_back_iff hreported hgrafts.grows.2 hancestors u

theorem undirectedDfs_splitsEdges_loopsGraph :
    1 ∈ loopsGraph.vertices ∧ ∃ k c' evs,
      (∀ fuel, k ≤ fuel → undirectedDfs loopsGraph fuel ⟨fun _ => .gray, fun _ => .black⟩ 1 =
        some (c', evs)) ∧ SplitsEdges loopsGraph evs :=
  ⟨by decide, undirectedDfs_splitsEdges loopsGraph _ (by decide)⟩

end UndirectedGraph

end Utilmm
