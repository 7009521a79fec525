import Utilmm.Core.Trail
import Utilmm.Graph.UndirectedDfs

/-!
# What `undirected_dfs` visits

A scan paints black what it discovers and leaves the other vertices alone. All that a discovered
vertex is adjacent to is painted by then, so a search covers one component, and the calls of the
visitor count every vertex once and every edge twice.
-/

namespace Utilmm

namespace UndirectedGraph

variable {V E : Type}

/-! ### The calls of one kind -/

namespace Event

@[simp] def started : Event V E → Option V
  | startVertex u => some u
  | _ => none

@[simp] def discovered : Event V E → Option V
  | discoverVertex u => some u
  | _ => none

@[simp] def finished : Event V E → Option V
  | finishVertex u => some u
  | _ => none

@[simp] def examined : Event V E → Option (EdgeDescriptor E)
  | examineEdge d => some d
  | _ => none

@[simp] def tree : Event V E → Option (EdgeDescriptor E)
  | treeEdge d => some d
  | _ => none

@[simp] def back : Event V E → Option (EdgeDescriptor E)
  | backEdge d => some d
  | _ => none

/-- The calls which put an edge into the forest or not. -/
@[simp] def reported : Event V E → Option (EdgeDescriptor E)
  | treeEdge d => some d
  | backEdge d => some d
  | _ => none

end Event

/-- What `f` picks from the calls. -/
def calls {α : Type} (f : Event V E → Option α) (evs : List (Event V E)) : List α :=
  evs.filterMap f

section

variable {α : Type} (f : Event V E → Option α)

@[simp] lemma calls_nil : calls f [] = [] := rfl

@[simp] lemma calls_cons (e : Event V E) (evs : List (Event V E)) :
    calls f (e :: evs) = (f e).toList ++ calls f evs := by
  rw [calls, List.filterMap_cons]
  cases f e <;> rfl

@[simp] lemma calls_append (evs evs' : List (Event V E)) :
    calls f (evs ++ evs') = calls f evs ++ calls f evs' := List.filterMap_append

lemma calls_initializeVertex (hf : ∀ u, f (.initializeVertex u) = none) (us : List V)
    (evs : List (Event V E)) : calls f (us.map .initializeVertex ++ evs) = calls f evs := by
  induction us with
  | nil => rfl
  | cons u us ih => simpa [hf] using ih

end

abbrev started (evs : List (Event V E)) : List V := calls Event.started evs
abbrev discovered (evs : List (Event V E)) : List V := calls Event.discovered evs
abbrev finished (evs : List (Event V E)) : List V := calls Event.finished evs
abbrev examined (evs : List (Event V E)) : List (EdgeDescriptor E) := calls Event.examined evs
abbrev trees (evs : List (Event V E)) : List (EdgeDescriptor E) := calls Event.tree evs
abbrev backs (evs : List (Event V E)) : List (EdgeDescriptor E) := calls Event.back evs
abbrev reported (evs : List (Event V E)) : List (EdgeDescriptor E) := calls Event.reported evs

lemma perm_reported (evs : List (Event V E)) :
    (reported evs).Perm (trees evs ++ backs evs) := by
  induction evs with
  | nil => exact .refl _
  | cons e evs ih =>
    cases e with
    | treeEdge d => simpa using ih
    | backEdge d => simpa using (ih.cons d).trans List.perm_middle.symm
    | _ => simpa using ih

/-! ### What is painted -/

section

variable [DecidableEq V] {m m₁ m' : V → Color} {vs vs' : List V} {v : V}

/-- The white vertices `vs` are painted black, and no other vertex is painted. -/
structure Paints (m : V → Color) (vs : List V) (m' : V → Color) : Prop where
  white : ∀ v ∈ vs, m v = .white
  nodup : vs.Nodup
  result : ∀ v, m' v = if v ∈ vs then .black else m v

namespace Paints

lemma refl (m : V → Color) : Paints m [] m := ⟨by simp, by simp, by simp⟩

/-- A vertex stays gray while what it leads to is painted. -/
lemma descend (hv : m v = .white) (hsub : Paints (Function.update m v .gray) vs m₁)
    (hrest : Paints (Function.update m₁ v .black) vs' m') : Paints m (v :: (vs ++ vs')) m' := by
  have hvs : ∀ w ∈ vs, w ≠ v ∧ m w = .white := by
    intro w hw
    have h := hsub.white w hw
    by_cases hwv : w = v
    · simp [hwv] at h
    · exact ⟨hwv, by simpa [hwv] using h⟩
  have hvs' : ∀ w ∈ vs', w ≠ v ∧ w ∉ vs ∧ m w = .white := by
    intro w hw
    have h := hrest.white w hw
    by_cases hwv : w = v
    · simp [hwv] at h
    · rw [Function.update_of_ne hwv, hsub.result] at h
      by_cases hws : w ∈ vs
      · simp [hws] at h
      · exact ⟨hwv, hws, by simpa [hws, hwv] using h⟩
  refine ⟨?_, ?_, ?_⟩
  · intro w hw
    rcases List.mem_cons.mp hw with rfl | hw
    · exact hv
    rcases List.mem_append.mp hw with hw | hw
    · exact (hvs w hw).2
    · exact (hvs' w hw).2.2
  · rw [List.nodup_cons, List.nodup_append, List.mem_append]
    refine ⟨?_, hsub.nodup, hrest.nodup, ?_⟩
    · rintro (hw | hw)
      · exact (hvs v hw).1 rfl
      · exact (hvs' v hw).1 rfl
    · rintro w hw w' hw' rfl
      exact (hvs' w hw').2.1 hw
  · intro w
    rw [hrest.result]
    by_cases hw' : w ∈ vs'
    · simp [hw']
    by_cases hwv : w = v
    · simp [hwv]
    · rw [if_neg hw', Function.update_of_ne hwv, hsub.result, Function.update_of_ne hwv]
      simp [hwv, hw']

lemma of_ne_white (h : Paints m vs m') (hv : m v ≠ .white) : m' v = m v :=
  (h.result v).trans (if_neg fun hmem => hv (h.white v hmem))

lemma ne_white (h : Paints m vs m') (hv : m v ≠ .white) : m' v ≠ .white :=
  h.of_ne_white hv ▸ hv

/-- What is not white any more was painted. -/
lemma mem_of_ne_white (h : Paints m vs m') (hv : m v = .white) (hv' : m' v ≠ .white) :
    v ∈ vs := by
  by_contra hmem
  exact hv' ((h.result v).trans ((if_neg hmem).trans hv))

lemma ne_white_of_mem (h : Paints m vs m') (hv : v ∈ vs) : m' v ≠ .white := by
  rw [h.result v, if_pos hv]
  decide

lemma gray_of_gray (h : Paints m vs m') (hv : m' v = .gray) : m v = .gray := by
  rw [h.result v] at hv
  split at hv
  · cases hv
  · exact hv

end Paints

end

/-! ### Components -/

variable [DecidableEq V]

/-- Some edge of the graph goes from `u` to `v`. -/
def Adjacent (g : BidirectionalGraph V E) (u v : V) : Prop :=
  ∃ d : EdgeDescriptor E, Leaves g u d ∧ target g d = v

/-- Two vertices of one component. -/
def Joined (g : BidirectionalGraph V E) : V → V → Prop := Relation.ReflTransGen (Adjacent g)

/-- The edge descriptors as arcs. -/
def arcs (g : BidirectionalGraph V E) : Arcs V (EdgeDescriptor E) E :=
  ⟨source g, target g, Prod.fst⟩

variable {g : BidirectionalGraph V E} {u v w : V}

lemma Adjacent.symm (h : Adjacent g u v) : Adjacent g v u := by
  obtain ⟨⟨e, b⟩, ⟨he, rfl⟩, rfl⟩ := h
  exact ⟨(e, !b), ⟨he, source_not⟩, target_not⟩

lemma Joined.symm (h : Joined g u v) : Joined g v u := by
  have : Std.Symm (Adjacent g) := ⟨fun _ _ => Adjacent.symm⟩
  exact Relation.ReflTransGen.stdSymm.symm _ _ h

/-- A trail along edges of the graph stays in a component. -/
lemma Joined.of_leads {ds : List (EdgeDescriptor E)} (h : (arcs g).Leads u ds v)
    (hds : ∀ d ∈ ds, d.1 ∈ g.edges) : Joined g u v :=
  h.reflTransGen fun d hd => ⟨d, ⟨hds d hd, rfl⟩, rfl⟩

lemma Joined.mem_vertices (h : Joined g u v) (hu : u ∈ g.vertices) : v ∈ g.vertices := by
  induction h with
  | refl => exact hu
  | tail _ hadj _ =>
    obtain ⟨d, ⟨hd, -⟩, rfl⟩ := hadj
    exact target_mem hd

/-- No vertex that is painted is adjacent to a white one. -/
def Closed (g : BidirectionalGraph V E) (m : V → Color) : Prop :=
  ∀ u v, Adjacent g u v → m u ≠ .white → m v ≠ .white

lemma Closed.joined {m : V → Color} (h : Closed g m) (huv : Joined g u v) (hu : m u ≠ .white) :
    m v ≠ .white := by
  induction huv with
  | refl => exact hu
  | tail _ hadj ih => exact h _ _ hadj ih

/-! ### Nesting -/

/-- The calls go on with the vertices `us` open: the last one discovered is the first to be
finished, and the edges which are examined in between leave it. -/
def Nests (g : BidirectionalGraph V E) : List V → List (Event V E) → Prop
  | us, [] => us = []
  | us, .initializeVertex _ :: evs => us = [] ∧ Nests g us evs
  | us, .startVertex _ :: evs => us = [] ∧ Nests g us evs
  | us, .discoverVertex u :: evs => Nests g (u :: us) evs
  | [], .finishVertex _ :: _ => False
  | u :: us, .finishVertex v :: evs => v = u ∧ Nests g us evs
  | us, .examineEdge d :: evs => us.head? = some (source g d) ∧ Nests g us evs
  | us, .treeEdge d :: evs => us.head? = some (source g d) ∧ Nests g us evs
  | us, .backEdge d :: evs => us.head? = some (source g d) ∧ Nests g us evs
  | us, .forwardOrCrossEdge d :: evs => us.head? = some (source g d) ∧ Nests g us evs

/-! ### Scans -/

namespace Scans

variable [DecidableEq E] {func : V → Bool} {c c' : Colors V E}
  {ei : List (EdgeDescriptor E)} {evs : List (Event V E)}

lemma paints (h : Scans g func c u ei evs c') :
    Paints c.vertex (discovered evs) c'.vertex := by
  induction h with
  | nil => exact .refl _
  | tree _ hv _ _ ihsub ihrest => simpa using ihsub.descend hv ihrest
  | back _ _ _ _ ih => simpa using ih
  | seen _ _ _ _ ih => simpa using ih
  | cross _ _ _ ih => simpa using ih

lemma perm_finished (h : Scans g func c u ei evs c') :
    (finished evs).Perm (discovered evs) := by
  induction h with
  | nil => exact .refl _
  | @tree c c₁ c₂ u d ei evs evs' _ _ _ _ ihsub ihrest =>
    simpa using List.perm_middle.trans ((ihsub.append ihrest).cons (target g d))
  | back _ _ _ _ ih => simpa using ih
  | seen _ _ _ _ ih => simpa using ih
  | cross _ _ _ ih => simpa using ih

/-- The edges of `u` are examined, and those of the vertices which are discovered. -/
lemma perm_examined (h : Scans g func c u ei evs c') :
    (examined evs).Perm (ei ++ (discovered evs).flatMap (range g func)) := by
  induction h with
  | nil => exact .refl _
  | @tree c c₁ c₂ u d ei evs evs' _ _ _ _ ihsub ihrest =>
    have h := (ihsub.append ihrest).trans (List.perm_append_comm_assoc _ _ _)
    simpa using h.cons d
  | back _ _ _ _ ih => simpa using ih
  | seen _ _ _ _ ih => simpa using ih
  | cross _ _ _ ih => simpa using ih

lemma started_eq_nil (h : Scans g func c u ei evs c') : started evs = [] := by
  induction h with
  | nil => rfl
  | tree _ _ _ _ ihsub ihrest => simp_all
  | back _ _ _ _ ih => simpa using ih
  | seen _ _ _ _ ih => simpa using ih
  | cross _ _ _ ih => simpa using ih

lemma nests (h : Scans g func c u ei evs c') (us : List V) (post : List (Event V E)) :
    Nests g (u :: us) (evs ++ post) ↔ Nests g (u :: us) post := by
  induction h generalizing us post with
  | nil => rfl
  | tree hd _ _ _ ihsub ihrest => simp [Nests, hd.2, ihsub, ihrest]
  | back hd _ _ _ ih => simp [Nests, hd.2, ih]
  | seen hd _ _ _ ih => simp [Nests, hd.2, ih]
  | cross hd _ _ ih => simp [Nests, hd.2, ih]

/-- Tree edges lead to all that is discovered. -/
lemma exists_leads (h : Scans g func c u ei evs c') (hv : v ∈ discovered evs) :
    ∃ ds, ds.Sublist (trees evs) ∧ (arcs g).Leads u ds v := by
  induction h with
  | nil => simp at hv
  | @tree c c₁ c₂ u d ei evs evs' hd _ _ _ ihsub ihrest =>
    simp only [calls_cons, calls_append] at hv ⊢
    simp only [Event.discovered, Event.tree, Option.toList_none, Option.toList_some,
      List.nil_append, List.singleton_append, List.mem_cons, List.mem_append] at hv ⊢
    rcases hv with rfl | hv | hv
    · exact ⟨[d], by simp, hd.2, rfl⟩
    · obtain ⟨ds, hds, hleads⟩ := ihsub hv
      exact ⟨d :: ds, (hds.trans (List.sublist_append_left _ _)).cons_cons d, hd.2, hleads⟩
    · obtain ⟨ds, hds, hleads⟩ := ihrest hv
      exact ⟨ds, (hds.trans (List.sublist_append_right _ _)).cons d, hleads⟩
  | back _ _ _ _ ih => simpa using ih (by simpa using hv)
  | seen _ _ _ _ ih => simpa using ih (by simpa using hv)
  | cross _ _ _ ih => simpa using ih (by simpa using hv)

lemma reported_mem (h : Scans g func c u ei evs c') {d : EdgeDescriptor E}
    (hd : d ∈ reported evs) : d.1 ∈ g.edges := by
  induction h with
  | nil => simp at hd
  | @tree c c₁ c₂ u d' ei evs evs' hd' _ _ _ ihsub ihrest =>
    rcases (by simpa using hd : d = d' ∨ d ∈ reported evs ∨ d ∈ reported evs') with rfl | hd | hd
    · exact hd'.1
    · exact ihsub hd
    · exact ihrest hd
  | back hd' _ _ _ ih =>
    rcases (by simpa using hd : d = _ ∨ d ∈ reported _) with rfl | hd
    · exact hd'.1
    · exact ih hd
  | seen _ _ _ _ ih => exact ih (by simpa using hd)
  | cross _ _ _ ih => exact ih (by simpa using hd)

/-- All that is discovered is joined to `u`. -/
lemma joined (h : Scans g func c u ei evs c') (hv : v ∈ discovered evs) : Joined g u v := by
  obtain ⟨ds, hds, hleads⟩ := h.exists_leads hv
  refine .of_leads hleads fun d hd => h.reported_mem ?_
  exact (perm_reported evs).mem_iff.mpr (List.mem_append_left _ (hds.subset hd))

/-- The targets of the edges which were examined are painted. -/
lemma target_ne_white (h : Scans g func c u ei evs c') {d : EdgeDescriptor E}
    (hd : d ∈ examined evs) : c'.vertex (target g d) ≠ .white := by
  induction h with
  | nil => simp at hd
  | @tree c c₁ c₂ u d' ei evs evs' _ hv hsub hrest ihsub ihrest =>
    have hd : d = d' ∨ d ∈ examined evs ∨ d ∈ examined evs' := by simpa using hd
    rcases hd with rfl | hd | hd
    · exact hrest.paints.ne_white (by simp)
    · exact hrest.paints.ne_white (Colors.putVertex_ne_white (by decide) fun _ => ihsub hd)
    · exact ihrest hd
  | back _ hv _ hrest ih =>
    rcases (by simpa using hd : d = _ ∨ d ∈ examined _) with rfl | hd
    · exact hrest.paints.ne_white (by simp [hv])
    · exact ih hd
  | seen _ hv _ hrest ih =>
    rcases (by simpa using hd : d = _ ∨ d ∈ examined _) with rfl | hd
    · exact hrest.paints.ne_white (by simp [hv])
    · exact ih hd
  | cross _ hv hrest ih =>
    rcases (by simpa using hd : d = _ ∨ d ∈ examined _) with rfl | hd
    · exact hrest.paints.ne_white (by simp [hv])
    · exact ih hd

/-- A search leaves no vertex that is painted next to a white one. -/
lemma closed (h : Scans g nontruth2 (c.putVertex u .gray) u (descriptors g u) evs c')
    (hu : u ∈ g.vertices) (hc : Closed g c.vertex) : Closed g c'.vertex := by
  intro v w hvw hv
  have hmem : ∀ x, x = u ∨ x ∈ discovered evs → x ∈ g.vertices := by
    rintro x (rfl | hx)
    · exact hu
    · exact (h.joined hx).mem_vertices hu
  by_cases hnew : v = u ∨ v ∈ discovered evs
  · obtain ⟨d, hd, rfl⟩ := hvw
    have hd' := (mem_descriptors (hmem v hnew)).mpr hd
    apply h.target_ne_white
    rw [h.perm_examined.mem_iff, List.mem_append, List.mem_flatMap]
    rcases hnew with rfl | hnew
    · exact .inl hd'
    · exact .inr ⟨v, hnew, hd'⟩
  · obtain ⟨hvu, hvs⟩ := not_or.mp hnew
    have hcv : c.vertex v ≠ .white := by
      rw [h.paints.result, if_neg hvs] at hv
      simpa [hvu] using hv
    apply h.paints.ne_white
    exact Colors.putVertex_ne_white (by decide) fun _ => hc v w hvw hcv

end Scans

/-! ### Sweeps -/

namespace Sweeps

variable [DecidableEq E] {c c' : Colors V E} {us : List V} {evs : List (Event V E)}

lemma paints (h : Sweeps g c us evs c') : Paints c.vertex (discovered evs) c'.vertex := by
  induction h with
  | nil => exact .refl _
  | skip _ _ ih => exact ih
  | root _ hu hscan _ ih => simpa using hscan.paints.descend hu ih

lemma perm_finished (h : Sweeps g c us evs c') : (finished evs).Perm (discovered evs) := by
  induction h with
  | nil => exact .refl _
  | skip _ _ ih => exact ih
  | @root c c₁ c₂ u us evs evs' _ _ hscan _ ih =>
    simpa using List.perm_middle.trans ((hscan.perm_finished.append ih).cons u)

lemma perm_examined (h : Sweeps g c us evs c') :
    (examined evs).Perm ((discovered evs).flatMap (descriptors g)) := by
  induction h with
  | nil => exact .refl _
  | skip _ _ ih => exact ih
  | root _ _ hscan _ ih => simpa [range_nontruth2] using hscan.perm_examined.append ih

lemma nests (h : Sweeps g c us evs c') : Nests g [] evs := by
  induction h with
  | nil => rfl
  | skip _ _ ih => exact ih
  | root _ _ hscan _ ih => simp [Nests, hscan.nests, ih]

/-- Every vertex of the list is painted in the end. -/
lemma ne_white (h : Sweeps g c us evs c') (hu : u ∈ us) : c'.vertex u ≠ .white := by
  induction h with
  | nil => cases hu
  | skip hv hrest ih =>
    rcases List.mem_cons.mp hu with rfl | hu
    · exact hrest.paints.ne_white hv
    · exact ih hu
  | root _ _ _ hrest ih =>
    rcases List.mem_cons.mp hu with rfl | hu
    · exact hrest.paints.ne_white (by simp)
    · exact ih hu

/-- Tree edges lead from the start vertices to all that is discovered. -/
lemma exists_leads (h : Sweeps g c us evs c') (hv : v ∈ discovered evs) :
    ∃ r ∈ started evs, r ∈ g.vertices ∧ ∃ ds, ds.Sublist (trees evs) ∧ (arcs g).Leads r ds v := by
  induction h with
  | nil => simp at hv
  | skip _ _ ih => exact ih hv
  | @root c c₁ c₂ u us evs evs' hmem _ hscan _ ih =>
    have hv : v = u ∨ v ∈ discovered evs ∨ v ∈ discovered evs' := by simpa using hv
    rcases hv with rfl | hv | hv
    · exact ⟨v, by simp, hmem, [], by simp, rfl⟩
    · obtain ⟨ds, hds, hleads⟩ := hscan.exists_leads hv
      exact ⟨u, by simp, hmem, ds, by simpa using hds.trans (List.sublist_append_left _ _), hleads⟩
    · obtain ⟨r, hr, hrmem, ds, hds, hleads⟩ := ih hv
      exact ⟨r, by simp [hr], hrmem, ds,
        by simpa using hds.trans (List.sublist_append_right _ _), hleads⟩

lemma reported_mem (h : Sweeps g c us evs c') {d : EdgeDescriptor E} (hd : d ∈ reported evs) :
    d.1 ∈ g.edges := by
  induction h with
  | nil => simp at hd
  | skip _ _ ih => exact ih hd
  | root _ _ hscan _ ih =>
    rcases (by simpa using hd : d ∈ reported _ ∨ d ∈ reported _) with hd | hd
    · exact hscan.reported_mem hd
    · exact ih hd

/-- All that is discovered is joined to a start vertex. -/
lemma exists_joined (h : Sweeps g c us evs c') (hv : v ∈ discovered evs) :
    ∃ r ∈ started evs, r ∈ g.vertices ∧ Joined g r v := by
  obtain ⟨r, hr, hrmem, ds, hds, hleads⟩ := h.exists_leads hv
  refine ⟨r, hr, hrmem, .of_leads hleads fun d hd => h.reported_mem ?_⟩
  exact (perm_reported evs).mem_iff.mpr (List.mem_append_left _ (hds.subset hd))

/-- A component has one start vertex. -/
lemma pairwise_started (h : Sweeps g c us evs c') (hc : Closed g c.vertex) :
    (∀ r ∈ started evs, c.vertex r = .white) ∧
      (started evs).Pairwise fun r r' => ¬ Joined g r r' := by
  induction h with
  | nil => simp
  | skip _ _ ih => exact ih hc
  | @root c c₁ c₂ u us evs evs' hmem hu hscan hrest ih =>
    have hclosed : Closed g (c₁.putVertex u .black).vertex := by
      intro v w hvw hv
      apply Colors.putVertex_ne_white (by decide)
      intro _
      apply hscan.closed hmem hc v w hvw
      by_cases hvu : v = u
      · exact hvu ▸ hscan.paints.ne_white (by simp)
      · simpa [hvu] using hv
    obtain ⟨hwhite, hpair⟩ := ih hclosed
    have hstarted : started (.startVertex u :: .discoverVertex u ::
        (evs ++ .finishVertex u :: evs')) = u :: started evs' := by
      simpa using hscan.started_eq_nil
    rw [hstarted, List.pairwise_cons]
    refine ⟨?_, ?_, hpair⟩
    · intro r hr
      rcases List.mem_cons.mp hr with rfl | hr
      · exact hu
      by_contra hne
      refine absurd (hwhite r hr) (Colors.putVertex_ne_white (by decide) fun _ => ?_)
      exact hscan.paints.ne_white (Colors.putVertex_ne_white (by decide) fun _ => hne)
    · intro r hr hjoined
      exact hclosed.joined hjoined (by simp) (hwhite r hr)

end Sweeps

/-! ### The search -/

/-- The calls of a search that visits the whole graph once. -/
structure VisitsOnce (g : BidirectionalGraph V E) (startVertex : V) (evs : List (Event V E)) :
    Prop where
  discovered : (discovered evs).Perm g.vertices
  finished : (finished evs).Perm g.vertices
  nests : Nests g [] evs
  started_first : (started evs).head? = some startVertex
  started_nodup : (started evs).Nodup
  components : ∀ v ∈ g.vertices, ∃! r, r ∈ started evs ∧ Joined g r v
  examined : (examined evs).Perm (g.edges.flatMap orientations)

lemma nests_initializeVertex (us : List V) (evs : List (Event V E)) :
    Nests g [] (us.map .initializeVertex ++ evs) ↔ Nests g [] evs := by
  induction us with
  | nil => rfl
  | cons u us ih => simp [Nests, ih]

section

variable [DecidableEq E] {c c' : Colors V E} {us : List V} {evs : List (Event V E)}

/-- A sweep of all vertices, while they are white, discovers each of them. -/
lemma Sweeps.perm_discovered (h : Sweeps g c us evs c') (hus : ∀ v ∈ g.vertices, v ∈ us)
    (hwhite : ∀ v ∈ g.vertices, c.vertex v = .white) :
    (discovered evs).Perm g.vertices := by
  rw [List.perm_ext_iff_of_nodup h.paints.nodup g.vertices_nodup]
  intro v
  constructor
  · intro hv
    obtain ⟨r, -, hr, hjoined⟩ := h.exists_joined hv
    exact hjoined.mem_vertices hr
  · intro hv
    exact h.paints.mem_of_ne_white (hwhite v hv) (h.ne_white (hus v hv))

/-- Each component has one start vertex among the vertices of a sweep. -/
lemma Sweeps.existsUnique_started (h : Sweeps g c us evs c') (hc : Closed g c.vertex)
    (hv : v ∈ discovered evs) :
    ∃! r, r ∈ started evs ∧ Joined g r v := by
  obtain ⟨r, hr, -, hrv⟩ := h.exists_joined hv
  refine ⟨r, ⟨hr, hrv⟩, ?_⟩
  rintro r' ⟨hr', hrv'⟩
  by_contra hne
  have : Std.Symm fun a b => ¬ Joined g a b := ⟨fun _ _ h h' => h h'.symm⟩
  exact (h.pairwise_started hc).2.forall hr' hr hne (hrv'.trans hrv.symm)

lemma Sweeps.nodup_started (h : Sweeps g c us evs c') (hc : Closed g c.vertex) :
    (started evs).Nodup := by
  apply (h.pairwise_started hc).2.imp
  rintro r r' hne rfl
  exact hne .refl

lemma Sweeps.started_head (h : Sweeps g c (u :: us) evs c') (hu : c.vertex u = .white) :
    (started evs).head? = some u := by
  cases h with
  | skip hne => exact absurd hu hne
  | root => simp

/-- At the start no vertex is discovered. -/
lemma closed_paintWhite (c : Colors V E) : Closed g (paintWhite g c).vertex := by
  rintro u v ⟨d, ⟨hd, rfl⟩, rfl⟩ hne
  exact absurd (paintWhite_vertex c (source_mem hd)) hne

/-- `undirected_dfs` ends, and it visits the whole graph once. -/
theorem undirectedDfs_visitsOnce (g : BidirectionalGraph V E) (c : Colors V E) {startVertex : V}
    (hstart : startVertex ∈ g.vertices) :
    ∃ k c' evs, (∀ fuel, k ≤ fuel → undirectedDfs g fuel c startVertex = some (c', evs)) ∧
      VisitsOnce g startVertex evs := by
  obtain ⟨evs, c', hsweep, k, hk⟩ := undirectedDfs_sweeps c hstart
  have hwhite : ∀ v ∈ g.vertices, (paintWhite g c).vertex v = .white :=
    fun v hv => paintWhite_vertex c hv
  have hclosed := closed_paintWhite (g := g) c
  have hdiscovered := hsweep.perm_discovered (by simp +contextual) hwhite
  have hcalls : ∀ {α : Type} (f : Event V E → Option α), (∀ u, f (.initializeVertex u) = none) →
      calls f (g.vertices.map .initializeVertex ++ evs) = calls f evs :=
    fun f hf => calls_initializeVertex f hf g.vertices evs
  refine ⟨k, c', _, hk, ?_⟩
  constructor
  · rwa [discovered, hcalls _ fun _ => rfl]
  · rw [finished, hcalls _ fun _ => rfl]
    exact hsweep.perm_finished.trans hdiscovered
  · exact (nests_initializeVertex _ _).mpr hsweep.nests
  · rw [started, hcalls _ fun _ => rfl]
    exact hsweep.started_head (hwhite _ hstart)
  · rw [started, hcalls _ fun _ => rfl]
    exact hsweep.nodup_started hclosed
  · intro v hv
    rw [started, hcalls _ fun _ => rfl]
    exact hsweep.existsUnique_started hclosed (hdiscovered.mem_iff.mpr hv)
  · rw [examined, hcalls _ fun _ => rfl]
    exact (hsweep.perm_examined.trans (hdiscovered.flatMap_right _)).trans
      (perm_flatMap_descriptors g)

end

/-- Two parallel edges, and a loop in a component of its own. -/
def loopsGraph : BidirectionalGraph (Fin 3) (Fin 3) :=
  .ofEdges [0, 1, 2] [0, 1, 2] ![0, 0, 2] ![1, 1, 2] (by decide) (by decide) (by decide) (by decide)

theorem undirectedDfs_visitsOnce_loopsGraph :
    1 ∈ loopsGraph.vertices ∧ ∃ k c' evs,
      (∀ fuel, k ≤ fuel → undirectedDfs loopsGraph fuel ⟨fun _ => .gray, fun _ => .black⟩ 1 =
        some (c', evs)) ∧ VisitsOnce loopsGraph 1 evs :=
  ⟨by decide, undirectedDfs_visitsOnce loopsGraph _ (by decide)⟩

end UndirectedGraph

end Utilmm
