import Utilmm.Graph.DfsVisits

/-!
# `undirected_depth_first_visit`

The visit examines no edge of a vertex at which its terminator tells it to stop. A vertex is
discovered if and only if some path leads there which no earlier vertex stops: a vertex that stops
the visit hides nothing that another path reaches.
-/

namespace Utilmm

namespace UndirectedGraph

variable {V E : Type} [DecidableEq V]

def undirectedDepthFirstVisit [DecidableEq E] (g : BidirectionalGraph V E) (fuel : Nat)
    (c : Colors V E) (u : V) (func : V → Bool) : Option (Colors V E × List (Event V E)) :=
  undirDfvImplTerm g func fuel c u

/-- An edge leads from `v` to `w`, and `func` does not stop the visit at `v`. -/
def Passes (g : BidirectionalGraph V E) (func : V → Bool) (v w : V) : Prop :=
  func v = false ∧ Adjacent g v w

/-- A path leads from `u` to `v`, and no vertex of it except possibly `v` stops the visit. -/
def Reached (g : BidirectionalGraph V E) (func : V → Bool) : V → V → Prop :=
  Relation.ReflTransGen (Passes g func)

/-- The calls of a visit from `u` that leaves the colours `m'`. -/
structure VisitsReached (g : BidirectionalGraph V E) (func : V → Bool) (u : V)
    (evs : List (Event V E)) (m' : V → Color) : Prop where
  discovered : ∀ v, v ∈ discovered evs ↔ Reached g func u v
  nodup : (UndirectedGraph.discovered evs).Nodup
  finished : (finished evs).Perm (UndirectedGraph.discovered evs)
  later : ∀ pre v post, evs = pre ++ .discoverVertex v :: post →
    v ∈ UndirectedGraph.finished post
  examined : ∀ d ∈ examined evs, func (source g d) = false
  white : ∀ v ∈ g.vertices, v ∉ UndirectedGraph.discovered evs → m' v = .white

variable {g : BidirectionalGraph V E} {func : V → Bool} {u v : V}

lemma Reached.mem_vertices (h : Reached g func u v) (hu : u ∈ g.vertices) : v ∈ g.vertices := by
  induction h with
  | refl => exact hu
  | tail _ hpass _ =>
    obtain ⟨-, d, hd, rfl⟩ := hpass
    exact target_mem hd.1

/-! ### Open vertices -/

/-- Every open vertex is finished. -/
lemma Nests.mem_finished {us : List V} {evs : List (Event V E)} (h : Nests g us evs)
    (hv : v ∈ us) : v ∈ finished evs := by
  fun_induction Nests g us evs with
  | case1 => simp_all
  | case2 _ _ _ ih => simpa using ih h.2 hv
  | case3 _ _ _ ih => simpa using ih h.2 hv
  | case4 _ _ _ ih => simpa using ih h (List.mem_cons_of_mem _ hv)
  | case5 => cases hv
  | case6 u us w evs ih =>
    obtain ⟨rfl, h⟩ := h
    rcases List.mem_cons.mp hv with rfl | hv
    · simp
    · simpa using Or.inr (ih h hv)
  | case7 _ _ _ ih => simpa using ih h.2 hv
  | case8 _ _ _ ih => simpa using ih h.2 hv
  | case9 _ _ _ ih => simpa using ih h.2 hv
  | case10 _ _ _ ih => simpa using ih h.2 hv

/-- The calls after some calls nest with the vertices that are open then. -/
lemma Nests.exists_open {us : List V} {pre post : List (Event V E)}
    (h : Nests g us (pre ++ post)) : ∃ us', Nests g us' post := by
  induction pre generalizing us with
  | nil => exact ⟨us, h⟩
  | cons e pre ih =>
    cases e with
    | discoverVertex u => exact ih h
    | finishVertex u =>
      cases us with
      | nil => exact absurd h id
      | cons u' us => exact ih h.2
    | _ => exact ih h.2

/-! ### What a visit discovers -/

lemma eq_false_of_mem_range {d : EdgeDescriptor E} (hd : d ∈ range g func v) :
    func v = false := by
  rw [range] at hd
  cases hv : func v with
  | false => rfl
  | true => simp [hv] at hd

namespace Scans

variable [DecidableEq E] {c c' : Colors V E} {ei : List (EdgeDescriptor E)}
  {evs : List (Event V E)}

/-- A scan passes only vertices that do not stop the visit. -/
lemma reached (h : Scans g func c u ei evs c') (hpass : ∀ d ∈ ei, func u = false)
    (hv : v ∈ discovered evs) : Reached g func u v := by
  induction h with
  | nil => simp at hv
  | @tree c c₁ c₂ u d ei evs evs' hd _ _ _ ihsub ihrest =>
    have hu : func u = false := hpass d List.mem_cons_self
    have hstep : Passes g func u (target g d) := ⟨hu, d, hd, rfl⟩
    have hv : v = target g d ∨ v ∈ discovered evs ∨ v ∈ discovered evs' := by simpa using hv
    rcases hv with rfl | hv | hv
    · exact .single hstep
    · exact .head hstep (ihsub (fun _ => eq_false_of_mem_range) hv)
    · exact ihrest (fun _ _ => hu) hv
  | @back c c' u d ei evs _ _ _ _ ih =>
    exact ih (fun d' hd' => hpass d' (List.mem_cons_of_mem d hd')) (by simpa using hv)
  | @seen c c' u d ei evs _ _ _ _ ih =>
    exact ih (fun d' hd' => hpass d' (List.mem_cons_of_mem d hd')) (by simpa using hv)
  | @cross c c' u d ei evs _ _ _ ih =>
    exact ih (fun d' hd' => hpass d' (List.mem_cons_of_mem d hd')) (by simpa using hv)

/-- The edges of `u` and of the vertices which are discovered, unless `func` stops the visit there,
are all that is examined. -/
lemma mem_examined_iff (h : Scans g func c u (range g func u) evs c') {d : EdgeDescriptor E} :
    d ∈ examined evs ↔ ∃ v, (v = u ∨ v ∈ discovered evs) ∧ d ∈ range g func v := by
  rw [h.perm_examined.mem_iff, List.mem_append, List.mem_flatMap]
  constructor
  · rintro (hd | ⟨v, hv, hd⟩)
    · exact ⟨u, Or.inl rfl, hd⟩
    · exact ⟨v, Or.inr hv, hd⟩
  · rintro ⟨v, rfl | hv, hd⟩
    · exact Or.inl hd
    · exact Or.inr ⟨v, hv, hd⟩

/-- What a vertex that was discovered passes to is not white any more. -/
lemma ne_white_of_reached (h : Scans g func (c.putVertex u .gray) u (range g func u) evs c')
    (hu : u ∈ g.vertices) (hwhite : ∀ v ∈ g.vertices, c.vertex v = .white)
    (hv : Reached g func u v) : v = u ∨ v ∈ discovered evs := by
  induction hv with
  | refl => exact Or.inl rfl
  | @tail v w hv hpass ih =>
    obtain ⟨hfunc, d, hd, rfl⟩ := hpass
    have hexamined : d ∈ examined evs := by
      refine h.mem_examined_iff.mpr ⟨v, ih, ?_⟩
      rw [range, if_neg (by simp [hfunc])]
      exact (mem_descriptors (Reached.mem_vertices hv hu)).mpr hd
    by_cases hwu : target g d = u
    · exact Or.inl hwu
    · refine Or.inr (h.paints.mem_of_ne_white ?_ (h.target_ne_white hexamined))
      simpa [hwu] using hwhite _ (target_mem hd.1)

end Scans

/-- `undirected_depth_first_visit` ends, and it discovers exactly what is reached. -/
theorem undirectedDepthFirstVisit_visitsReached [DecidableEq E] (g : BidirectionalGraph V E)
    (func : V → Bool) (c : Colors V E) {u : V} (hu : u ∈ g.vertices)
    (hvertices : ∀ v ∈ g.vertices, c.vertex v = .white) :
    ∃ k c' evs, (∀ fuel, k ≤ fuel →
      undirectedDepthFirstVisit g fuel c u func = some (c', evs)) ∧
      VisitsReached g func u evs c'.vertex := by
  obtain ⟨evs, c', hscan, k, hk⟩ := undirDfvImplTerm_scans func c hu
  have hmem : ∀ v, v ∈ discovered (.discoverVertex u :: (evs ++ [.finishVertex u])) ↔
      v = u ∨ v ∈ discovered evs := by
    intro v
    simp
  have hnew : u ∉ discovered evs := fun h => by simpa using hscan.paints.white u h
  refine ⟨k, c'.putVertex u .black, .discoverVertex u :: (evs ++ [.finishVertex u]),
    fun fuel hfuel => ?_, ?_⟩
  · obtain ⟨m, rfl⟩ := Nat.exists_eq_add_of_le hfuel
    exact hk m
  constructor
  · intro v
    rw [hmem]
    constructor
    · rintro (rfl | hv)
      · exact .refl
      · exact hscan.reached (fun _ => eq_false_of_mem_range) hv
    · exact hscan.ne_white_of_reached hu hvertices
  · have hnodup := List.nodup_cons.mpr ⟨hnew, hscan.paints.nodup⟩
    simpa using hnodup
  · have hperm := (hscan.perm_finished.append_right [u]).trans (List.perm_append_singleton u _)
    simpa using hperm
  · intro pre v post heq
    have hnests : Nests g [] (.discoverVertex u :: (evs ++ [.finishVertex u])) := by
      rw [Nests, hscan.nests]
      exact ⟨rfl, rfl⟩
    rw [heq] at hnests
    obtain ⟨us, hopen⟩ := hnests.exists_open
    have hnext : Nests g (v :: us) post := hopen
    exact hnext.mem_finished List.mem_cons_self
  · intro d hd
    obtain ⟨v, hv, hd⟩ := hscan.mem_examined_iff.mp (by simpa using hd)
    have hvertex : v ∈ g.vertices := by
      rcases hv with rfl | hv
      · exact hu
      · exact (hscan.joined hv).mem_vertices hu
    rw [(leaves_of_mem_range hvertex d hd).2]
    exact eq_false_of_mem_range hd
  · intro v hv hnot
    rw [hmem, not_or] at hnot
    simpa [hnot.1, hnot.2, hscan.paints.result] using hvertices v hv

/-- The path 0 - 1 - 2 with the detour 0 - 3 - 2, and a vertex 4 behind 1. -/
def detourGraph : BidirectionalGraph (Fin 5) (Fin 5) :=
  .ofEdges [0, 1, 2, 3, 4] [0, 1, 2, 3, 4] ![0, 1, 0, 3, 1] ![1, 2, 3, 2, 4] (by decide)
    (by decide) (by decide) (by decide)

theorem undirectedDepthFirstVisit_visitsReached_detourGraph :
    0 ∈ detourGraph.vertices ∧ ∃ k c' evs, (∀ fuel, k ≤ fuel →
      undirectedDepthFirstVisit detourGraph fuel ⟨fun _ => .white, fun _ => .white⟩ 0 (· = 1) =
        some (c', evs)) ∧ VisitsReached detourGraph (· = 1) 0 evs c'.vertex :=
  ⟨by decide, undirectedDepthFirstVisit_visitsReached detourGraph _ _ (by decide) fun _ _ => rfl⟩

end UndirectedGraph

end Utilmm
