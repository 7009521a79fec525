import Utilmm.Graph.IteratorSequence

/-!
# `undirected_graph`

An `undirected_graph` is a view of a bidirectional graph in which every edge goes both ways. Its
edge descriptors are those of the base graph with a flag: a reversed edge is an edge which was
found from its target.
-/

namespace Utilmm

variable {V E : Type} [DecidableEq V]

/-- A bidirectional graph, with the lists through which its iterators go. Each edge is listed once
at its source and once at its target. -/
structure BidirectionalGraph (V E : Type) [DecidableEq V] where
  vertices : List V
  edges : List E
  source : E → V
  target : E → V
  outEdges : V → List E
  inEdges : V → List E
  adjacentVertices : V → List V
  invAdjacentVertices : V → List V
  vertices_nodup : vertices.Nodup
  edges_nodup : edges.Nodup
  source_mem : ∀ e ∈ edges, source e ∈ vertices
  target_mem : ∀ e ∈ edges, target e ∈ vertices
  outEdges_perm : ∀ u ∈ vertices, (outEdges u).Perm (edges.filter fun e => source e = u)
  inEdges_perm : ∀ u ∈ vertices, (inEdges u).Perm (edges.filter fun e => target e = u)
  adjacentVertices_perm : ∀ u ∈ vertices,
    (adjacentVertices u).Perm ((outEdges u).map target)
  invAdjacentVertices_perm : ∀ u ∈ vertices,
    (invAdjacentVertices u).Perm ((inEdges u).map source)

namespace BidirectionalGraph

def numEdges (g : BidirectionalGraph V E) : Nat := g.edges.length
def outDegree (g : BidirectionalGraph V E) (u : V) : Nat := (g.outEdges u).length
def inDegree (g : BidirectionalGraph V E) (u : V) : Nat := (g.inEdges u).length

/-- The graph which lists its edges in one order everywhere. -/
def ofEdges (vertices : List V) (edges : List E) (source target : E → V)
    (vertices_nodup : vertices.Nodup) (edges_nodup : edges.Nodup)
    (source_mem : ∀ e ∈ edges, source e ∈ vertices)
    (target_mem : ∀ e ∈ edges, target e ∈ vertices) : BidirectionalGraph V E where
  vertices := vertices
  edges := edges
  source := source
  target := target
  outEdges u := edges.filter fun e => source e = u
  inEdges u := edges.filter fun e => target e = u
  adjacentVertices u := (edges.filter fun e => source e = u).map target
  invAdjacentVertices u := (edges.filter fun e => target e = u).map source
  vertices_nodup := vertices_nodup
  edges_nodup := edges_nodup
  source_mem := source_mem
  target_mem := target_mem
  outEdges_perm _ _ := .refl _
  inEdges_perm _ _ := .refl _
  adjacentVertices_perm _ _ := .refl _
  invAdjacentVertices_perm _ _ := .refl _

end BidirectionalGraph

/-- The range which a list of a graph is. -/
def Range.ofList {α : Type} (l : List α) : Range α := ⟨0, l⟩

namespace UndirectedGraph

/-- An edge, and whether it is reversed. -/
abbrev EdgeDescriptor (E : Type) : Type := E × Bool

def makeOutEdgeDescriptor (e : E) : EdgeDescriptor E := (e, false)
def makeInEdgeDescriptor (e : E) : EdgeDescriptor E := (e, true)

variable (g : BidirectionalGraph V E)

/-- The edges which arrive at a vertex, reversed. -/
def inRange (u : V) : Range (EdgeDescriptor E) :=
  .ofList ((g.inEdges u).map makeInEdgeDescriptor)

/-- The edges which leave a vertex. -/
def outRange (u : V) : Range (EdgeDescriptor E) :=
  .ofList ((g.outEdges u).map makeOutEdgeDescriptor)

/-- The pair of iterators from `first` to `second` through two ranges. -/
def glue {α : Type} (first second : Range α) : IteratorSequence × IteratorSequence :=
  (⟨first.start, first.stop, second.start, second.start⟩,
    ⟨first.stop, first.stop, second.stop, second.stop⟩)

/-- The iterators are those which `iterator_sequence` documents. -/
lemma glue_eq {α : Type} (first second : Range α) :
    glue first second = (.begin first second, .stop first second) := rfl

def outEdges (u : V) : IteratorSequence × IteratorSequence := glue (inRange g u) (outRange g u)

def inEdges (u : V) : IteratorSequence × IteratorSequence := outEdges g u

def numEdges : Nat := g.numEdges

def outDegree (u : V) : Nat := g.inDegree u + g.outDegree u

def inDegree (u : V) : Nat := outDegree g u

def adjacentVertices (u : V) : IteratorSequence × IteratorSequence :=
  glue (.ofList (g.adjacentVertices u)) (.ofList (g.invAdjacentVertices u))

/-- Looking for an edge of the base graph. -/
abbrev Lookup (V E : Type) : Type := V → V → Option E

/-- Looking for an edge between two vertices. The result is an edge of the base graph. -/
def edge (lookup : Lookup V E) (u v : V) : Option E := lookup v u

def source (e : EdgeDescriptor E) : V := if e.2 then g.target e.1 else g.source e.1

def target (e : EdgeDescriptor E) : V := if e.2 then g.source e.1 else g.target e.1

/-! ### Ranges -/

/-- The elements from an iterator to another one, read one after the other. -/
def traverse {α : Type} (first second : Range α) (last : IteratorSequence) :
    Nat → IteratorSequence → Option (List α)
  | 0, it => if it.equal last then some [] else none
  | fuel + 1, it =>
    if it.equal last then some []
    else do
      let x ← it.dereference first second
      let xs ← traverse first second last fuel it.increment
      return x :: xs

/-- The edge descriptors of a vertex. -/
def descriptors (u : V) : List (EdgeDescriptor E) :=
  (g.inEdges u).map makeInEdgeDescriptor ++ (g.outEdges u).map makeOutEdgeDescriptor

/-- The vertices which are adjacent to a vertex. -/
def neighbours (u : V) : List V := g.adjacentVertices u ++ g.invAdjacentVertices u

lemma traverse_position {α : Type} {a b : Range α} {last : IteratorSequence}
    (hlast : ∀ p, (IteratorSequence.position a b p).equal last = true ↔ p = a.size + b.size)
    (fuel : Nat) {p : Nat} (hp : p ≤ (a.elems ++ b.elems).length)
    (hfuel : (a.elems ++ b.elems).length ≤ p + fuel) :
    traverse a b last fuel (.position a b p) = some ((a.elems ++ b.elems).drop p) := by
  have hsize : a.size + b.size = ((a.elems ++ b.elems).length : Nat) := by
    rw [List.length_append, Range.size, Range.size, Nat.cast_add]
  have hend : (IteratorSequence.position a b p).equal last = true ↔
      p = (a.elems ++ b.elems).length := by
    rw [hlast, hsize, Nat.cast_inj]
  induction fuel generalizing p with
  | zero =>
    have hpe : p = (a.elems ++ b.elems).length := le_antisymm hp hfuel
    rw [traverse, if_pos (hend.mpr hpe), hpe, List.drop_length]
  | succ fuel ih =>
    rw [traverse]
    by_cases hpe : p = (a.elems ++ b.elems).length
    · rw [if_pos (hend.mpr hpe), hpe, List.drop_length]
    · have hlt : p < (a.elems ++ b.elems).length := lt_of_le_of_ne hp hpe
      obtain ⟨x, hx, hcat⟩ := @IteratorSequence.dereference_position _ a b p
        (Int.natCast_nonneg p) (by rw [hsize]; exact Int.ofNat_lt.mpr hlt)
      rw [Int.toNat_natCast, List.getElem?_eq_getElem hlt, Option.some.injEq] at hcat
      have hrest := @ih (p + 1) hlt (by omega) (by rw [hlast, hsize, Nat.cast_inj])
      rw [Nat.cast_succ, ← IteratorSequence.increment_position] at hrest
      rw [if_neg (fun h => hpe (hend.mp h)), hx, hrest, List.drop_eq_getElem_cons hlt, hcat]
      rfl

/-- Two glued ranges are traversed as their concatenation. -/
lemma traverse_glue {α : Type} (a b : Range α) {fuel : Nat}
    (hfuel : (a.elems ++ b.elems).length ≤ fuel) :
    traverse a b (glue a b).2 fuel (glue a b).1 = some (a.elems ++ b.elems) := by
  rw [glue_eq, IteratorSequence.begin_eq]
  have hread := traverse_position (IteratorSequence.equal_stop a b) fuel (Nat.zero_le _)
    (by rwa [Nat.zero_add])
  rwa [List.drop_zero] at hread

/-- The out edges of a vertex are its edge descriptors. -/
lemma traverse_outEdges (u : V) {fuel : Nat} (hfuel : (descriptors g u).length ≤ fuel) :
    traverse (inRange g u) (outRange g u) (outEdges g u).2 fuel (outEdges g u).1 =
      some (descriptors g u) :=
  traverse_glue (inRange g u) (outRange g u) hfuel

lemma traverse_adjacentVertices (u : V) {fuel : Nat} (hfuel : (neighbours g u).length ≤ fuel) :
    traverse (.ofList (g.adjacentVertices u)) (.ofList (g.invAdjacentVertices u))
      (adjacentVertices g u).2 fuel (adjacentVertices g u).1 = some (neighbours g u) :=
  traverse_glue (.ofList (g.adjacentVertices u)) (.ofList (g.invAdjacentVertices u)) hfuel

/-! ### Edge descriptors -/

variable {g} {u v : V} {e : E} {b : Bool}

@[simp] lemma source_false : source g (e, false) = g.source e := rfl
@[simp] lemma source_true : source g (e, true) = g.target e := rfl
@[simp] lemma target_false : target g (e, false) = g.target e := rfl
@[simp] lemma target_true : target g (e, true) = g.source e := rfl

/-- The other orientation of an edge goes back. -/
@[simp] lemma source_not : source g (e, !b) = target g (e, b) := by cases b <;> rfl
@[simp] lemma target_not : target g (e, !b) = source g (e, b) := by cases b <;> rfl

/-- A vertex has each orientation of each edge which starts there. -/
lemma perm_descriptors (hu : u ∈ g.vertices) : (descriptors g u).Perm
    (((g.edges.filter fun e => g.target e = u).map makeInEdgeDescriptor) ++
      (g.edges.filter fun e => g.source e = u).map makeOutEdgeDescriptor) :=
  ((g.inEdges_perm u hu).map _).append ((g.outEdges_perm u hu).map _)

lemma mem_descriptors (hu : u ∈ g.vertices) {d : EdgeDescriptor E} :
    d ∈ descriptors g u ↔ d.1 ∈ g.edges ∧ source g d = u := by
  obtain ⟨e, b⟩ := d
  rw [(perm_descriptors hu).mem_iff]
  cases b <;> simp [makeInEdgeDescriptor, makeOutEdgeDescriptor]

lemma nodup_descriptors (hu : u ∈ g.vertices) : (descriptors g u).Nodup := by
  rw [(perm_descriptors hu).nodup_iff, List.nodup_append]
  refine ⟨(g.edges_nodup.filter _).map fun e e' h => ?_,
    (g.edges_nodup.filter _).map fun e e' h => ?_, ?_⟩
  · exact (Prod.mk.inj h).1
  · exact (Prod.mk.inj h).1
  · intro d hd d' hd' heq
    obtain ⟨e, -, rfl⟩ := List.mem_map.mp hd
    obtain ⟨e', -, rfl⟩ := List.mem_map.mp hd'
    cases (Prod.mk.inj heq).2

lemma source_mem {d : EdgeDescriptor E} (hd : d.1 ∈ g.edges) : source g d ∈ g.vertices := by
  obtain ⟨e, b⟩ := d
  cases b with
  | false => exact g.source_mem e hd
  | true => exact g.target_mem e hd

lemma target_mem {d : EdgeDescriptor E} (hd : d.1 ∈ g.edges) : target g d ∈ g.vertices := by
  obtain ⟨e, b⟩ := d
  cases b with
  | false => exact g.target_mem e hd
  | true => exact g.source_mem e hd

lemma length_descriptors (g : BidirectionalGraph V E) (u : V) :
    (descriptors g u).length = outDegree g u := by
  rw [descriptors, List.length_append, List.length_map, List.length_map]
  rfl

/-- Edges come before adjacent vertices from the other range, but the vertices are the same. -/
lemma perm_neighbours (hu : u ∈ g.vertices) :
    ((descriptors g u).map (target g)).Perm (neighbours g u) := by
  rw [descriptors, List.map_append, List.map_map, List.map_map]
  refine List.perm_append_comm.trans ?_
  exact (g.adjacentVertices_perm u hu).symm.append (g.invAdjacentVertices_perm u hu).symm

/-- The number of descriptors from `u` to `v`, by the edges of the base graph. -/
lemma countP_target (hu : u ∈ g.vertices) (v : V) :
    (descriptors g u).countP (fun d => target g d = v) =
      g.edges.countP (fun e => g.source e = v ∧ g.target e = u) +
        g.edges.countP fun e => g.target e = v ∧ g.source e = u := by
  rw [(perm_descriptors hu).countP_eq, List.countP_append, List.countP_map, List.countP_map,
    List.countP_filter, List.countP_filter]
  simp only [Bool.decide_and]
  rfl

lemma countP_symm (hu : u ∈ g.vertices) (hv : v ∈ g.vertices) :
    (descriptors g u).countP (fun d => target g d = v) =
      (descriptors g v).countP fun d => target g d = u := by
  rw [countP_target hu, countP_target hv, Nat.add_comm]
  simp only [and_comm]

/-- Each orientation of an edge is found once, at its source. -/
lemma count_descriptors [DecidableEq E] (hu : u ∈ g.vertices) {d : EdgeDescriptor E}
    (hd : d.1 ∈ g.edges) : (descriptors g u).count d = if source g d = u then 1 else 0 := by
  split_ifs with h
  · exact List.count_eq_one_of_mem (nodup_descriptors hu) ((mem_descriptors hu).mpr ⟨hd, h⟩)
  · exact List.count_eq_zero_of_not_mem fun hmem => h ((mem_descriptors hu).mp hmem).2

/-- Both orientations of an edge. -/
def orientations (e : E) : List (EdgeDescriptor E) := [(e, false), (e, true)]

lemma nodup_orientations (g : BidirectionalGraph V E) :
    (g.edges.flatMap orientations).Nodup := by
  rw [List.nodup_flatMap]
  refine ⟨fun e _ => by simp [orientations], g.edges_nodup.imp ?_⟩
  intro e e' hee d hd hd'
  apply hee
  simp only [orientations, List.mem_cons, List.not_mem_nil, or_false] at hd hd'
  rcases hd with rfl | rfl <;> rcases hd' with h | h <;> exact (Prod.mk.inj h).1

/-- An orientation is one of an edge of the graph. -/
lemma mem_orientations {d : EdgeDescriptor E} :
    d ∈ g.edges.flatMap orientations ↔ d.1 ∈ g.edges := by
  obtain ⟨e, b⟩ := d
  rw [List.mem_flatMap]
  constructor
  · rintro ⟨e', he', hd⟩
    rcases List.mem_pair.mp hd with h | h <;> exact (Prod.mk.inj h).1 ▸ he'
  · intro he
    exact ⟨e, he, by cases b <;> simp [orientations]⟩

/-- All the out edges together are both orientations of every edge. -/
lemma perm_flatMap_descriptors (g : BidirectionalGraph V E) :
    (g.vertices.flatMap (descriptors g)).Perm (g.edges.flatMap orientations) := by
  apply (List.perm_ext_iff_of_nodup _ (nodup_orientations g)).mpr
  · intro d
    rw [List.mem_flatMap, mem_orientations]
    constructor
    · rintro ⟨u, hu, hd⟩
      exact ((mem_descriptors hu).mp hd).1
    · intro hd
      exact ⟨source g d, source_mem hd, (mem_descriptors (source_mem hd)).mpr ⟨hd, rfl⟩⟩
  · rw [List.nodup_flatMap]
    refine ⟨fun u hu => nodup_descriptors hu, g.vertices_nodup.imp_of_mem ?_⟩
    intro u v hu hv huv d hdu hdv
    exact huv (((mem_descriptors hu).mp hdu).2.symm.trans ((mem_descriptors hv).mp hdv).2)

/-- The degrees sum to twice the number of edges. -/
lemma sum_outDegree (g : BidirectionalGraph V E) :
    (g.vertices.map (outDegree g)).sum = 2 * numEdges g := by
  have hlen := (perm_flatMap_descriptors g).length_eq
  simp only [List.length_flatMap, length_descriptors] at hlen
  rw [hlen]
  have horient : (fun e : E => (orientations e).length) = fun _ => 2 := rfl
  rw [horient, List.map_const', List.sum_replicate, numEdges, BidirectionalGraph.numEdges,
    smul_eq_mul, Nat.mul_comm]

/-! ### Property maps -/

/-- A property map on the edges of the base graph. -/
structure PropertyMap (M E ν : Type) where
  get : M → E → ν
  put : M → E → ν → M
  get_put : ∀ m e x, get (put m e x) e = x

variable {M ν : Type}

/-- `put` of an `undirected_property_map`. -/
def put (p : PropertyMap M E ν) (m : M) (e : EdgeDescriptor E) (value : ν) : M :=
  p.put m e.1 value

/-- `get` of an `undirected_property_map`. -/
def get (p : PropertyMap M E ν) (m : M) (e : EdgeDescriptor E) : ν := p.get m e.1

lemma get_put (p : PropertyMap M E ν) (m : M) (e : E) (b b' : Bool) (value : ν) :
    get p (put p m (e, b) value) (e, b') = value := p.get_put m e value

/-! ### The view -/

/-- The out edges and the adjacent vertices of a vertex fit together. -/
structure Incidence [DecidableEq E] (g : BidirectionalGraph V E) (u : V)
    (edges : List (EdgeDescriptor E)) (adjacent : List V) : Prop where
  source_eq : ∀ d ∈ edges, source g d = u
  length_eq : edges.length = outDegree g u
  targets : (edges.map (target g)).Perm adjacent
  orientations : ∀ e ∈ g.edges, ∀ b, edges.count (e, b) = if source g (e, b) = u then 1 else 0

/-- An `undirected_graph` is a consistent undirected view of its base graph. -/
theorem undirected_view [DecidableEq E] (g : BidirectionalGraph V E) :
    (∀ u ∈ g.vertices, ∃ edges adjacent,
      (∀ fuel, edges.length ≤ fuel → traverse (inRange g u) (outRange g u) (outEdges g u).2 fuel
        (outEdges g u).1 = some edges) ∧
      (∀ fuel, adjacent.length ≤ fuel → traverse (.ofList (g.adjacentVertices u))
        (.ofList (g.invAdjacentVertices u)) (adjacentVertices g u).2 fuel
        (adjacentVertices g u).1 = some adjacent) ∧
      edges = descriptors g u ∧ Incidence g u edges adjacent) ∧
    (∀ u ∈ g.vertices, ∀ v ∈ g.vertices,
      (descriptors g u).countP (fun d => target g d = v) =
        (descriptors g v).countP fun d => target g d = u) ∧
    (g.vertices.flatMap (descriptors g)).Perm (g.edges.flatMap orientations) ∧
    (g.vertices.map (outDegree g)).sum = 2 * numEdges g ∧
    ∀ (M ν : Type) (p : PropertyMap M E ν) (m : M) (e : E) (b b' : Bool) (value : ν),
      get p (put p m (e, b) value) (e, b') = value := by
  refine ⟨fun u hu => ?_, fun u hu v hv => countP_symm hu hv, perm_flatMap_descriptors g,
    sum_outDegree g, fun _ _ => get_put⟩
  refine ⟨descriptors g u, neighbours g u, fun _ h => traverse_outEdges g u h,
    fun _ h => traverse_adjacentVertices g u h, rfl, ?_, length_descriptors g u,
    perm_neighbours hu, fun e he b => count_descriptors hu he⟩
  intro d hd
  exact ((mem_descriptors hu).mp hd).2

/-! ### Looking for an edge -/

/-- The base graph has an edge from `u` to `v`. -/
def HasEdge (g : BidirectionalGraph V E) (u v : V) : Prop :=
  ∃ e ∈ g.edges, g.source e = u ∧ g.target e = v

/-- The base graph finds an edge just when it has one. -/
structure Lookup.Exact (g : BidirectionalGraph V E) (lookup : Lookup V E) : Prop where
  found : ∀ {u v e}, u ∈ g.vertices → v ∈ g.vertices → lookup u v = some e →
    e ∈ g.edges ∧ g.source e = u ∧ g.target e = v
  complete : ∀ {u v}, u ∈ g.vertices → v ∈ g.vertices → HasEdge g u v → (lookup u v).isSome

/-- `edge` agrees with the other accessors about the edges between `u` and `v`. -/
structure EdgeAgrees (g : BidirectionalGraph V E) (lookup : Lookup V E) (u v : V) : Prop where
  adjacent : ∀ fuel vs, traverse (.ofList (g.adjacentVertices u))
    (.ofList (g.invAdjacentVertices u)) (adjacentVertices g u).2 fuel (adjacentVertices g u).1 =
      some vs → ((edge lookup u v).isSome ↔ v ∈ vs)
  outEdges : ∀ fuel ds, traverse (inRange g u) (outRange g u) (outEdges g u).2 fuel
    (outEdges g u).1 = some ds → ((edge lookup u v).isSome ↔ ∃ d ∈ ds, target g d = v)
  symm : (edge lookup u v).isSome ↔ (edge lookup v u).isSome
  joins : ∀ e, edge lookup u v = some e → e ∈ g.edges ∧
    ((g.source e = u ∧ g.target e = v) ∨ (g.source e = v ∧ g.target e = u))

lemma Lookup.Exact.isSome_iff {lookup : Lookup V E} (h : lookup.Exact g) (hu : u ∈ g.vertices)
    (hv : v ∈ g.vertices) : (lookup u v).isSome ↔ HasEdge g u v := by
  constructor
  · intro hsome
    obtain ⟨e, he⟩ := Option.isSome_iff_exists.mp hsome
    exact ⟨e, h.found hu hv he⟩
  · exact h.complete hu hv

/-- The targets of the edge descriptors are found in either direction. -/
lemma exists_target_iff (hu : u ∈ g.vertices) :
    (∃ d ∈ descriptors g u, target g d = v) ↔ HasEdge g u v ∨ HasEdge g v u := by
  constructor
  · rintro ⟨⟨e, b⟩, hd, htarget⟩
    obtain ⟨he, hsource⟩ := (mem_descriptors hu).mp hd
    cases b with
    | false => exact Or.inl ⟨e, he, hsource, htarget⟩
    | true => exact Or.inr ⟨e, he, htarget, hsource⟩
  · rintro (⟨e, he, hsource, htarget⟩ | ⟨e, he, hsource, htarget⟩)
    · exact ⟨(e, false), (mem_descriptors hu).mpr ⟨he, hsource⟩, htarget⟩
    · exact ⟨(e, true), (mem_descriptors hu).mpr ⟨he, htarget⟩, hsource⟩

lemma mem_neighbours_iff (hu : u ∈ g.vertices) :
    v ∈ neighbours g u ↔ HasEdge g u v ∨ HasEdge g v u := by
  rw [← exists_target_iff hu, ← (perm_neighbours hu).mem_iff, List.mem_map]

/-- A traversal which ends has read all the elements. -/
lemma traverse_mono {α : Type} {a b : Range α} {last it : IteratorSequence} {fuel fuel' : Nat}
    {xs : List α} (h : traverse a b last fuel it = some xs) (hfuel : fuel ≤ fuel') :
    traverse a b last fuel' it = some xs := by
  induction fuel generalizing fuel' it xs with
  | zero =>
    rw [traverse] at h
    split_ifs at h with hstop
    cases fuel' <;> rw [traverse, if_pos hstop, ← h]
  | succ fuel ih =>
    obtain ⟨fuel', rfl⟩ := Nat.exists_eq_add_of_le' (Nat.zero_lt_of_lt hfuel)
    rw [traverse] at h ⊢
    split_ifs with hstop
    · rwa [if_pos hstop] at h
    · rw [if_neg hstop] at h
      obtain ⟨x, hx, ys, hys, hxs⟩ : ∃ x, it.dereference a b = some x ∧
          ∃ ys, traverse a b last fuel it.increment = some ys ∧ some (x :: ys) = some xs := by
        simpa [Option.bind_eq_some_iff] using h
      rw [hx, ← hxs]
      simp [ih hys (Nat.le_of_succ_le_succ hfuel)]

lemma traverse_glue_eq {α : Type} {a b : Range α} {fuel : Nat} {xs : List α}
    (h : traverse a b (glue a b).2 fuel (glue a b).1 = some xs) : xs = a.elems ++ b.elems := by
  have hall := @traverse_glue α a b (max fuel (a.elems ++ b.elems).length) (le_max_right _ _)
  rw [traverse_mono h (le_max_left _ _), Option.some.injEq] at hall
  exact hall

/-- `edge` looks in one direction only. -/
theorem edgeAgrees_iff (g : BidirectionalGraph V E) (lookup : Lookup V E) (h : lookup.Exact g)
    (u v : V) (hu : u ∈ g.vertices) (hv : v ∈ g.vertices) :
    EdgeAgrees g lookup u v ↔ (HasEdge g u v ↔ HasEdge g v u) := by
  have hedge : (edge lookup u v).isSome ↔ HasEdge g v u := h.isSome_iff hv hu
  have hback : (edge lookup v u).isSome ↔ HasEdge g u v := h.isSome_iff hu hv
  constructor
  · intro hagrees
    rw [← hedge, ← hback]
    exact hagrees.symm.symm
  · intro hboth
    have hor : HasEdge g v u ↔ HasEdge g u v ∨ HasEdge g v u := by
      rw [hboth, or_self]
    refine ⟨fun fuel vs hvs => ?_, fun fuel ds hds => ?_, ?_, fun e he => ?_⟩
    · rw [traverse_glue_eq hvs, hedge, hor]
      exact (mem_neighbours_iff hu).symm
    · rw [traverse_glue_eq hds, hedge, hor]
      exact (exists_target_iff hu).symm
    · rw [hedge, hback, hboth]
    · obtain ⟨hmem, hsource, htarget⟩ := h.found hv hu he
      exact ⟨hmem, Or.inr ⟨hsource, htarget⟩⟩

/-- A graph with one edge, from 0 to 1. -/
def oneEdge : BidirectionalGraph Nat Unit :=
  .ofEdges [0, 1] [()] (fun _ => 0) (fun _ => 1) (by decide) (by decide) (by decide) (by decide)

def oneEdge.lookup : Lookup Nat Unit := fun u v => if u = 0 ∧ v = 1 then some () else none

lemma oneEdge.exact : oneEdge.lookup.Exact oneEdge := by
  refine ⟨fun {u v e} _ _ h => ?_, fun {u v} _ _ h => ?_⟩
  · simp only [oneEdge.lookup] at h
    split_ifs at h with huv
    exact ⟨List.mem_singleton_self _, huv.1.symm, huv.2.symm⟩
  · obtain ⟨e, -, rfl, rfl⟩ := h
    rfl

/-- A graph with the edge `true` from 0 to 1 and the edge `false` back. -/
def bothWays : BidirectionalGraph Nat Bool :=
  .ofEdges [0, 1] [true, false] (fun e => if e then 0 else 1) (fun e => if e then 1 else 0)
    (by decide) (by decide) (by decide) (by decide)

def bothWays.lookup : Lookup Nat Bool := fun u v =>
  if u = 0 ∧ v = 1 then some true else if u = 1 ∧ v = 0 then some false else none

lemma bothWays.exact : bothWays.lookup.Exact bothWays := by
  refine ⟨fun {u v e} _ _ h => ?_, fun {u v} _ _ h => ?_⟩
  · simp only [bothWays.lookup] at h
    split_ifs at h with hthere hback
    · obtain rfl := Option.some.inj h
      exact ⟨by decide, hthere.1.symm, hthere.2.symm⟩
    · obtain rfl := Option.some.inj h
      exact ⟨by decide, hback.1.symm, hback.2.symm⟩
  · obtain ⟨e, -, rfl, rfl⟩ := h
    cases e <;> rfl

theorem edgeAgrees_bothWays : EdgeAgrees bothWays bothWays.lookup 0 1 :=
  (edgeAgrees_iff bothWays bothWays.lookup bothWays.exact 0 1 (by decide) (by decide)).mpr
    ⟨fun _ => ⟨false, by decide, rfl, rfl⟩, fun _ => ⟨true, by decide, rfl, rfl⟩⟩

/-- The only edge is not found from its source. -/
theorem not_edgeAgrees_oneEdge : ¬ EdgeAgrees oneEdge oneEdge.lookup 0 1 := by
  intro h
  have hadjacent := h.adjacent 1 [1] rfl
  revert hadjacent
  decide

end UndirectedGraph

end Utilmm
