import Utilmm.Graph.UndirectedGraph

/-!
# `undirected_dfs`

The search keeps the vertices to which it will return on a stack, each with the out edges that are
left to examine. It is run here with a bound on the number of rounds, and its visitor writes down
every call. A run with the stack is a nested scan of edges, which ends on every finite graph.
-/

namespace Utilmm

namespace UndirectedGraph

variable {V E : Type}

inductive Color
  | white
  | gray
  | black
  deriving DecidableEq, Repr

/-- A call of the visitor. -/
inductive Event (V E : Type)
  | initializeVertex (u : V)
  | startVertex (u : V)
  | discoverVertex (u : V)
  | examineEdge (d : EdgeDescriptor E)
  | treeEdge (d : EdgeDescriptor E)
  | backEdge (d : EdgeDescriptor E)
  | forwardOrCrossEdge (d : EdgeDescriptor E)
  | finishVertex (u : V)
  deriving DecidableEq, Repr

/-- A property map which keeps the colours of the edges of the base graph. -/
def edgeColors [DecidableEq E] : PropertyMap (E → Color) E Color where
  get m e := m e
  put m e color := Function.update m e color
  get_put m e color := Function.update_self e color m

/-- The colour maps of the vertices and of the edges. -/
structure Colors (V E : Type) where
  vertex : V → Color
  edge : E → Color

namespace Colors

def putVertex [DecidableEq V] (c : Colors V E) (u : V) (color : Color) : Colors V E :=
  { c with vertex := Function.update c.vertex u color }

def putEdge [DecidableEq E] (c : Colors V E) (d : EdgeDescriptor E) (color : Color) : Colors V E :=
  { c with edge := put edgeColors c.edge d color }

def getEdge [DecidableEq E] (c : Colors V E) (d : EdgeDescriptor E) : Color :=
  get edgeColors c.edge d

variable {c : Colors V E} {u v : V} {d : EdgeDescriptor E} {color : Color}

@[simp] lemma putVertex_vertex [DecidableEq V] :
    (c.putVertex u color).vertex = Function.update c.vertex u color := rfl
@[simp] lemma putVertex_edge [DecidableEq V] : (c.putVertex u color).edge = c.edge := rfl
@[simp] lemma putEdge_vertex [DecidableEq E] : (c.putEdge d color).vertex = c.vertex := rfl
@[simp] lemma putEdge_edge [DecidableEq E] :
    (c.putEdge d color).edge = Function.update c.edge d.1 color := rfl
@[simp] lemma getEdge_eq [DecidableEq E] : c.getEdge d = c.edge d.1 := rfl

/-- No vertex turns white when one is painted in another colour. -/
lemma putVertex_ne_white [DecidableEq V] (hcolor : color ≠ .white)
    (hv : v ≠ u → c.vertex v ≠ .white) : (c.putVertex u color).vertex v ≠ .white := by
  by_cases hvu : v = u
  · simpa [hvu] using hcolor
  · simpa [hvu] using hv hvu

lemma putEdge_ne_white [DecidableEq E] {e : E} :
    (c.putEdge d .black).edge e ≠ .white ↔ e = d.1 ∨ c.edge e ≠ .white := by
  by_cases he : e = d.1 <;> simp [he]

end Colors

lemma foldl_putVertex_white [DecidableEq V] (us : List V) (c : Colors V E) :
    us.foldl (fun c u => c.putVertex u .white) c =
      ⟨fun v => if v ∈ us then .white else c.vertex v, c.edge⟩ := by
  induction us generalizing c with
  | nil => simp
  | cons u us ih =>
    rw [List.foldl_cons, ih]
    congr 1
    funext v
    by_cases hv : v ∈ us <;> by_cases hvu : v = u <;> simp [hv, hvu]

lemma foldl_putEdge_white [DecidableEq E] (es : List E) (c : Colors V E) :
    es.foldl (fun c e => c.putEdge (makeOutEdgeDescriptor e) .white) c =
      ⟨c.vertex, fun e => if e ∈ es then .white else c.edge e⟩ := by
  induction es generalizing c with
  | nil => simp
  | cons e es ih =>
    rw [List.foldl_cons, ih]
    congr 1
    funext e'
    by_cases he : e' ∈ es <;> by_cases hee : e' = e <;> simp [he, hee, makeOutEdgeDescriptor]

/-! ### Out edges and white vertices -/

section

variable [DecidableEq V]

/-- The out edges which the search examines, none if `func` tells it to stop. -/
def range (g : BidirectionalGraph V E) (func : V → Bool) (u : V) : List (EdgeDescriptor E) :=
  if func u then [] else descriptors g u

/-- `nontruth2`. -/
def nontruth2 {V : Type} (_ : V) : Bool := false

lemma range_nontruth2 (g : BidirectionalGraph V E) : range g nontruth2 = descriptors g := rfl

/-- The edge `d` of the graph leaves the vertex `u`. -/
def Leaves (g : BidirectionalGraph V E) (u : V) (d : EdgeDescriptor E) : Prop :=
  d.1 ∈ g.edges ∧ source g d = u

lemma leaves_of_mem_range {g : BidirectionalGraph V E} {func : V → Bool} {u : V}
    (hu : u ∈ g.vertices) : ∀ d ∈ range g func u, Leaves g u d := by
  intro d hd
  rw [range] at hd
  split at hd
  · cases hd
  · exact (mem_descriptors hu).mp hd

/-- The vertices which are still white. -/
def whites (g : BidirectionalGraph V E) (c : Colors V E) : List V :=
  g.vertices.filter fun v => c.vertex v = .white

variable {g : BidirectionalGraph V E} {c c' : Colors V E} {v : V}

lemma mem_whites : v ∈ whites g c ↔ v ∈ g.vertices ∧ c.vertex v = .white := by
  rw [whites, List.mem_filter, decide_eq_true_eq]

lemma length_whites_le (h : ∀ v, c.vertex v ≠ .white → c'.vertex v ≠ .white) :
    (whites g c').length ≤ (whites g c).length := by
  apply List.Sublist.length_le
  apply List.monotone_filter_right
  intro v hv
  rw [decide_eq_true_eq] at hv ⊢
  by_contra hne
  exact h v hne hv

lemma length_whites_lt (hv : v ∈ g.vertices) (hwhite : c.vertex v = .white) :
    (whites g (c.putVertex v .gray)).length < (whites g c).length := by
  have hsub : (whites g (c.putVertex v .gray)).Sublist (whites g c) := by
    apply List.monotone_filter_right
    intro w hw
    rw [decide_eq_true_eq] at hw ⊢
    by_cases hwv : w = v
    · exact hwv ▸ hwhite
    · simpa [hwv] using hw
  apply lt_of_le_of_ne hsub.length_le
  intro heq
  have hmem : v ∈ whites g (c.putVertex v .gray) := by
    rw [hsub.eq_of_length heq]
    exact mem_whites.mpr ⟨hv, hwhite⟩
  simpa using (mem_whites.mp hmem).2

end

/-! ### The search -/

/-- The colours and the calls of a search that was made after the calls `evs`. -/
def emit (evs : List (Event V E)) (r : Option (Colors V E × List (Event V E))) :
    Option (Colors V E × List (Event V E)) :=
  r.map fun p => (p.1, evs ++ p.2)

@[simp] lemma emit_some (evs evs' : List (Event V E)) (c : Colors V E) :
    emit evs (some (c, evs')) = some (c, evs ++ evs') := rfl

@[simp] lemma emit_emit (evs evs' : List (Event V E))
    (r : Option (Colors V E × List (Event V E))) :
    emit evs (emit evs' r) = emit (evs ++ evs') r := by
  cases r with
  | none => rfl
  | some p => simp [emit]

lemma emit_nil (r : Option (Colors V E × List (Event V E))) : emit [] r = r := by
  cases r <;> rfl

variable [DecidableEq V] [DecidableEq E]

/-- The loops of `undir_dfv_impl_term`, at vertex `u` with the edges from `ei` to `ei_end`. The
outer loop goes round when they are used up. -/
def undirDfvLoop (g : BidirectionalGraph V E) (func : V → Bool) :
    Nat → Colors V E → V → List (EdgeDescriptor E) → List (V × List (EdgeDescriptor E)) →
      Option (Colors V E × List (Event V E))
  | 0, _, _, _, _ => none
  | _ + 1, c, u, [], [] => some (c.putVertex u .black, [.finishVertex u])
  | fuel + 1, c, u, [], (u', ei) :: stack =>
    emit [.finishVertex u] (undirDfvLoop g func fuel (c.putVertex u .black) u' ei stack)
  | fuel + 1, c, u, d :: ei, stack =>
    let v := target g d
    let vColor := c.vertex v
    let uvColor := c.getEdge d
    let c := c.putEdge d .black
    match vColor with
    | .white =>
      emit [.examineEdge d, .treeEdge d, .discoverVertex v]
        (undirDfvLoop g func fuel (c.putVertex v .gray) v (range g func v) ((u, ei) :: stack))
    | .gray =>
      emit (.examineEdge d :: if uvColor = .white then [.backEdge d] else [])
        (undirDfvLoop g func fuel c u ei stack)
    | .black =>
      emit [.examineEdge d, .forwardOrCrossEdge d] (undirDfvLoop g func fuel c u ei stack)

def undirDfvImplTerm (g : BidirectionalGraph V E) (func : V → Bool) (fuel : Nat)
    (c : Colors V E) (u : V) : Option (Colors V E × List (Event V E)) :=
  emit [.discoverVertex u]
    (undirDfvLoop g func fuel (c.putVertex u .gray) u (range g func u) [])

/-- The loop of `undirected_dfs` which starts a search at every white vertex. -/
def dfsLoop (g : BidirectionalGraph V E) (fuel : Nat) :
    Colors V E → List V → Option (Colors V E × List (Event V E))
  | c, [] => some (c, [])
  | c, u :: us =>
    if c.vertex u = .white then do
      let (c, evs) ← undirDfvImplTerm g nontruth2 fuel c u
      emit (.startVertex u :: evs) (dfsLoop g fuel c us)
    else dfsLoop g fuel c us

/-- The loops which paint everything white. -/
def paintWhite (g : BidirectionalGraph V E) (c : Colors V E) : Colors V E :=
  g.edges.foldl (fun c e => c.putEdge (makeOutEdgeDescriptor e) .white)
    (g.vertices.foldl (fun c u => c.putVertex u .white) c)

def undirectedDfs (g : BidirectionalGraph V E) (fuel : Nat) (c : Colors V E) (startVertex : V) :
    Option (Colors V E × List (Event V E)) :=
  emit (g.vertices.map .initializeVertex)
    (if some startVertex ≠ g.vertices.head? then do
      let (c, evs) ← undirDfvImplTerm g nontruth2 fuel (paintWhite g c) startVertex
      emit (.startVertex startVertex :: evs) (dfsLoop g fuel c g.vertices)
    else dfsLoop g fuel (paintWhite g c) g.vertices)

/-! ### Nested scans -/

/-- The edges `ei` of `u` are scanned, and with each tree edge the vertex which it discovers. -/
inductive Scans (g : BidirectionalGraph V E) (func : V → Bool) :
    Colors V E → V → List (EdgeDescriptor E) → List (Event V E) → Colors V E → Prop
  | nil (c : Colors V E) (u : V) : Scans g func c u [] [] c
  | tree {c c₁ c₂ : Colors V E} {u : V} {d : EdgeDescriptor E} {ei : List (EdgeDescriptor E)}
      {evs evs' : List (Event V E)} (hd : Leaves g u d)
      (hv : c.vertex (target g d) = .white)
      (hsub : Scans g func ((c.putEdge d .black).putVertex (target g d) .gray) (target g d)
        (range g func (target g d)) evs c₁)
      (hrest : Scans g func (c₁.putVertex (target g d) .black) u ei evs' c₂) :
      Scans g func c u (d :: ei)
        (.examineEdge d :: .treeEdge d :: .discoverVertex (target g d) ::
          (evs ++ .finishVertex (target g d) :: evs')) c₂
  | back {c c' : Colors V E} {u : V} {d : EdgeDescriptor E} {ei : List (EdgeDescriptor E)}
      {evs : List (Event V E)} (hd : Leaves g u d)
      (hv : c.vertex (target g d) = .gray) (he : c.edge d.1 = .white)
      (hrest : Scans g func (c.putEdge d .black) u ei evs c') :
      Scans g func c u (d :: ei) (.examineEdge d :: .backEdge d :: evs) c'
  | seen {c c' : Colors V E} {u : V} {d : EdgeDescriptor E} {ei : List (EdgeDescriptor E)}
      {evs : List (Event V E)} (hd : Leaves g u d)
      (hv : c.vertex (target g d) = .gray) (he : c.edge d.1 ≠ .white)
      (hrest : Scans g func (c.putEdge d .black) u ei evs c') :
      Scans g func c u (d :: ei) (.examineEdge d :: evs) c'
  | cross {c c' : Colors V E} {u : V} {d : EdgeDescriptor E} {ei : List (EdgeDescriptor E)}
      {evs : List (Event V E)} (hd : Leaves g u d) (hv : c.vertex (target g d) = .black)
      (hrest : Scans g func (c.putEdge d .black) u ei evs c') :
      Scans g func c u (d :: ei) (.examineEdge d :: .forwardOrCrossEdge d :: evs) c'

/-- Every white vertex of the list is discovered by the time it is passed. -/
inductive Sweeps (g : BidirectionalGraph V E) :
    Colors V E → List V → List (Event V E) → Colors V E → Prop
  | nil (c : Colors V E) : Sweeps g c [] [] c
  | skip {c c' : Colors V E} {u : V} {us : List V} {evs : List (Event V E)}
      (hu : c.vertex u ≠ .white) (hrest : Sweeps g c us evs c') : Sweeps g c (u :: us) evs c'
  | root {c c₁ c₂ : Colors V E} {u : V} {us : List V} {evs evs' : List (Event V E)}
      (hmem : u ∈ g.vertices) (hu : c.vertex u = .white)
      (hscan : Scans g nontruth2 (c.putVertex u .gray) u (descriptors g u) evs c₁)
      (hrest : Sweeps g (c₁.putVertex u .black) us evs' c₂) :
      Sweeps g c (u :: us)
        (.startVertex u :: .discoverVertex u :: (evs ++ .finishVertex u :: evs')) c₂

namespace Scans

variable {g : BidirectionalGraph V E} {func : V → Bool} {c c' : Colors V E} {u v : V}
  {ei : List (EdgeDescriptor E)} {evs : List (Event V E)}

/-- A vertex which is not white keeps its colour. -/
lemma vertex_eq (h : Scans g func c u ei evs c') (hv : c.vertex v ≠ .white) :
    c'.vertex v = c.vertex v := by
  induction h with
  | nil => rfl
  | @tree c c₁ c₂ u d ei evs evs' _ htarget _ _ ihsub ihrest =>
    have hne : v ≠ target g d := fun heq => hv (heq ▸ htarget)
    have hsub : c₁.vertex v = c.vertex v := by
      simpa [hne] using ihsub (by simpa [hne] using hv)
    have hrest := ihrest (by simpa [hne, hsub] using hv)
    simpa [hne, hsub] using hrest
  | back _ _ _ _ ih => exact ih hv
  | seen _ _ _ _ ih => exact ih hv
  | cross _ _ _ ih => exact ih hv

end Scans

/-! ### Termination -/

section Termination

variable {g : BidirectionalGraph V E} {func : V → Bool} {c c' : Colors V E} {u v : V}

/-- A scan ends, and then the loop goes on with what it has put by. -/
lemma undirDfvLoop_scans (func : V → Bool) (n : Nat) (u : V) (hn : (whites g c).length ≤ n)
    {ei : List (EdgeDescriptor E)} (hei : ∀ d ∈ ei, Leaves g u d) :
    ∃ evs c', Scans g func c u ei evs c' ∧ ∃ k, ∀ fuel stack,
      undirDfvLoop g func (k + fuel) c u ei stack =
        emit evs (undirDfvLoop g func fuel c' u [] stack) := by
  induction n using Nat.strong_induction_on generalizing c u ei with
  | _ n ihn =>
  induction ei generalizing c with
  | nil => exact ⟨[], c, .nil c u, 0, fun fuel stack => by rw [Nat.zero_add, emit_nil]⟩
  | cons d ei ih =>
    have hd : Leaves g u d := hei d List.mem_cons_self
    have hrest := fun d' hd' => hei d' (List.mem_cons_of_mem d hd')
    match hv : c.vertex (target g d) with
    | .white =>
      -- the target is scanned with fewer white vertices, then the rest of `ei`
      have hlt : (whites g ((c.putEdge d .black).putVertex (target g d) .gray)).length <
          (whites g c).length :=
        length_whites_lt (c := c.putEdge d .black) (target_mem hd.1) hv
      obtain ⟨evs, c₁, hsub, k, hk⟩ := ihn _ (lt_of_lt_of_le hlt hn) (target g d) le_rfl
        (leaves_of_mem_range (target_mem hd.1))
      have hkept : ∀ w, c.vertex w ≠ .white →
          (c₁.putVertex (target g d) .black).vertex w ≠ .white := by
        intro w hw
        by_cases hwv : w = target g d
        · simp [hwv]
        · have hw' := hsub.vertex_eq (v := w) (by simpa [hwv] using hw)
          simp_all
      obtain ⟨evs', c₂, hrest, k', hk'⟩ := ih (le_trans (length_whites_le hkept) hn) hrest
      refine ⟨_, c₂, .tree hd hv hsub hrest, k + (k' + 1) + 1, fun fuel stack => ?_⟩
      have harith : k + (k' + 1) + 1 + fuel = k + (k' + fuel + 1) + 1 := by omega
      rw [harith, undirDfvLoop]
      simp only [hv]
      rw [hk, undirDfvLoop, hk']
      simp
    | .gray =>
      obtain ⟨evs, c', hscan, k, hk⟩ := ih (c := c.putEdge d .black) hn hrest
      by_cases he : c.edge d.1 = .white
      · refine ⟨_, c', .back hd hv he hscan, k + 1, fun fuel stack => ?_⟩
        rw [Nat.add_right_comm, undirDfvLoop]
        simp only [hv]
        rw [hk]
        simp [he]
      · refine ⟨_, c', .seen hd hv he hscan, k + 1, fun fuel stack => ?_⟩
        rw [Nat.add_right_comm, undirDfvLoop]
        simp only [hv]
        rw [hk]
        simp [he]
    | .black =>
      obtain ⟨evs, c', hscan, k, hk⟩ := ih (c := c.putEdge d .black) hn hrest
      refine ⟨_, c', .cross hd hv hscan, k + 1, fun fuel stack => ?_⟩
      rw [Nat.add_right_comm, undirDfvLoop]
      simp only [hv]
      rw [hk]
      simp

/-- The search from a vertex ends, whatever is already painted. -/
lemma undirDfvImplTerm_scans (func : V → Bool) (c : Colors V E) (hu : u ∈ g.vertices) :
    ∃ evs c', Scans g func (c.putVertex u .gray) u (range g func u) evs c' ∧
      ∃ k, ∀ fuel, undirDfvImplTerm g func (k + fuel) c u =
        some (c'.putVertex u .black, .discoverVertex u :: (evs ++ [.finishVertex u])) := by
  obtain ⟨evs, c', hscan, k, hk⟩ := undirDfvLoop_scans func _ u
    (show (whites g (c.putVertex u .gray)).length ≤ _ from le_rfl) (leaves_of_mem_range hu)
  refine ⟨evs, c', hscan, k + 1, fun fuel => ?_⟩
  rw [undirDfvImplTerm, Nat.add_assoc, hk, Nat.add_comm 1 fuel, undirDfvLoop]
  simp

lemma dfsLoop_sweeps {us : List V} (hus : ∀ u ∈ us, u ∈ g.vertices) (c : Colors V E) :
    ∃ evs c', Sweeps g c us evs c' ∧
      ∃ k, ∀ fuel, k ≤ fuel → dfsLoop g fuel c us = some (c', evs) := by
  induction us generalizing c with
  | nil => exact ⟨[], c, .nil c, 0, fun _ _ => rfl⟩
  | cons u us ih =>
    have hu := hus u List.mem_cons_self
    have hrest := fun v hv => hus v (List.mem_cons_of_mem u hv)
    by_cases hwhite : c.vertex u = .white
    · obtain ⟨evs, c₁, hscan, k, hk⟩ := undirDfvImplTerm_scans nontruth2 c hu
      obtain ⟨evs', c₂, hsweep, k', hk'⟩ := ih hrest (c₁.putVertex u .black)
      refine ⟨_, c₂, .root hu hwhite hscan hsweep, k + k', fun fuel hfuel => ?_⟩
      obtain ⟨m, rfl⟩ := Nat.exists_eq_add_of_le (le_trans (Nat.le_add_right k k') hfuel)
      rw [dfsLoop, if_pos hwhite, hk]
      simp [hk' _ (le_trans (Nat.le_add_left k' k) hfuel)]
    · obtain ⟨evs, c', hsweep, k, hk⟩ := ih hrest c
      refine ⟨evs, c', .skip hwhite hsweep, k, fun fuel hfuel => ?_⟩
      rw [dfsLoop, if_neg hwhite, hk fuel hfuel]

lemma paintWhite_vertex (c : Colors V E) (hv : v ∈ g.vertices) :
    (paintWhite g c).vertex v = .white := by
  rw [paintWhite, foldl_putEdge_white, foldl_putVertex_white]
  exact if_pos hv

lemma paintWhite_edge (c : Colors V E) {e : E} (he : e ∈ g.edges) :
    (paintWhite g c).edge e = .white := by
  rw [paintWhite, foldl_putEdge_white]
  exact if_pos he

/-- The search ends. It is a sweep of the start vertex and then of all vertices. -/
lemma undirectedDfs_sweeps (c : Colors V E) (hstart : u ∈ g.vertices) :
    ∃ evs c', Sweeps g (paintWhite g c) (u :: g.vertices) evs c' ∧ ∃ k, ∀ fuel, k ≤ fuel →
      undirectedDfs g fuel c u = some (c', g.vertices.map .initializeVertex ++ evs) := by
  have hwhite : (paintWhite g c).vertex u = .white := paintWhite_vertex c hstart
  by_cases hhead : some u ≠ g.vertices.head?
  · have hall : ∀ v ∈ u :: g.vertices, v ∈ g.vertices := by simp [hstart]
    obtain ⟨evs, c', hsweep, k, hk⟩ := dfsLoop_sweeps hall (paintWhite g c)
    refine ⟨evs, c', hsweep, k, fun fuel hfuel => ?_⟩
    have hloop := hk fuel hfuel
    rw [dfsLoop, if_pos hwhite] at hloop
    rw [undirectedDfs, if_pos hhead, hloop, emit_some]
  · obtain ⟨evs, c', hsweep, k, hk⟩ := dfsLoop_sweeps (fun v hv => hv) (paintWhite g c)
    refine ⟨evs, c', ?_, k, fun fuel hfuel => ?_⟩
    · obtain ⟨us, hus⟩ : ∃ us, g.vertices = u :: us := by
        rw [ne_eq, not_not] at hhead
        exact ⟨g.vertices.tail, (List.cons_head?_tail hhead.symm).symm⟩
      rw [hus] at hsweep ⊢
      cases hsweep with
      | skip hu => exact absurd hwhite hu
      | root hmem hu hscan hrest =>
        exact .root hmem hu hscan (.skip (by simp) hrest)
    · rw [undirectedDfs, if_neg hhead, hk fuel hfuel, emit_some]

end Termination

end UndirectedGraph

end Utilmm
