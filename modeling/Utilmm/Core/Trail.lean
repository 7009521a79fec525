import Mathlib.Tactic

/-!
# Trails in multigraphs

An arc leads from a vertex to a vertex along an edge. A list of arcs is a trail if each arc starts
where the last one ended; a cycle is a closed trail which repeats no edge. A list of arcs each of
which leads to a new vertex is a forest: no cycle runs along its edges.
-/

namespace Utilmm

universe u v w

/-- The vertices and the edge of the arcs of a multigraph. -/
structure Arcs (V : Type u) (D : Type v) (E : Type w) where
  source : D → V
  target : D → V
  edge : D → E

namespace Arcs

variable {V : Type u} {D : Type v} {E : Type w} {g : Arcs V D E}

/-- The arcs `ds` lead from `u` to `v`. -/
def Leads (g : Arcs V D E) : V → List D → V → Prop
  | u, [], v => u = v
  | u, d :: ds, v => g.source d = u ∧ Leads g (g.target d) ds v

/-- The arcs `ds` are a closed trail which uses no edge twice. -/
structure IsCycle (g : Arcs V D E) (u : V) (ds : List D) : Prop where
  ne_nil : ds ≠ []
  leads : g.Leads u ds u
  nodup : (ds.map g.edge).Nodup

namespace Leads

variable {u v w : V} {d : D} {ds ds' : List D}

@[simp] lemma nil_iff : g.Leads u [] v ↔ u = v := Iff.rfl

lemma append_iff : g.Leads u (ds ++ ds') w ↔ ∃ v, g.Leads u ds v ∧ g.Leads v ds' w := by
  induction ds generalizing u with
  | nil => simp
  | cons d ds ih =>
    simp only [List.cons_append, Leads, ih]
    constructor
    · rintro ⟨hd, v, h, h'⟩
      exact ⟨v, ⟨hd, h⟩, h'⟩
    · rintro ⟨v, ⟨hd, h⟩, h'⟩
      exact ⟨hd, v, h, h'⟩

lemma concat (h : g.Leads u ds (g.source d)) : g.Leads u (ds ++ [d]) (g.target d) :=
  append_iff.mpr ⟨g.source d, h, rfl, rfl⟩

/-- A trail which is not empty leaves its start. -/
lemma exists_source (h : g.Leads u ds v) (hne : ds ≠ []) : ∃ d ∈ ds, g.source d = u := by
  cases ds with
  | nil => exact absurd rfl hne
  | cons d ds => exact ⟨d, List.mem_cons_self, h.1⟩

/-- A trail which is not empty arrives at its end. -/
lemma exists_target (h : g.Leads u ds v) (hne : ds ≠ []) : ∃ d ∈ ds, g.target d = v := by
  obtain ⟨ds', d, rfl⟩ : ∃ ds' d, ds = ds' ++ [d] :=
    ⟨ds.dropLast, ds.getLast hne, (List.dropLast_append_getLast hne).symm⟩
  obtain ⟨w, -, -, hd⟩ := append_iff.mp h
  exact ⟨d, by simp, hd⟩

/-- A trail passes the source of each of its arcs. -/
lemma exists_of_mem (h : g.Leads u ds v) (hd : d ∈ ds) :
    ∃ l, (∀ d' ∈ l, d' ∈ ds) ∧ g.Leads u l (g.source d) := by
  obtain ⟨l, l', rfl⟩ := List.append_of_mem hd
  obtain ⟨w, hl, rfl, -⟩ := append_iff.mp h
  exact ⟨l, fun d' hd' => List.mem_append_left _ hd', hl⟩

/-- Without its loops a trail leads to the same vertex. -/
lemma filter_loops [DecidableEq V] (h : g.Leads u ds v) :
    g.Leads u (ds.filter fun d => g.source d ≠ g.target d) v := by
  induction ds generalizing u with
  | nil => exact h
  | cons d ds ih =>
    obtain ⟨rfl, hrest⟩ := h
    by_cases hloop : g.source d = g.target d
    · rw [List.filter_cons_of_neg (by simpa using hloop), hloop]
      exact ih hrest
    · rw [List.filter_cons_of_pos (by simpa using hloop)]
      exact ⟨rfl, ih hrest⟩

/-- Where a trail leads can be reached. -/
lemma reflTransGen {r : V → V → Prop} (h : g.Leads u ds v)
    (hr : ∀ d ∈ ds, r (g.source d) (g.target d)) : Relation.ReflTransGen r u v := by
  induction ds generalizing u with
  | nil => exact nil_iff.mp h ▸ .refl
  | cons d ds ih =>
    obtain ⟨rfl, hrest⟩ := h
    exact .head (hr d List.mem_cons_self)
      (ih hrest fun d' hd' => hr d' (List.mem_cons_of_mem d hd'))

end Leads

/-- Without its loops a cycle is a cycle, unless there are only loops. -/
lemma IsCycle.filter_loops [DecidableEq V] {u : V} {ds : List D} {d : D} (h : g.IsCycle u ds)
    (hd : d ∈ ds) (hne : g.source d ≠ g.target d) :
    g.IsCycle u (ds.filter fun d => g.source d ≠ g.target d) := by
  refine ⟨List.ne_nil_of_mem (List.mem_filter.mpr ⟨hd, by simpa using hne⟩),
    h.leads.filter_loops, h.nodup.sublist ?_⟩
  exact (List.filter_sublist (l := ds)).map g.edge

/-- Behind any of its arcs a cycle goes on along other edges, back to the start of the arc. -/
lemma IsCycle.exists_rest {u : V} {ds : List D} {d : D} (h : g.IsCycle u ds) (hd : d ∈ ds) :
    ∃ rest, g.Leads (g.target d) rest (g.source d) ∧
      ∀ d' ∈ rest, d' ∈ ds ∧ g.edge d' ≠ g.edge d := by
  obtain ⟨l, l', rfl⟩ := List.append_of_mem hd
  obtain ⟨a, hl, hda, hl'⟩ := Leads.append_iff.mp h.leads
  have hnodup := h.nodup
  rw [List.map_append, List.map_cons, List.nodup_middle, ← List.map_append] at hnodup
  refine ⟨l' ++ l, Leads.append_iff.mpr ⟨u, hl', hda ▸ hl⟩, fun d' hd' => ⟨?_, fun heq => ?_⟩⟩
  · rcases List.mem_append.mp hd' with hd' | hd' <;> simp [hd']
  · apply (List.nodup_cons.mp hnodup).1
    rw [← heq]
    apply List.mem_map_of_mem
    simpa [or_comm] using hd'

/-! ### Forests -/

/-- Each arc leads to a vertex which no earlier arc touches. -/
def Grows (g : Arcs V D E) (ts : List D) : Prop :=
  (∀ t ∈ ts, g.source t ≠ g.target t) ∧
    ts.Pairwise fun a b => g.target b ≠ g.source a ∧ g.target b ≠ g.target a

/-- The arc `d` runs along the arc `t`, in one of the two directions. -/
def Along (g : Arcs V D E) (d t : D) : Prop :=
  g.edge d = g.edge t ∧
    ((g.source d = g.source t ∧ g.target d = g.target t) ∨
      (g.source d = g.target t ∧ g.target d = g.source t))

/-- What runs along an arc touches only the ends of the arc. -/
lemma Along.ne {d t : D} {v : V} (h : g.Along d t) (hsource : v ≠ g.source t)
    (htarget : v ≠ g.target t) : g.source d ≠ v ∧ g.target d ≠ v := by
  obtain ⟨-, ⟨hs, ht⟩ | ⟨hs, ht⟩⟩ := h
  · exact ⟨hs ▸ hsource.symm, ht ▸ htarget.symm⟩
  · exact ⟨hs ▸ htarget.symm, ht ▸ hsource.symm⟩

/-- No cycle runs along an arc to a leaf which no other arc of the cycle touches. -/
lemma IsCycle.not_along_leaf {u : V} {ds : List D} {d t : D} (h : g.IsCycle u ds) (hd : d ∈ ds)
    (hne : g.source t ≠ g.target t) (hleaf : ∀ d' ∈ ds, g.edge d' ≠ g.edge d →
      g.source d' ≠ g.target t ∧ g.target d' ≠ g.target t) : ¬ g.Along d t := by
  obtain ⟨rest, hrest, hmem⟩ := h.exists_rest hd
  rintro ⟨-, ⟨hs, ht⟩ | ⟨hs, ht⟩⟩
  · have hnil : rest ≠ [] := by
      rintro rfl
      rw [Leads.nil_iff, hs, ht] at hrest
      exact hne hrest.symm
    obtain ⟨d', hd', hsource⟩ := hrest.exists_source hnil
    exact (hleaf d' (hmem d' hd').1 (hmem d' hd').2).1 (hsource.trans ht)
  · have hnil : rest ≠ [] := by
      rintro rfl
      rw [Leads.nil_iff, hs, ht] at hrest
      exact hne hrest
    obtain ⟨d', hd', htarget⟩ := hrest.exists_target hnil
    exact (hleaf d' (hmem d' hd').1 (hmem d' hd').2).2 (htarget.trans hs)

/-- No cycle runs along the arcs of a forest. -/
theorem Grows.not_isCycle {ts : List D} (h : g.Grows ts) {u : V} {ds : List D}
    (hds : ∀ d ∈ ds, ∃ t ∈ ts, g.Along d t) : ¬ g.IsCycle u ds := by
  induction ts using List.reverseRecOn with
  | nil =>
    intro hcycle
    obtain ⟨d, hd, -⟩ := hcycle.leads.exists_source hcycle.ne_nil
    obtain ⟨t, ht, -⟩ := hds d hd
    cases ht
  | append_singleton ts t ih =>
    obtain ⟨hloop, hnew⟩ := h
    rw [List.pairwise_append] at hnew
    have hgrows : g.Grows ts := ⟨fun t' ht' => hloop t' (by simp [ht']), hnew.1⟩
    by_cases hlast : ∃ d ∈ ds, g.Along d t
    · obtain ⟨d, hd, hdt⟩ := hlast
      intro hcycle
      -- the other arcs of the cycle run along earlier arcs, which do not touch the leaf
      refine hcycle.not_along_leaf hd (hloop t (by simp)) (fun d' hd' hedge => ?_) hdt
      obtain ⟨t', ht', halong⟩ := hds d' hd'
      rcases List.mem_append.mp ht' with ht' | ht'
      · obtain ⟨hsource, htarget⟩ := hnew.2.2 t' ht' t (by simp)
        exact halong.ne hsource htarget
      · rw [List.mem_singleton.mp ht'] at halong
        exact absurd (halong.1.trans hdt.1.symm) hedge
    · apply ih hgrows
      intro d hd
      obtain ⟨t', ht', halong⟩ := hds d hd
      rcases List.mem_append.mp ht' with ht' | ht'
      · exact ⟨t', ht', halong⟩
      · rw [List.mem_singleton.mp ht'] at halong
        exact absurd ⟨d, hd, halong⟩ hlast

/-- A trail along a part of a forest and an arc of another edge make a cycle. -/
lemma IsCycle.of_sublist {ts ds : List D} {d : D} (h : (ts.map g.edge).Nodup)
    (hsub : ds.Sublist ts) (hd : g.edge d ∉ ts.map g.edge)
    (hleads : g.Leads (g.target d) ds (g.source d)) : g.IsCycle (g.target d) (ds ++ [d]) := by
  refine ⟨by simp, hleads.concat, ?_⟩
  rw [List.map_append, List.map_singleton, List.nodup_append]
  refine ⟨h.sublist (hsub.map _), List.nodup_singleton _, fun e he e' he' => ?_⟩
  rw [List.mem_singleton.mp he']
  rintro rfl
  exact hd ((hsub.map _).subset he)

end Arcs

end Utilmm
