import Utilmm.Hash.Objects

/-!
# Iteration from `begin` to `end`

`begin` looks for the first bucket which is not null, but its loop runs on while the buckets are not
null. So it stops at the first empty bucket, where `end` starts, or behind the last bucket.
-/

namespace Utilmm

namespace HashToolbox

variable {K V : Type} {tr : Traits K V}

/-- From the iterator `it`, the operator `++` visits the nodes `l` and arrives at `end`. -/
inductive Walk (tr : Traits K V) (s : State V) : Option Addr → List Addr → Prop
  | stop : Walk tr s endIter []
  | next {a : Addr} {it : Option Addr} {l : List Addr} (h : advance tr s (some a) 1 = .ok it)
      (hwalk : Walk tr s it l) : Walk tr s (some a) (a :: l)

/-- Iteration from `begin` visits every stored element once and nothing else, and starts at `end` if
and only if there is none. -/
def IterationComplete (tr : Traits K V) (s : State V) : Prop :=
  ∃ it l, beginIter s = .ok it ∧ Walk tr s it l ∧ l.Nodup ∧ (∀ a, a ∈ l ↔ Stored s a) ∧
    (it = endIter ↔ s.table.nodeCount = 0)

/-- Where `begin` stops there is no node. -/
lemma beginLoop_ok {bucket : List (Option Addr)} {it : Option Addr}
    (h : beginLoop bucket = .ok it) : it = endIter := by
  induction bucket with
  | nil => cases h
  | cons p bucket ih =>
    cases p with
    | none =>
      cases h
      rfl
    | some a => exact ih h

/-- A table without nodes has only empty chains. -/
lemma Owns.chain_eq_nil {s : State V} {cs : List (List (Addr × V))} (h : Owns s cs)
    (hzero : s.table.nodeCount = 0) {c : List (Addr × V)} (hc : c ∈ cs) : c = [] := by
  rw [h.count, List.length_eq_zero_iff, List.flatten_eq_nil_iff] at hzero
  exact hzero c hc

lemma Owns.complete_iff {s : State V} {cs : List (List (Addr × V))} (h : Owns s cs)
    (hbucket : 0 < s.table.bucket.length) :
    IterationComplete tr s ↔ s.table.nodeCount = 0 := by
  constructor
  · rintro ⟨it, l, hbegin, -, -, -, hempty⟩
    exact hempty.mp (beginLoop_ok hbegin)
  · intro hzero
    have hnil : addrs cs = [] := by
      rw [addrs, List.map_eq_nil_iff, ← List.length_eq_zero_iff, ← h.count]
      exact hzero
    refine ⟨endIter, [], ?_, .stop, List.nodup_nil, fun a => ?_, ?_⟩
    · rw [beginIter]
      obtain ⟨p, bucket, hcons⟩ := List.exists_cons_of_length_pos hbucket
      have hlt : 0 < cs.length := h.rep.length_eq ▸ hbucket
      have hseg := @Rep.chain _ _ _ _ h.rep 0 p cs[0] (by rw [hcons]; rfl)
        (List.getElem?_eq_getElem hlt)
      rw [h.chain_eq_nil hzero (List.getElem_mem hlt), Seg.nil_iff] at hseg
      rw [hcons, hseg, beginLoop]
      rfl
    · rw [h.rep.stored_iff, hnil]
    · exact iff_of_true rfl hzero

/-- In every run, iteration is complete for just those tables which have no element. -/
theorem iterationComplete_iff {ops : List (Op K V)} {w : World V} {i : Nat} {t : Table}
    (h : Run tr ops w) (ht : w.objects[i]? = some t) (hbucket : 0 < t.bucket.length) :
    IterationComplete tr ⟨w.mem, t⟩ ↔ t.nodeCount = 0 := by
  obtain ⟨css, howns, -⟩ := h.owns
  have hi : i < css.length := howns.length_eq ▸ (List.getElem?_eq_some_iff.mp ht).1
  exact Owns.complete_iff (howns.each ht (List.getElem?_eq_getElem hi)) hbucket

/-- Iteration over a table with two elements is not complete, and after it was cleared it is. -/
theorem iterationComplete_two_elements :
    ¬ IterationComplete Traits.natMap
        ⟨⟨[some ⟨(5, 50), some 1⟩, some ⟨(7, 70), none⟩]⟩, ⟨[some 0], 1, 2, 64⟩⟩ ∧
      IterationComplete Traits.natMap ⟨⟨[none, none]⟩, ⟨[none], 2, 0, 64⟩⟩ := by
  have htwo := @iterationComplete_iff _ _ Traits.natMap
    [.construct, .clear 0, .insertUnique 0 (5, 50), .insertUnique 0 (7, 70)]
    ⟨⟨[some ⟨(5, 50), some 1⟩, some ⟨(7, 70), none⟩]⟩, [⟨[some 0], 1, 2, 64⟩]⟩ 0 _
    (Run.of_execAll rfl) rfl Nat.one_pos
  have hcleared := @iterationComplete_iff _ _ Traits.natMap
    [.construct, .clear 0, .insertUnique 0 (5, 50), .insertUnique 0 (7, 70), .clear 0]
    ⟨⟨[none, none]⟩, [⟨[none], 2, 0, 64⟩]⟩ 0 _ (Run.of_execAll rfl) rfl Nat.one_pos
  exact ⟨fun h => absurd (htwo.mp h) (by decide), hcleared.mpr rfl⟩

/-- With one element in the one bucket of a table, `begin` runs off the vector of buckets. -/
theorem iteration_one_element : ∃ (w : World (Nat × Nat)) (t : Table),
    Run Traits.natMap [.construct, .clear 0, .insertUnique 0 (5, 50)] w ∧
      w.objects[0]? = some t ∧ 0 < t.bucket.length ∧ t.nodeCount = 1 ∧
      ¬ IterationComplete Traits.natMap ⟨w.mem, t⟩ := by
  refine ⟨⟨⟨[some ⟨(5, 50), none⟩]⟩, [⟨[some 0], 1, 1, 64⟩]⟩, ⟨[some 0], 1, 1, 64⟩,
    Run.of_execAll rfl, rfl, Nat.one_pos, rfl, ?_⟩
  rintro ⟨it, l, hbegin, -⟩
  cases hbegin

end HashToolbox

end Utilmm
