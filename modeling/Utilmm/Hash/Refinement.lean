import Utilmm.Hash.Objects
import Utilmm.Hash.Models

/-!
# Programs with maps

Programs which operate on maps of type `hash_map` run beside programs which operate on finite maps.
A map may be used once it was cleared, or is a copy of a map which may be used. Then each operation
succeeds, and the maps show no difference from the finite maps.
-/

namespace Utilmm

namespace HashToolbox

variable {K V : Type} {tr : Traits K V}

/-- The effect of an operation in the world `w` on the finite maps `ds`, where `p` says which maps
may be used. A range is erased by the keys which iteration visits from its start to its end. -/
inductive MapStep (tr : Traits K V) (p : List Bool) (w : World V) (ds : List (Dict K V)) :
    Op K V → List (Dict K V) → Prop
  | construct : MapStep tr p w ds .construct (ds ++ [Dict.empty])
  | clear {i : Nat} (hi : i < ds.length) : MapStep tr p w ds (.clear i) (ds.set i Dict.empty)
  | copy {j : Nat} {d : Dict K V} (hj : p[j]? = some true) (hd : ds[j]? = some d) :
      MapStep tr p w ds (.copy j) (ds ++ [d])
  | assign {i j : Nat} {d : Dict K V} (hi : p[i]? = some true) (hj : p[j]? = some true)
      (hd : ds[j]? = some d) : MapStep tr p w ds (.assign i j) (ds.set i d)
  | swap {i j : Nat} {d d' : Dict K V} (hi : p[i]? = some true) (hj : p[j]? = some true)
      (hd : ds[i]? = some d) (hd' : ds[j]? = some d') :
      MapStep tr p w ds (.swap i j) ((ds.set i d').set j d)
  | insert {i : Nat} {d : Dict K V} (hi : p[i]? = some true) (hd : ds[i]? = some d) (v : V) :
      MapStep tr p w ds (.insertUnique i v) (ds.set i (d.insert tr.eq (tr.getKey v) v))
  | eraseKey {i : Nat} {d : Dict K V} (hi : p[i]? = some true) (hd : ds[i]? = some d) (key : K) :
      MapStep tr p w ds (.eraseKey i key) (ds.set i (d.erase tr.eq [key]))
  | eraseRange {i : Nat} {d : Dict K V} {s : State V} {first last : Option Addr} {vs : List V}
      (hi : p[i]? = some true) (hd : ds[i]? = some d) (hs : w.object i = .ok s)
      (hfirst : ∀ a, first = some a → Stored s a) (hvisits : Visits tr s last first vs) :
      MapStep tr p w ds (.eraseRange i first last)
        (ds.set i (d.erase tr.eq (vs.map tr.getKey)))

/-- A program has run the operations `ops` on maps. It has arrived at `w`, and the finite maps at
`ds`. -/
inductive MapRun (tr : Traits K V) : List (Op K V) → World V → List (Dict K V) → Prop
  | start : MapRun tr [] World.empty []
  | step {ops : List (Op K V)} {w w' : World V} {ds ds' : List (Dict K V)} {op : Op K V}
      {r : Result} (h : MapRun tr ops w ds) (hstep : MapStep tr (primed ops) w ds op ds')
      (hexec : w.exec tr op = .ok (w', r)) : MapRun tr (ops ++ [op]) w' ds'

/-- What a map shows is what the finite map `d` shows. -/
structure Observes (tr : Traits K V) (s : State V) (d : Dict K V) : Prop where
  find : ∀ key, (find tr s key = .ok endIter ∧ d key = none) ∨
    ∃ a n, HashToolbox.find tr s key = .ok (some a) ∧ deref s.mem (some a) = .ok n ∧
      d key = some n.val
  insert : ∀ v, ∃ s' it, insertUnique tr s v = .ok (s', it, (d (tr.getKey v)).isNone)
  size : d.HasSize tr.eq s.table.nodeCount

lemma MapRun.run {ops : List (Op K V)} {w : World V} {ds : List (Dict K V)}
    (h : MapRun tr ops w ds) : Run tr ops w := by
  induction h with
  | start => exact .start
  | step _ _ hexec ih => exact ih.step hexec

/-! ### The simulation -/

/-- Each table stands for its finite map. -/
structure Simulates (tr : Traits K V) (w : World V) (css : List (List (List (Addr × V))))
    (ds : List (Dict K V)) : Prop where
  owns : w.Owns css
  length_eq : css.length = ds.length
  models : ∀ {i : Nat} {cs : List (List (Addr × V))} {d : Dict K V}, css[i]? = some cs →
    ds[i]? = some d → Models tr cs d

namespace Simulates

variable {w w' : World V} {css : List (List (List (Addr × V)))} {ds : List (Dict K V)}

lemma object (h : Simulates tr w css ds) {i : Nat} {d : Dict K V} (hd : ds[i]? = some d) :
    ∃ t cs, w.object i = .ok ⟨w.mem, t⟩ ∧ css[i]? = some cs ∧ Owns ⟨w.mem, t⟩ cs ∧
      Models tr cs d := by
  have hi : i < css.length := h.length_eq ▸ (List.getElem?_eq_some_iff.mp hd).1
  have hcs := List.getElem?_eq_getElem hi
  obtain ⟨t, ht, -, howns⟩ := h.owns.exists_object hcs
  exact ⟨t, css[i], ht, hcs, howns, h.models hcs hd⟩

lemma push (h : Simulates tr w css ds) {cs : List (List (Addr × V))} {d : Dict K V}
    (howns : w'.Owns (css ++ [cs])) (hd : Models tr cs d) :
    Simulates tr w' (css ++ [cs]) (ds ++ [d]) := by
  refine ⟨howns, by simp [h.length_eq], fun {i cs' d'} hcs' hd' => ?_⟩
  rcases lt_or_ge i css.length with hi | hi
  · rw [List.getElem?_append_left hi] at hcs'
    rw [List.getElem?_append_left (h.length_eq ▸ hi)] at hd'
    exact h.models hcs' hd'
  · rw [List.getElem?_append_right hi, List.getElem?_singleton] at hcs'
    rw [List.getElem?_append_right (h.length_eq ▸ hi), ← h.length_eq,
      List.getElem?_singleton] at hd'
    split_ifs at hcs' hd'
    cases hcs'
    cases hd'
    exact hd

lemma set (h : Simulates tr w css ds) {i : Nat} {cs : List (List (Addr × V))} {d : Dict K V}
    (howns : w'.Owns (css.set i cs)) (hd : Models tr cs d) :
    Simulates tr w' (css.set i cs) (ds.set i d) := by
  refine ⟨howns, by simp [h.length_eq], fun {j cs' d'} hcs' hd' => ?_⟩
  by_cases hij : i = j
  · subst hij
    have hi := (List.getElem?_eq_some_iff.mp hcs').1
    rw [List.length_set] at hi
    rw [List.getElem?_set_self hi] at hcs'
    rw [List.getElem?_set_self (h.length_eq ▸ hi)] at hd'
    cases hcs'
    cases hd'
    exact hd
  · rw [List.getElem?_set_ne hij] at hcs' hd'
    exact h.models hcs' hd'

/-- A table which may be used has a chain. -/
lemma length_pos {ops : List (Op K V)} (hrun : Run tr ops w) {i : Nat} {t : Table}
    {cs : List (List (Addr × V))} (hi : (primed ops)[i]? = some true)
    (ht : w.object i = .ok ⟨w.mem, t⟩) (h : Owns ⟨w.mem, t⟩ cs) : 0 < cs.length := by
  rcases hrun.primed_object i with ⟨t', ht', hprimed⟩ | ⟨hnone, -⟩
  · rw [ht, Except.ok.injEq, State.mk.injEq] at ht'
    rw [hi, Option.some.injEq, ← ht'.2] at hprimed
    have hlen : t.bucket.length = cs.length := h.rep.length_eq
    rw [← hlen]
    exact of_decide_eq_true hprimed.symm
  · rw [ht] at hnone
    cases hnone

lemma exists_chains {ops : List (Op K V)} (hrun : Run tr ops w) (h : Simulates tr w css ds)
    {i : Nat} (hi : (primed ops)[i]? = some true) : ∃ cs, css[i]? = some cs := by
  rcases hrun.primed_object i with ⟨t, ht, -⟩ | ⟨-, hnone⟩
  · obtain ⟨-, cs, -, -, hcs, -⟩ := h.owns.object ht
    exact ⟨cs, hcs⟩
  · rw [hnone] at hi
    cases hi

/-- An operation is simulated. -/
lemma step (htr : tr.Lawful) {ops : List (Op K V)} (hrun : Run tr ops w)
    (h : Simulates tr w css ds) {op : Op K V} {ds' : List (Dict K V)}
    (hstep : MapStep tr (primed ops) w ds op ds') :
    ∃ w' r css', w.exec tr op = .ok (w', r) ∧ Simulates tr w' css' ds' := by
  cases hstep with
  | construct => exact ⟨_, _, _, rfl, h.push h.owns.construct (.nil tr)⟩
  | @clear i hi =>
    obtain ⟨t, cs, ht, hcs, howns, -⟩ := h.object (List.getElem?_eq_getElem hi)
    obtain ⟨s', hclear, hup⟩ := @clear_eq K V tr ⟨w.mem, t⟩ cs howns.rep
    refine ⟨_, .done, _, ?_, h.set (h.owns.update hcs hup) (.cleared tr)⟩
    simp only [World.exec, ht, hclear, bind, Except.bind]
    rfl
  | @copy j d hj hd =>
    obtain ⟨t, cs, -, hcs, -, hmodels⟩ := h.object hd
    obtain ⟨w', cs', hcopy, howns, hval, -⟩ := h.owns.copyObject hcs
    refine ⟨w', .done, _, ?_, h.push howns (hmodels.of_values hval)⟩
    simp only [World.exec, hcopy, bind, Except.bind]
    rfl
  | @assign i j d hi hj hd =>
    obtain ⟨ci, hci⟩ := h.exists_chains hrun hi
    obtain ⟨t, cs, -, hcs, -, hmodels⟩ := h.object hd
    obtain ⟨w', cs', hassign, howns, hval⟩ :=
      @World.Owns.assignObject K V tr _ _ h.owns i j _ _ hci hcs
    refine ⟨w', .done, _, ?_, h.set howns (hmodels.of_values hval)⟩
    simp only [World.exec, hassign, bind, Except.bind]
    rfl
  | @swap i j d d' hi hj hd hd' =>
    obtain ⟨-, cs, -, hcs, -, -⟩ := h.object hd
    obtain ⟨-, cs', -, hcs', -, -⟩ := h.object hd'
    obtain ⟨w', hswap, howns, -⟩ := h.owns.swapObjects hcs hcs'
    refine ⟨w', .done, _, ?_, howns, by simp [h.length_eq], fun {k ck dk} hck hdk => ?_⟩
    · simp only [World.exec, hswap, bind, Except.bind]
      rfl
    · rw [getElem?_swap hcs hcs'] at hck
      rw [getElem?_swap hd hd'] at hdk
      exact h.models hck hdk
  | @insert i d hi hd v =>
    obtain ⟨t, cs, ht, hcs, howns, hmodels⟩ := h.object hd
    obtain ⟨s', it, cs', hinsert, hup, hmodels'⟩ :=
      insertUnique_models htr howns hmodels (length_pos hrun hi ht howns) v
    refine ⟨_, .inserted it (d (tr.getKey v)).isNone, _, ?_,
      h.set (h.owns.update hcs hup) hmodels'⟩
    simp only [World.exec, ht, hinsert, bind, Except.bind]
    rfl
  | @eraseKey i d hi hd key =>
    obtain ⟨t, cs, ht, hcs, howns, hmodels⟩ := h.object hd
    obtain ⟨s', cs', herase, hup, hmodels'⟩ :=
      eraseKey_models htr howns hmodels (length_pos hrun hi ht howns) key
    refine ⟨_, .done, _, ?_, h.set (h.owns.update hcs hup) hmodels'⟩
    simp only [World.exec, ht, herase, bind, Except.bind]
    rfl
  | @eraseRange i d s first last vs hi hd hs hfirst hvisits =>
    obtain ⟨t, cs, ht, hcs, howns, hmodels⟩ := h.object hd
    rw [ht, Except.ok.injEq] at hs
    subst hs
    obtain ⟨s', cs', herase, hup, hmodels'⟩ :=
      erase_models htr howns hmodels (length_pos hrun hi ht howns)
        (fun a ha => howns.rep.stored_iff.mp (hfirst a ha)) hvisits
    refine ⟨_, .done, _, ?_, h.set (h.owns.update hcs hup) hmodels'⟩
    simp only [World.exec, ht, herase, bind, Except.bind]
    rfl

end Simulates

/-- In every run the tables stand for the finite maps. -/
lemma MapRun.simulates (htr : tr.Lawful) {ops : List (Op K V)} {w : World V}
    {ds : List (Dict K V)} (h : MapRun tr ops w ds) : ∃ css, Simulates tr w css ds := by
  induction h with
  | start =>
    refine ⟨[], .empty, rfl, fun hcs => ?_⟩
    cases hcs
  | @step ops w w' ds ds' op r hrun hstep hexec ih =>
    obtain ⟨css, hsim⟩ := ih
    obtain ⟨w₁, r₁, css', hexec₁, hsim'⟩ := hsim.step htr hrun.run hstep
    rw [hexec, Except.ok.injEq, Prod.mk.injEq] at hexec₁
    exact ⟨css', hexec₁.1 ▸ hsim'⟩

/-- Whatever was done with them, maps are finite maps: each operation succeeds, and each map which
may be used shows what its finite map shows. To succeed says nothing about the iterator which
`insertUnique` returns, it may be a fault. -/
theorem MapRun.refines (htr : tr.Lawful) {ops : List (Op K V)} {w : World V}
    {ds : List (Dict K V)} (h : MapRun tr ops w ds) :
    (∀ op ds', MapStep tr (primed ops) w ds op ds' → ∃ w' r, w.exec tr op = .ok (w', r)) ∧
      ∀ i s d, w.object i = .ok s → ds[i]? = some d → (primed ops)[i]? = some true →
        Observes tr s d := by
  obtain ⟨css, hsim⟩ := h.simulates htr
  constructor
  · intro op ds' hstep
    obtain ⟨w', r, -, hexec, -⟩ := hsim.step htr h.run hstep
    exact ⟨w', r, hexec⟩
  · intro i s d hs hd hi
    obtain ⟨t, cs, ht, hcs, howns, hmodels⟩ := hsim.object hd
    rw [ht, Except.ok.injEq] at hs
    subst hs
    have hlen := Simulates.length_pos h.run hi ht howns
    refine ⟨find_models htr howns hmodels hlen, fun v => ?_, ?_⟩
    · obtain ⟨s', it, -, hinsert, -⟩ := insertUnique_models htr howns hmodels hlen v
      exact ⟨s', it, hinsert⟩
    · have hcount : t.nodeCount = cs.flatten.length := howns.count
      rw [hcount]
      exact hmodels.hasSize

/-- Three keys are inserted, one of them twice, and one is erased. -/
theorem refines_three_keys :
    Observes Traits.natMap
      ⟨⟨[some ⟨(5, 50), some 2⟩, none, some ⟨(3, 30), none⟩]⟩, ⟨[some 0], 1, 2, 64⟩⟩
      (((((Dict.empty.insert (· == ·) 5 (5, 50)).insert (· == ·) 7 (7, 70)).insert (· == ·) 5
        (5, 51)).insert (· == ·) 3 (3, 30)).erase (· == ·) [7]) := by
  have hclear : MapRun Traits.natMap [.construct, .clear 0]
      ⟨Memory.empty, [⟨[none], 1, 0, 64⟩]⟩ [Dict.empty] :=
    (MapRun.start.step .construct rfl).step (.clear (i := 0) Nat.one_pos) rfl
  have hfive := hclear.step (.insert (i := 0) rfl rfl (5, 50)) rfl
  have hseven := hfive.step (.insert (i := 0) rfl rfl (7, 70)) rfl
  have hagain := hseven.step (.insert (i := 0) rfl rfl (5, 51)) rfl
  have hthree := hagain.step (.insert (i := 0) rfl rfl (3, 30)) rfl
  have herase := hthree.step (.eraseKey (i := 0) rfl rfl 7) rfl
  exact (MapRun.refines Traits.natMap_lawful herase).2 0 _ _ rfl rfl rfl

end HashToolbox

end Utilmm
