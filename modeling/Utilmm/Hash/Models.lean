import Utilmm.Core.Dict
import Utilmm.Hash.Placement

/-!
# Tables as finite maps

The chains of a table with distinct keys stand for a finite map. Every operation of a `hash_map` on
the chains is the operation of the same name on the finite map.
-/

namespace Utilmm

namespace HashToolbox

variable {K V : Type} {tr : Traits K V}

/-- The chains hold the pairs of the finite map `d`, each in its place. -/
structure Models (tr : Traits K V) (cs : List (List (Addr × V))) (d : Dict K V) : Prop where
  placed : Placed tr cs
  distinct : Distinct tr cs
  stores : ∀ key v, d key = some v ↔
    ∃ x ∈ cs.flatten, x.2 = v ∧ tr.eq key (tr.getKey v) = true

namespace Models

variable {cs cs' : List (List (Addr × V))} {d : Dict K V}

lemma nil (tr : Traits K V) : Models tr [] (Dict.empty : Dict K V) := by
  refine ⟨placed_nil tr, List.Pairwise.nil, fun key v => ?_⟩
  simp [Dict.empty]

lemma cleared (tr : Traits K V) : Models tr [[]] (Dict.empty : Dict K V) := by
  refine ⟨placed_replicate tr 1, List.Pairwise.nil, fun key v => ?_⟩
  simp [Dict.empty]

lemma of_values (h : Models tr cs d) (hval : values cs' = values cs) : Models tr cs' d := by
  refine ⟨h.placed.of_values hval, h.distinct.of_values hval, fun key v => ?_⟩
  have hflat := congrArg List.flatten hval
  simp only [values, ← List.map_flatten] at hflat
  have hmem : v ∈ cs'.flatten.map Prod.snd ↔ v ∈ cs.flatten.map Prod.snd := by rw [hflat]
  simp only [List.mem_map] at hmem
  rw [h.stores]
  constructor
  · rintro ⟨x, hx, hv, heq⟩
    obtain ⟨y, hy, hyv⟩ := hmem.mpr ⟨x, hx, hv⟩
    exact ⟨y, hy, hyv, heq⟩
  · rintro ⟨x, hx, hv, heq⟩
    obtain ⟨y, hy, hyv⟩ := hmem.mp ⟨x, hx, hv⟩
    exact ⟨y, hy, hyv, heq⟩

lemma of_perm (htr : tr.Lawful) (h : Models tr cs d) (hplaced : Placed tr cs')
    (hperm : cs'.flatten.Perm cs.flatten) : Models tr cs' d := by
  refine ⟨hplaced, h.distinct.of_perm htr hperm, fun key v => ?_⟩
  rw [h.stores]
  simp only [hperm.mem_iff]

lemma sized (htr : tr.Lawful) (h : Models tr cs d) (avg : Nat) :
    Models tr (sized tr avg cs.flatten.length cs) d :=
  h.of_perm htr (h.placed.sized htr.respects avg _) (perm_sized avg cs)

/-- What `find` finds is the pair under the key. -/
lemma found (htr : tr.Lawful) (h : Models tr cs d) {key : K} {pl : Place V}
    (hpl : pl.Finds tr key cs) : d key = pl.rest.head?.map Prod.snd := by
  cases hrest : pl.rest with
  | nil =>
    cases hd : d key with
    | none => rfl
    | some v =>
      obtain ⟨x, hx, rfl, heq⟩ := (h.stores key v).mp hd
      rw [hpl.eq_false htr h.placed hrest hx] at heq
      cases heq
  | cons x rest =>
    rw [List.head?_cons, Option.map_some, h.stores]
    refine ⟨x, ?_, rfl, hpl.rest x (by rw [hrest]; rfl)⟩
    rw [← hpl.chains_eq, pl.flatten_chains, Place.tail, hrest]
    simp

/-- `insert` of a new key. -/
lemma add (htr : tr.Lawful) {pl : Place V} (h : Models tr pl.chains d) {v : V}
    (hpl : pl.Finds tr (tr.getKey v) pl.chains) (hrest : pl.rest = []) (a : Addr) :
    Models tr (pl.add (a, v)) (d.insert tr.eq (tr.getKey v) v) := by
  have hnone : d (tr.getKey v) = none := by
    rw [h.found htr hpl, hrest]
    rfl
  have hfresh : ∀ x ∈ pl.chains.flatten, tr.eq (tr.getKey v) (tr.getKey x.2) = false :=
    fun x hx => hpl.eq_false htr h.placed hrest hx
  have hperm := pl.perm_add (a, v)
  refine ⟨h.placed.add hpl a, ?_, fun key w => ?_⟩
  · rw [Distinct, hperm.pairwise_iff fun hxy => htr.symm_false hxy, List.pairwise_cons]
    exact ⟨hfresh, h.distinct⟩
  · rw [Dict.insert_of_none hnone]
    simp only [hperm.mem_iff, List.mem_cons]
    by_cases hkey : tr.eq key (tr.getKey v) = true
    · rw [if_pos hkey]
      constructor
      · intro hvw
        cases hvw
        exact ⟨(a, v), Or.inl rfl, rfl, hkey⟩
      · rintro ⟨x, rfl | hx, rfl, heq⟩
        · rfl
        · have hvx := htr.trans (htr.symm hkey) heq
          rw [hfresh x hx] at hvx
          cases hvx
    · rw [if_neg hkey, h.stores]
      constructor
      · rintro ⟨x, hx, hxw, heq⟩
        exact ⟨x, Or.inr hx, hxw, heq⟩
      · rintro ⟨x, rfl | hx, hxw, heq⟩
        · cases hxw
          exact absurd heq hkey
        · exact ⟨x, hx, hxw, heq⟩

/-- `erase` of some cells. -/
lemma without (htr : tr.Lawful) (h : Models tr cs d) {gone : List (Addr × V)}
    (hnodup : (addrs cs).Nodup) (hgone : ∀ x ∈ gone, x ∈ cs.flatten) :
    Models tr (without (gone.map Prod.fst) cs)
      (d.erase tr.eq (gone.map fun x => tr.getKey x.2)) := by
  refine ⟨h.placed.without _, h.distinct.without _, fun key v => ?_⟩
  rw [flatten_without, Dict.erase]
  simp only [List.mem_filter, decide_eq_true_eq]
  by_cases hkey : (gone.map fun x => tr.getKey x.2).any (tr.eq key) = true
  · rw [if_pos hkey]
    rw [List.any_map, List.any_eq_true] at hkey
    obtain ⟨y, hy, hyk⟩ := hkey
    apply iff_of_false
    · intro hnone
      cases hnone
    · rintro ⟨x, hx, rfl, heq⟩
      have hxy := h.distinct.eq_of_eq htr hx.1 (hgone y hy) (htr.trans (htr.symm heq) hyk)
      rw [hxy] at hx
      exact hx.2 (List.mem_map_of_mem hy)
  · rw [if_neg hkey, h.stores]
    constructor
    · rintro ⟨x, hx, rfl, heq⟩
      refine ⟨x, ⟨hx, fun hmem => hkey ?_⟩, rfl, heq⟩
      obtain ⟨y, hy, hyx⟩ := List.mem_map.mp hmem
      rw [← List.inj_on_of_nodup_map hnodup (hgone y hy) hx hyx] at heq
      rw [List.any_map, List.any_eq_true]
      exact ⟨y, hy, heq⟩
    · rintro ⟨x, hx, hxv, heq⟩
      exact ⟨x, hx.1, hxv, heq⟩

/-- The number of cells is the number of keys. -/
lemma hasSize (h : Models tr cs d) : d.HasSize tr.eq cs.flatten.length := by
  refine ⟨cs.flatten.map fun x => tr.getKey x.2, List.length_map _, ?_, fun k => ?_⟩
  · exact List.pairwise_map.mpr h.distinct
  rw [Option.isSome_iff_exists]
  constructor
  · rintro ⟨v, hv⟩
    obtain ⟨x, hx, rfl, heq⟩ := (h.stores k v).mp hv
    exact ⟨_, List.mem_map_of_mem hx, heq⟩
  · rintro ⟨k', hk', heq⟩
    obtain ⟨x, hx, rfl⟩ := List.mem_map.mp hk'
    exact ⟨x.2, (h.stores k x.2).mpr ⟨x, hx, rfl, heq⟩⟩

end Models

/-! ### The operations of a map -/

variable {s : State V} {cs : List (List (Addr × V))} {d : Dict K V}

/-- `find` is the lookup of the finite map. -/
lemma find_models (htr : tr.Lawful) (h : Owns s cs) (hd : Models tr cs d) (hlen : 0 < cs.length)
    (key : K) :
    (find tr s key = .ok endIter ∧ d key = none) ∨
      ∃ a n, find tr s key = .ok (some a) ∧ deref s.mem (some a) = .ok n ∧ d key = some n.val := by
  obtain ⟨pl, hpl, hfind⟩ := find_eq h.rep hd.placed hlen key
  have hkey := hd.found htr hpl
  cases hrest : pl.rest with
  | nil =>
    rw [hrest] at hfind hkey
    exact Or.inl ⟨hfind, hkey⟩
  | cons x rest =>
    rw [hrest] at hfind hkey
    have hmem : x ∈ cs.flatten := by
      rw [← hpl.chains_eq, pl.flatten_chains, Place.tail, hrest]
      simp
    obtain ⟨r, hn⟩ := h.rep.node_of_mem hmem
    refine Or.inr ⟨x.1, ⟨x.2, r⟩, hfind, ?_, hkey⟩
    rw [deref, hn]

/-- `insert` is the insertion of the finite map, and says whether the key was absent. -/
lemma insertUnique_models (htr : tr.Lawful) (h : Owns s cs) (hd : Models tr cs d)
    (hlen : 0 < cs.length) (v : V) :
    ∃ s' it cs', insertUnique tr s v = .ok (s', it, (d (tr.getKey v)).isNone) ∧
      Updates s s' cs cs' ∧ Models tr cs' (d.insert tr.eq (tr.getKey v) v) := by
  obtain ⟨pl, hpl, ⟨x, rest, hrest, hok⟩ | ⟨hrest, s', it, hok, hins⟩⟩ :=
    @insertUnique_eq K V tr s cs h hlen v
  · have hkey := hd.found htr hpl
    rw [hrest] at hkey
    refine ⟨s, .ok (some x.1), cs, ?_, .refl h, ?_⟩
    · rw [hok, hkey]
      rfl
    · rwa [Dict.insert_of_isSome (by rw [hkey]; rfl)]
  · have hkey := hd.found htr hpl
    have hcs := hpl.chains_eq
    subst hcs
    rw [hrest] at hkey
    refine ⟨s', it, _, ?_, hins.updates, (hd.add htr hpl hrest _).sized htr _⟩
    rw [hok, hkey]
    rfl

/-- From `it`, the operator `++` goes through the values `vs` until `last`. -/
inductive Visits (tr : Traits K V) (s : State V) (last : Option Addr) :
    Option Addr → List V → Prop
  | stop : Visits tr s last last []
  | next {a : Addr} {n : Node V} {it : Option Addr} {vs : List V} (hne : some a ≠ last)
      (hderef : deref s.mem (some a) = .ok n) (hadvance : advance tr s (some a) 1 = .ok it)
      (h : Visits tr s last it vs) : Visits tr s last (some a) (n.val :: vs)

/-- What is visited are the cells in the order of the chains. -/
lemma Visits.cells (h : Rep s.mem s.table.bucket cs) (hplaced : Placed tr cs)
    {xs tail : List (Addr × V)} {first last : Option Addr} {vs : List V}
    (hvisits : Visits tr s last first vs) (hcs : cs.flatten = xs ++ tail)
    (hfirst : first = tail.head?.map Prod.fst) :
    ∃ gone ys, tail = gone ++ ys ∧ last = ys.head?.map Prod.fst ∧ vs = gone.map Prod.snd := by
  induction hvisits generalizing xs tail with
  | stop => exact ⟨[], tail, rfl, hfirst, rfl⟩
  | @next a n it vs hne hderef hadvance _ ih =>
    cases tail with
    | nil => cases hfirst
    | cons x tail =>
      cases hfirst
      rw [advance_eq h hplaced hcs, Except.ok.injEq] at hadvance
      obtain ⟨gone, ys, htail, hlast, hvs⟩ :=
        @ih (xs ++ [x]) tail (by rw [hcs]; simp) hadvance.symm
      have hmem : x ∈ cs.flatten := by
        rw [hcs]
        simp
      obtain ⟨r, hn⟩ := h.node_of_mem hmem
      rw [deref, hn, Except.ok.injEq] at hderef
      refine ⟨x :: gone, ys, ?_, hlast, ?_⟩
      · rw [htail, List.cons_append]
      · rw [List.map_cons, hvs, ← hderef]

/-- `erase` of a range removes the keys which are visited from its start to its end. -/
lemma erase_models (htr : tr.Lawful) (h : Owns s cs) (hd : Models tr cs d) (hlen : 0 < cs.length)
    {first last : Option Addr} {vs : List V} (hfirst : ∀ a, first = some a → a ∈ addrs cs)
    (hvisits : Visits tr s last first vs) :
    ∃ s' cs', erase tr s first last = .ok s' ∧ Updates s s' cs cs' ∧
      Models tr cs' (d.erase tr.eq (vs.map tr.getKey)) := by
  have hcells : ∀ a, first = some a → ∃ (xs ys : List (Addr × V)) (x : Addr × V),
      cs.flatten = xs ++ x :: ys ∧ x.1 = a := by
    intro a ha
    obtain ⟨x, hx, hxa⟩ := List.mem_map.mp (hfirst a ha)
    obtain ⟨xs, ys, hcs⟩ := List.append_of_mem hx
    exact ⟨xs, ys, x, hcs, hxa⟩
  have hvs := hvisits
  cases hvisits with
  | stop =>
    refine ⟨s, cs, if_pos rfl, .refl h, ?_⟩
    rwa [List.map_nil, Dict.erase_of_none fun k hk => by cases hk]
  | @next a n it vs =>
    obtain ⟨xs, tail, x, hcs, rfl⟩ := hcells a rfl
    obtain ⟨gone, ys, htail, rfl, hgone⟩ := hvs.cells h.rep hd.placed hcs rfl
    cases gone with
    | nil => cases hgone
    | cons y gone =>
      cases (List.cons.inj htail).1
      rw [htail] at hcs
      obtain ⟨s', herase, hup⟩ := erase_range htr h hd.placed hd.distinct hlen hcs
      refine ⟨s', _, herase, hup, ?_⟩
      have hkeys : (n.val :: vs).map tr.getKey = (x :: gone).map fun y => tr.getKey y.2 := by
        rw [hgone, List.map_map]
        rfl
      rw [hkeys]
      apply (hd.without htr h.rep.nodup fun y hy => ?_).sized htr
      rw [hcs]
      exact List.mem_append_right _ (List.mem_append_left _ hy)

/-- `erase` of a key removes the key. -/
lemma eraseKey_models (htr : tr.Lawful) (h : Owns s cs) (hd : Models tr cs d)
    (hlen : 0 < cs.length) (key : K) :
    ∃ s' cs', eraseKey tr s key = .ok s' ∧ Updates s s' cs cs' ∧
      Models tr cs' (d.erase tr.eq [key]) := by
  obtain ⟨pl, hpl, hfind⟩ := find_eq h.rep hd.placed hlen key
  cases hrest : pl.rest with
  | nil =>
    rw [hrest] at hfind
    refine ⟨s, cs, ?_, .refl h, ?_⟩
    · simp only [eraseKey, hfind, bind, Except.bind, eraseIter]
      exact if_neg (not_not.mpr rfl)
    · rwa [Dict.erase_of_none]
      intro k hk
      have hkey : tr.eq k key = true := by simpa using hk
      cases hdk : d k with
      | none => rfl
      | some v =>
        obtain ⟨x, hx, rfl, heq⟩ := (hd.stores k v).mp hdk
        have hkx := htr.trans (htr.symm hkey) heq
        rw [hpl.eq_false htr hd.placed hrest hx] at hkx
        cases hkx
  | cons x rest =>
    rw [hrest] at hfind
    have hkey := hpl.rest x (by rw [hrest]; rfl)
    have hmem : x ∈ cs.flatten := by
      rw [← hpl.chains_eq, pl.flatten_chains, Place.tail, hrest]
      simp
    obtain ⟨xs, ys, hcs⟩ := List.append_of_mem hmem
    obtain ⟨s', herase, hup⟩ :=
      @erase_range K V tr s cs xs [] ys x htr h hd.placed hd.distinct hlen hcs
    refine ⟨s', _, ?_, hup, ?_⟩
    · simp only [eraseKey, hfind, bind, Except.bind, eraseIter, List.head?_cons, Option.map_some]
      rw [if_pos (by simp [endIter]), advance_eq h.rep hd.placed hcs]
      exact herase
    · have hsame : d.erase tr.eq [key] = d.erase tr.eq [tr.getKey x.2] := by
        apply Dict.erase_singleton_congr
        intro k
        cases hk : tr.eq k key with
        | true => exact (htr.trans hk hkey).symm
        | false =>
          cases hkx : tr.eq k (tr.getKey x.2) with
          | false => rfl
          | true =>
            rw [htr.trans hkx (htr.symm hkey)] at hk
            exact hk.symm
      rw [hsame]
      apply (@Models.without K V tr cs d htr hd [x] h.rep.nodup fun y hy => ?_).sized htr
      rw [List.mem_singleton.mp hy]
      exact hmem

end HashToolbox

end Utilmm
