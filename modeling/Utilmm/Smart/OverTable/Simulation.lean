import Utilmm.Functional.CachedFn
import Utilmm.Hash.Accounting
import Utilmm.Smart.OverTable
import Utilmm.Smart.Uniq

/-!
# The list of the cells in the hash map

As long as the table does not grow, its one chain is the list of the cells of the memory, and each
operation on the pointers does the same over the table as over the list.
-/

namespace Utilmm.Smart

namespace OverTable

open HashToolbox (Table Traits deref insertUnique eraseIter clear)

/-! ### The cells of the table -/

variable {Ty : Type} {hash : Ty → Nat} {equal : Ty → Ty → Bool}

lemma eqPtr_iff {heap : Nat → Option Ty} {a b : Nat} :
    Smart.World.eqPtr equal heap a b = true ↔
      a = b ∨ ∃ x y, heap a = some x ∧ heap b = some y ∧ equal x y = true := by
  by_cases hab : a = b
  · simp [Smart.World.eqPtr, hab]
  · cases hx : heap a <;> cases hy : heap b <;> simp [Smart.World.eqPtr, hab, hx, hy]

/-- Two pointers are equal keys if their values are equal. -/
lemma memTraits_lawful (hequal : Equivalence fun x y => equal x y = true)
    (hhash : ∀ x y, equal x y = true → hash x = hash y) (heap : Nat → Option Ty) :
    (memTraits hash equal heap).Lawful where
  refl _ := Smart.World.eqPtr_self heap
  symm h := Smart.World.eqPtr_comm (fun _ _ => hequal.symm) h
  trans h h' := by
    rcases eqPtr_iff.mp h with rfl | ⟨x, y, hx, hy, hxy⟩
    · exact h'
    rcases eqPtr_iff.mp h' with rfl | ⟨y', z, hy', hz, hyz⟩
    · exact h
    obtain rfl : y = y' := Option.some.inj (hy.symm.trans hy')
    exact eqPtr_iff.mpr (.inr ⟨x, z, hx, hz, hequal.trans hxy hyz⟩)
  hash_eq h := by
    rcases eqPtr_iff.mp h with rfl | ⟨x, y, hx, hy, hxy⟩
    · rfl
    · simp [memTraits, hx, hy, hhash x y hxy]

/-- A table without nodes. -/
lemma owns_emptyTable {V : Type} (s : HashToolbox.State V) (n : Nat) :
    HashToolbox.Owns ⟨s.mem, emptyTable n⟩ (List.replicate n []) :=
  ⟨HashToolbox.rep_replicate s.mem n, by simp [emptyTable, Table.new]⟩

/-- A cell in a chain of the table. -/
def entry (cell : Cell) : Addr × (Nat × Nat) := (cell.id, (cell.first, cell.second))

lemma map_fst_entry (cells : List Cell) :
    (cells.map entry).map Prod.fst = cells.map Cell.id := List.map_map

/-- No two cells have equal values. -/
def Apart (equal : Ty → Ty → Bool) (w : Smart.World Ty) : Prop :=
  w.cells.Pairwise fun cell cell' =>
    Smart.World.eqPtr equal w.heap cell.first cell'.first = false

namespace Apart

variable {w : Smart.World Ty}

lemma distinct (hash : Ty → Nat) (h : Apart equal w) :
    HashToolbox.Distinct (memTraits hash equal w.heap) [w.cells.map entry] := by
  rw [HashToolbox.Distinct, List.flatten_singleton, List.pairwise_map]
  exact h

/-- A write to a counter leaves the values of the cells alone. -/
lemma putSecond (h : Apart equal w) (a second : Nat) : Apart equal (w.putSecond a second) := by
  have hfirst : (w.putSecond a second).cells.map Cell.first = w.cells.map Cell.first :=
    List.map_modify_key a fun _ => rfl
  have hmap : (w.cells.map Cell.first).Pairwise fun a b =>
      Smart.World.eqPtr equal w.heap a b = false := List.pairwise_map.mpr h
  rw [← hfirst] at hmap
  exact List.pairwise_map.mp hmap

end Apart

/-- The value of a raw pointer is in a cell, or there is room for a cell in one bucket. -/
def HasRoom (equal : Ty → Ty → Bool) (w : Smart.World Ty) (a : Nat) : Prop :=
  (∃ cell ∈ w.cells, Smart.World.eqPtr equal w.heap cell.first a = true) ∨ w.cells.length < 63

/-- The program sees no difference. -/
structure Agree (w : Smart.World Ty) (t : World Ty) : Prop where
  heap : t.heap = w.heap
  pointers : t.pointers = w.pointers
  deleted : t.deleted = w.deleted

/-- The table has the cells in its `n` buckets, one or none, and did not grow. -/
structure Simulates (n : Nat) (w : Smart.World Ty) (t : World Ty) : Prop
    extends Agree w t where
  nextAddress : t.nextAddress = w.nextAddress
  owns : ∃ cs, cs.length = n ∧ cs.flatten = w.cells.map entry ∧ HashToolbox.Owns t.theMem cs
  le_one : n ≤ 1
  size : t.theMem.mem.size = w.nextCell
  avg : t.theMem.table.avgBucketCount = 64
  short : w.cells.length < 64

namespace Simulates

variable {n : Nat} {w w' : Smart.World Ty} {t : World Ty} {cell : Cell} {c : Option Addr}

lemma nodup (h : Simulates n w t) : (w.cells.map Cell.id).Nodup := by
  obtain ⟨cs, -, hflat, howns⟩ := h.owns
  rw [← map_fst_entry, ← hflat]
  exact howns.rep.nodup

lemma node_eq (h : Simulates n w t) (hcell : cell ∈ w.cells) :
    ∃ r, t.theMem.mem.node cell.id = some ⟨(cell.first, cell.second), r⟩ ∧
      t.node (some cell.id) = .ok ⟨(cell.first, cell.second), r⟩ := by
  obtain ⟨cs, -, hflat, howns⟩ := h.owns
  obtain ⟨r, hn⟩ := howns.rep.node_of_mem (x := entry cell) (hflat ▸ List.mem_map_of_mem hcell)
  change t.theMem.mem.node cell.id = some ⟨(cell.first, cell.second), r⟩ at hn
  refine ⟨r, hn, ?_⟩
  rw [World.node, deref, hn]
  rfl

lemma cell_of_ok {c : Nat} (hok : w.cell c = .ok cell) : cell ∈ w.cells ∧ cell.id = c := by
  rw [Smart.World.cell] at hok
  split at hok
  · next hfind =>
    cases hok
    exact ⟨List.mem_of_find?_eq_some hfind, by simpa using List.find?_some hfind⟩
  · cases hok

/-- A counter is written in both. -/
lemma putSecond (h : Simulates n w t) (hcell : cell ∈ w.cells) {r : Option Addr}
    (hn : t.theMem.mem.node cell.id = some ⟨(cell.first, cell.second), r⟩) (second : Nat) :
    Simulates n (w.putSecond cell.id second)
      (t.putSecond cell.id ⟨(cell.first, cell.second), r⟩ second) := by
  obtain ⟨cs, hlen, hflat, howns⟩ := h.owns
  refine ⟨⟨h.heap, h.pointers, h.deleted⟩, h.nextAddress,
    ⟨cs.map (Seg.setVal cell.id (cell.first, second)), ?_, ?_, howns.write_val hn⟩, h.le_one,
    ?_, h.avg, ?_⟩
  · rw [List.length_map, hlen]
  · have hset : ∀ cell' ∈ w.cells,
        (if cell'.id = cell.id then (cell.id, (cell.first, second)) else entry cell') =
          entry (if cell'.id = cell.id then { cell' with second } else cell') := by
      intro cell' hcell'
      split_ifs with hid
      · rw [List.inj_on_of_nodup_map h.nodup hcell' hcell hid]
        rfl
      · rfl
    calc (cs.map (Seg.setVal cell.id (cell.first, second))).flatten
        = Seg.setVal cell.id (cell.first, second) cs.flatten := by
          rw [Seg.setVal, List.map_flatten]
          rfl
      _ = (w.putSecond cell.id second).cells.map entry := by
          rw [hflat, Seg.setVal, Smart.World.putSecond, List.map_map, List.map_map]
          exact List.map_congr_left hset
  · rw [World.putSecond, Memory.size_write, h.size]
    rfl
  · rw [Smart.World.putSecond, List.length_map]
    exact h.short

lemma assign (h : Simulates n w t) (hok : w.assign c = .ok w') :
    ∃ t', t.assign c = .ok t' ∧ Simulates n w' t' := by
  cases c with
  | none =>
    cases hok
    exact ⟨t, rfl, h⟩
  | some a =>
    simp only [Smart.World.assign, Except.bind_eq_ok, Except.pure_eq_ok] at hok
    obtain ⟨cell, hcell, rfl⟩ := hok
    obtain ⟨hmem, rfl⟩ := cell_of_ok hcell
    obtain ⟨r, hn, hnode⟩ := h.node_eq hmem
    refine ⟨_, ?_, h.putSecond hmem hn _⟩
    rw [World.assign, hnode]
    rfl

lemma delete (h : Simulates n w t) {a : Nat} (hok : w.delete a = .ok w') :
    ∃ t', t.delete a = .ok t' ∧ Simulates n w' t' := by
  rw [Smart.World.delete] at hok
  split_ifs at hok with ha
  cases hok
  refine ⟨_, if_pos (h.heap ▸ ha), ⟨?_, h.pointers, ?_⟩, h.nextAddress, h.owns, h.le_one, h.size,
    h.avg, h.short⟩
  · rw [h.heap]
  · rw [h.deleted]

/-- The cells are in one chain, if there is a bucket. -/
lemma chain (h : Simulates 1 w t) : HashToolbox.Owns t.theMem [w.cells.map entry] := by
  obtain ⟨cs, hlen, hflat, howns⟩ := h.owns
  obtain ⟨c, rfl⟩ := List.length_eq_one_iff.mp hlen
  rw [List.flatten_singleton] at hflat
  exact hflat ▸ howns

lemma eq_one (h : Simulates n w t) (hcell : cell ∈ w.cells) : n = 1 := by
  obtain ⟨cs, hlen, hflat, -⟩ := h.owns
  have hpos : 0 < cs.length := by
    refine List.length_pos_of_ne_nil fun hnil => ?_
    rw [hnil, List.flatten_nil] at hflat
    exact List.ne_nil_of_mem (List.mem_map_of_mem hcell) hflat.symm
  have hle := h.le_one
  omega

/-- A value which is in a cell. -/
lemma insert_found (h : Simulates 1 w t) {refs : Multiset Nat} (hmem : Memory equal w refs)
    (hlawful : (memTraits hash equal w.heap).Lawful) {a : Nat} (hcell : cell ∈ w.cells)
    (heq : Smart.World.eqPtr equal w.heap cell.first a = true) :
    insertUnique (memTraits hash equal w.heap) t.theMem (a, 0) =
      .ok (t.theMem, .ok (some cell.id), false) := by
  obtain ⟨pl, hpl, hcase⟩ := @HashToolbox.insertUnique_eq _ _ (memTraits hash equal w.heap) _ _
    h.chain Nat.one_pos (a, 0)
  obtain ⟨rest, hrest⟩ := hpl.rest_eq hlawful (CachedFn.placed_singleton _ _)
    (Apart.distinct hash hmem.distinct) (x := entry cell)
    (by rw [List.flatten_singleton]; exact List.mem_map_of_mem hcell) (hlawful.symm heq)
  rcases hcase with ⟨x, rest', hrest', hok⟩ | ⟨hnil, -⟩
  · rw [hrest, List.cons.injEq] at hrest'
    obtain ⟨rfl, -⟩ := hrest'
    exact hok
  · rw [hrest] at hnil
    cases hnil

/-- A chain which is not full stays alone. -/
lemma sized_singleton {tr : Traits Nat (Nat × Nat)} {l : List (Addr × (Nat × Nat))}
    (hl : l.length < 64) : HashToolbox.sized tr 64 [l].flatten.length [l] = [l] := by
  rw [HashToolbox.sized, List.flatten_singleton, List.length_singleton]
  split_ifs with hzero hgrow
  · rw [List.length_eq_zero_iff.mp hzero]
  · omega
  · rfl

/-- A new value with room for it. -/
lemma insert_new (h : Simulates 1 w t) (hlawful : (memTraits hash equal w.heap).Lawful) {a : Nat}
    (hnew : ∀ cell ∈ w.cells, Smart.World.eqPtr equal w.heap cell.first a = false)
    (hroom : w.cells.length < 63) :
    ∃ s, insertUnique (memTraits hash equal w.heap) t.theMem (a, 0) =
        .ok (s, .ok (some w.nextCell), true) ∧
      HashToolbox.Owns s [w.cells.map entry ++ [(w.nextCell, (a, 0))]] ∧
      s.mem.size = w.nextCell + 1 ∧ s.table.avgBucketCount = 64 := by
  obtain ⟨pl, hpl, hcase⟩ := @HashToolbox.insertUnique_eq _ _ (memTraits hash equal w.heap) _ _
    h.chain Nat.one_pos (a, 0)
  obtain ⟨hpre, hpost, hc⟩ := CachedFn.place_singleton hpl.chains_eq
  have hcount : t.theMem.table.nodeCount = w.cells.length := by
    rw [h.chain.count, List.flatten_singleton, List.length_map]
  have hle : 1 + (t.theMem.table.nodeCount + 1) / t.theMem.table.avgBucketCount ≤ 1 := by
    rw [hcount, h.avg]
    omega
  rcases hcase with ⟨x, rest, hrest, -⟩ | ⟨hrest, s, it, hok, hins⟩
  · have hx : x ∈ w.cells.map entry := by
      rw [← hc, hrest]
      simp
    obtain ⟨cell, hcell, rfl⟩ := List.mem_map.mp hx
    have heq := hpl.rest (entry cell) (by rw [hrest]; rfl)
    have hfalse := hlawful.symm_false (k := cell.first) (hnew cell hcell)
    exact absurd heq (Bool.eq_false_iff.mp hfalse)
  · rw [hrest, List.append_nil] at hc
    have hadd : pl.add (t.theMem.mem.size, (a, 0)) =
        [w.cells.map entry ++ [(w.nextCell, (a, 0))]] := by
      rw [HashToolbox.Place.add, HashToolbox.Place.fill, hpre, hpost, hrest, hc, h.size]
      rfl
    have hup := hins.updates
    rw [hadd, h.avg, sized_singleton (by simpa using Nat.succ_lt_succ hroom)] at hup
    refine ⟨s, ?_, hup.owns, ?_, hup.avg.trans h.avg⟩
    · rw [hok, hins.iter, h.size]
      rwa [hpl.chains_eq, List.length_singleton]
    · rw [HashToolbox.insertUnique_size hok, h.size]
      rwa [h.chain.rep.length_eq, List.length_singleton]

/-- What `create` does is told by what `insert` returns. -/
lemma create_inserted {a : Nat} {s : HashToolbox.State (Nat × Nat)} (ha : t.heap a ≠ none)
    (hins : insertUnique (memTraits hash equal t.heap) t.theMem (a, 0) = .ok (s, .ok c, true)) :
    t.create hash equal a = .ok (c, { t with theMem := s }) := by
  rw [World.create, if_neg (by simpa using ha), hins]
  rfl

lemma create_found {a : Nat} {b : Addr} {n : Node (Nat × Nat)} (ha : t.heap a ≠ none)
    (hins : insertUnique (memTraits hash equal t.heap) t.theMem (a, 0) =
      .ok (t.theMem, .ok (some b), false)) (hnode : t.node (some b) = .ok n) :
    t.create hash equal a = if n.val.1 ≠ a then (do let t ← t.delete a; return (some b, t))
      else .ok (some b, t) := by
  rw [World.create, if_neg (by simpa using ha), hins]
  simp only [Except.mapError, Except.ok_bind, Bool.false_eq_true, if_false, hnode]
  rfl

/-- The value is in a cell, or there is room for it. -/
lemma create (h : Simulates 1 w t) {refs : Multiset Nat} (hmem : Memory equal w refs)
    (hlawful : (memTraits hash equal w.heap).Lawful) {a : Nat} (ha : w.heap a ≠ none)
    (hroom : HasRoom equal w a) {c : Nat} (hok : w.create equal a = .ok (c, w')) :
    ∃ t', t.create hash equal a = .ok (some c, t') ∧ Simulates 1 w' t' := by
  have halive : t.heap a ≠ none := by rwa [h.heap]
  cases hfind : w.cells.find? fun cell => Smart.World.eqPtr equal w.heap cell.first a with
  | some cell =>
    have hcell := List.mem_of_find?_eq_some hfind
    have heq : Smart.World.eqPtr equal w.heap cell.first a = true := by
      simpa using List.find?_some hfind
    have hins := h.insert_found hmem hlawful hcell heq
    rw [← h.heap] at hins
    obtain ⟨r, -, hnode⟩ := h.node_eq hcell
    rw [create_found halive hins hnode]
    simp only [Smart.World.create, hfind] at hok
    split_ifs at hok ⊢ with hne
    · simp only [Except.bind_eq_ok, Except.pure_eq_ok, Prod.mk.injEq] at hok
      obtain ⟨w₁, hdelete, rfl, rfl⟩ := hok
      obtain ⟨t', hdelete', h'⟩ := h.delete hdelete
      exact ⟨t', by rw [hdelete']; rfl, h'⟩
    · cases hok
      exact ⟨t, rfl, h⟩
  | none =>
    have hnew : ∀ cell ∈ w.cells, Smart.World.eqPtr equal w.heap cell.first a = false := by
      simpa using hfind
    have hlen : w.cells.length < 63 := by
      refine hroom.resolve_left ?_
      rintro ⟨cell, hcell, heq⟩
      rw [hnew cell hcell] at heq
      cases heq
    obtain ⟨s, hins, howns, hsize, havg⟩ := h.insert_new hlawful hnew hlen
    rw [← h.heap] at hins
    simp only [Smart.World.create, hfind] at hok
    cases hok
    refine ⟨_, create_inserted halive hins, ⟨h.heap, h.pointers, h.deleted⟩, h.nextAddress,
      ⟨_, rfl, ?_, howns⟩, le_rfl, hsize, havg, ?_⟩
    · rw [List.flatten_singleton, List.map_append]
      rfl
    · rw [List.length_append, List.length_singleton]
      omega

/-- A cell is erased, and its value is deleted. -/
lemma destroy (h : Simulates n w t) (hlawful : (memTraits hash equal w.heap).Lawful)
    (hapart : Apart equal w) {a : Nat}
    (hok : w.destroy a = .ok w') :
    ∃ t', t.destroy hash equal a = .ok t' ∧ Simulates n w' t' := by
  rw [Smart.World.destroy, Except.bind_eq_ok] at hok
  obtain ⟨cell, hcell, hdelete⟩ := hok
  obtain ⟨hmem, rfl⟩ := cell_of_ok hcell
  obtain rfl := h.eq_one hmem
  obtain ⟨r, -, hnode⟩ := h.node_eq hmem
  obtain ⟨xs, ys, hsplit⟩ := List.append_of_mem hmem
  have hflat : [w.cells.map entry].flatten = xs.map entry ++ entry cell :: ys.map entry := by
    rw [List.flatten_singleton, hsplit, List.map_append, List.map_cons]
  have hplaced := CachedFn.placed_singleton (memTraits hash equal w.heap) (w.cells.map entry)
  have hadvance := HashToolbox.advance_eq h.chain.rep hplaced hflat
  obtain ⟨s, herase, hup⟩ := @HashToolbox.erase_range _ _ _ _ _ _ [] _ _ hlawful h.chain hplaced
    (hapart.distinct hash) Nat.one_pos hflat
  have hiter : eraseIter (memTraits hash equal t.heap) t.theMem (some cell.id) = .ok s := by
    have hne : HashToolbox.endIter ≠ some cell.id := (Option.some_ne_none _).symm
    rw [h.heap, eraseIter, if_pos hne]
    exact Except.bind_eq_ok.mpr ⟨_, hadvance, herase⟩
  have hgone : [entry cell].map Prod.fst = [cell.id] := rfl
  have hwithout : HashToolbox.without [cell.id] [w.cells.map entry] =
      [(w.cells.filter fun cell' => cell'.id ≠ cell.id).map entry] := by
    rw [HashToolbox.without, List.map_singleton, List.filter_map]
    refine congrArg (fun l => [l.map entry]) (List.filter_congr fun cell' _ => ?_)
    exact decide_eq_decide.mpr (not_congr List.mem_singleton)
  have hlen : (w.cells.filter fun cell' => cell'.id ≠ cell.id).length < 64 :=
    (List.length_filter_le _ _).trans_lt h.short
  rw [hgone, hwithout, h.avg, sized_singleton (by rwa [List.length_map])] at hup
  have hsize : s.mem.size = t.theMem.mem.size := by
    apply HashToolbox.eraseIter_size hiter
    rw [h.chain.rep.length_eq, h.chain.count, h.avg, List.flatten_singleton, List.length_map]
    have hshort := h.short
    rw [List.length_singleton]
    omega
  have herased : Simulates 1 { w with cells := w.cells.filter fun cell' => cell'.id ≠ cell.id }
      { t with theMem := s } :=
    ⟨⟨h.heap, h.pointers, h.deleted⟩, h.nextAddress, ⟨_, rfl, List.flatten_singleton, hup.owns⟩,
      le_rfl, hsize.trans h.size, hup.avg.trans h.avg, hlen⟩
  obtain ⟨t', hdelete', h'⟩ := herased.delete hdelete
  refine ⟨t', ?_, h'⟩
  rw [World.destroy, hnode, Except.ok_bind, hiter]
  exact hdelete'

lemma release (h : Simulates n w t) (hlawful : (memTraits hash equal w.heap).Lawful)
    (hapart : Apart equal w)
    (hok : w.release c = .ok w') : ∃ t', t.release hash equal c = .ok t' ∧ Simulates n w' t' := by
  cases c with
  | none =>
    cases hok
    exact ⟨t, rfl, h⟩
  | some a =>
    rw [Smart.World.release, Except.bind_eq_ok] at hok
    obtain ⟨cell, hcell, hok⟩ := hok
    obtain ⟨hmem, rfl⟩ := cell_of_ok hcell
    obtain ⟨r, hn, hnode⟩ := h.node_eq hmem
    have hput := h.putSecond hmem hn (cell.second - 1)
    rw [World.release, hnode, Except.ok_bind]
    dsimp only at hok ⊢
    split_ifs at hok ⊢ with hlast
    · exact hput.destroy hlawful (hapart.putSecond _ _) hok
    · cases hok
      exact ⟨_, rfl, hput⟩

lemma manage (h : Simulates n w t) {refs : Multiset Nat} (hmem : Memory equal w refs)
    (hlawful : (memTraits hash equal w.heap).Lawful) {ptr : Option Nat} (hptr : w.Valid ptr)
    (hroom : ∀ a, ptr = some a → n = 1 ∧ HasRoom equal w a)
    (hok : w.manage equal ptr = .ok (c, w')) :
    ∃ t', t.manage hash equal ptr = .ok (c, t') ∧ Simulates n w' t' := by
  cases ptr with
  | none =>
    cases hok
    exact ⟨t, rfl, h⟩
  | some a =>
    obtain ⟨rfl, hthere⟩ := hroom a rfl
    simp only [Smart.World.manage, Except.bind_eq_ok, Except.pure_eq_ok, Prod.exists,
      Prod.mk.injEq] at hok
    obtain ⟨c, w₁, hcreate, w₂, hassign, rfl, rfl⟩ := hok
    obtain ⟨t₁, hcreate', h₁⟩ := h.create hmem hlawful (hptr a rfl) hthere hcreate
    obtain ⟨t₂, hassign', h₂⟩ := h₁.assign hassign
    refine ⟨t₂, ?_, h₂⟩
    simp only [World.manage, hcreate', Except.ok_bind, hassign']
    rfl

/-! ### The pointer objects -/

variable {this other : Nat} {ptr : Option Nat} {lost : Multiset Nat} {fresh : Table}

lemma pointee (h : Simulates n w t) (hok : w.pointee this = .ok c) : t.pointee this = .ok c := by
  rw [Smart.World.pointee] at hok
  rw [World.pointee, h.pointers]
  split at hok
  · next hthis =>
    cases hok
    rw [hthis]
  · cases hok

lemma push (h : Simulates n w t) (c : Option Addr) : Simulates n (w.push c) (t.push c) := by
  refine ⟨⟨h.heap, ?_, h.deleted⟩, h.nextAddress, h.owns, h.le_one, h.size, h.avg, h.short⟩
  rw [World.push, h.pointers]
  rfl

lemma putPointee (h : Simulates n w t) (this : Nat) (pointee : Option (Option Addr)) :
    Simulates n (w.putPointee this pointee) (t.putPointee this pointee) := by
  refine ⟨⟨h.heap, ?_, h.deleted⟩, h.nextAddress, h.owns, h.le_one, h.size, h.avg, h.short⟩
  rw [World.putPointee, h.pointers]
  rfl

lemma alloc (h : Simulates n w t) (value : Ty) : Simulates n (w.alloc value) (t.alloc value) := by
  refine ⟨⟨?_, h.pointers, h.deleted⟩, ?_, h.owns, h.le_one, h.size, h.avg, h.short⟩
  · rw [World.alloc, h.heap, h.nextAddress]
    rfl
  · rw [World.alloc, h.nextAddress]
    rfl

lemma copy (h : Simulates n w t) (hok : w.copy other = .ok w') :
    ∃ t', t.copy other = .ok t' ∧ Simulates n w' t' := by
  simp only [Smart.World.copy, Except.bind_eq_ok, Except.pure_eq_ok] at hok
  obtain ⟨c, hother, w₁, hassign, rfl⟩ := hok
  obtain ⟨t₁, hassign', h₁⟩ := h.assign hassign
  refine ⟨t₁.push c, ?_, h₁.push c⟩
  rw [World.copy, h.pointee hother, Except.ok_bind, hassign']
  rfl

lemma swap (h : Simulates n w t) (hok : w.swap this other = .ok w') :
    ∃ t', t.swap this other = .ok t' ∧ Simulates n w' t' := by
  simp only [Smart.World.swap, Except.bind_eq_ok, Except.pure_eq_ok] at hok
  obtain ⟨c, hthis, c', hother, rfl⟩ := hok
  refine ⟨_, ?_, (h.putPointee this (some c')).putPointee other (some c)⟩
  rw [World.swap, h.pointee hthis, Except.ok_bind, h.pointee hother]
  rfl

/-- The cells go away with the manager, and the next one has a table without cells. -/
lemma drop (h : Simulates n w t) (dropped : List Nat) :
    ∃ s, clear (memTraits hash equal t.heap) t.theMem = .ok s ∧
      Simulates n { w with cells := [], dropped }
        { t with theMem := ⟨s.mem, emptyTable n⟩ } := by
  obtain ⟨cs, -, -, howns⟩ := h.owns
  obtain ⟨s, hclear, -⟩ := @HashToolbox.clear_eq _ _ (memTraits hash equal t.heap) _ _ howns.rep
  refine ⟨s, hclear, ⟨h.heap, h.pointers, h.deleted⟩, h.nextAddress,
    ⟨List.replicate n [], List.length_replicate, ?_, owns_emptyTable _ _⟩, h.le_one, ?_, rfl,
    Nat.zero_lt_succ _⟩
  · simp
  · exact (HashToolbox.clear_size howns hclear).trans h.size

section

variable (hequal : Equivalence fun x y => equal x y = true)
  (hhash : ∀ x y, equal x y = true → hash x = hash y)
include hequal hhash

lemma construct (h : Simulates n w t) (hcounted : Counted equal w lost) (hptr : w.Valid ptr)
    (hroom : ∀ a, ptr = some a → n = 1 ∧ HasRoom equal w a) (hok : w.construct equal ptr = .ok w') :
    ∃ t', t.construct hash equal ptr = .ok t' ∧ Simulates n w' t' := by
  simp only [Smart.World.construct, Except.bind_eq_ok, Except.pure_eq_ok, Prod.exists] at hok
  obtain ⟨c, w₁, hmanage, rfl⟩ := hok
  obtain ⟨t₁, hmanage', h₁⟩ :=
    h.manage hcounted (memTraits_lawful hequal hhash _) hptr hroom hmanage
  refine ⟨t₁.push c, ?_, h₁.push c⟩
  rw [World.construct, hmanage']
  rfl

lemma reset (h : Simulates n w t) (hcounted : Counted equal w lost) (hptr : w.Valid ptr)
    (hroom : ∀ a, ptr = some a → n = 1 ∧ HasRoom equal w a)
    (hok : w.reset equal this ptr = .ok w') :
    ∃ t', t.reset hash equal this ptr = .ok t' ∧ Simulates n w' t' := by
  simp only [Smart.World.reset, Except.bind_eq_ok, Prod.exists] at hok
  obtain ⟨tmp, hthis, c, w₁, hmanage, w₂, hassign, hrelease⟩ := hok
  obtain ⟨t₁, hmanage', h₁⟩ :=
    h.manage hcounted (memTraits_lawful hequal hhash _) hptr hroom hmanage
  obtain ⟨t₂, hassign', h₂⟩ := h₁.assign hassign
  -- the cells are distinct all along
  obtain ⟨c', w₁', hmanage₁, hmem₁, -⟩ := Memory.manage hcounted hptr
  obtain ⟨rfl, rfl⟩ : c = c' ∧ w₁ = w₁' := by
    rw [hmanage, Except.ok.injEq, Prod.mk.injEq] at hmanage₁
    exact hmanage₁
  obtain ⟨w₂', hassign₂, hmem₂, -⟩ := hmem₁.assign (c := c) (by rintro c₁ rfl; simp)
  obtain rfl : w₂ = w₂' := Except.ok.inj (hassign.symm.trans hassign₂)
  obtain ⟨t', hrelease', h'⟩ := (h₂.putPointee this (some c)).release
    (memTraits_lawful hequal hhash _) hmem₂.distinct hrelease
  refine ⟨t', ?_, h'⟩
  simp only [World.reset, h.pointee hthis, hmanage', hassign', Except.ok_bind]
  exact hrelease'

lemma destroyPointer (h : Simulates n w t) (hcounted : Counted equal w lost)
    (hok : w.destroyPointer equal this = .ok w') :
    ∃ t', t.destroyPointer hash equal (emptyTable n) this = .ok t' ∧
      Simulates n w' t' := by
  simp only [Smart.World.destroyPointer, Except.bind_eq_ok, Except.pure_eq_ok] at hok
  obtain ⟨w₁, hreset, rfl⟩ := hok
  obtain ⟨t₁, hreset', h₁⟩ :=
    h.reset hequal hhash hcounted w.valid_none (fun _ h => by cases h) hreset
  have hput := h₁.putPointee this none
  have hsame : (t₁.putPointee this none).pointers.all Option.isNone =
      (w₁.putPointee this none).pointers.all Option.isNone := by rw [hput.pointers]
  rw [World.destroyPointer, hreset', Except.ok_bind]
  by_cases hall : (w₁.putPointee this none).pointers.all Option.isNone = true
  · obtain ⟨s, hclear, hdrop⟩ := @drop _ hash equal _ _ _ hput
      ((w₁.putPointee this none).dropped ++ (w₁.putPointee this none).cells.map Cell.first)
    rw [if_pos hall]
    refine ⟨_, ?_, hdrop⟩
    dsimp only
    rw [if_pos (hsame.trans hall), hclear]
    rfl
  · rw [if_neg hall]
    refine ⟨_, ?_, hput⟩
    dsimp only
    rw [if_neg (hsame ▸ hall)]
    rfl

lemma assignPointer (h : Simulates n w t) (hcounted : Counted equal w lost)
    (hthis : w.Live this) (hother : w.Live other)
    (hok : w.assignPointer equal this other = .ok w') :
    ∃ t', t.assignPointer hash equal (emptyTable n) this other = .ok t' ∧
      Simulates n w' t' := by
  obtain ⟨c, hthis⟩ := hthis
  obtain ⟨c', hother⟩ := hother
  have hlt : this < w.pointers.length := (List.getElem?_eq_some_iff.mp hthis).1
  obtain ⟨w₁, hcopy, hcounted₁, hpointers₁, -⟩ := hcounted.copy hother
  have hthis₁ : w₁.pointers[this]? = some (some c) := by
    rw [hpointers₁, List.getElem?_append_left hlt, hthis]
  have htmp₁ : w₁.pointers[w.pointers.length]? = some (some c') := by simp [hpointers₁]
  obtain ⟨w₂, hswap, hcounted₂, -⟩ := hcounted₁.swap hthis₁ htmp₁
  simp only [Smart.World.assignPointer, hcopy, hswap, Except.ok_bind] at hok
  obtain ⟨t₁, hcopy', h₁⟩ := h.copy hcopy
  obtain ⟨t₂, hswap', h₂⟩ := h₁.swap hswap
  obtain ⟨t', hdestroy', h'⟩ := h₂.destroyPointer hequal hhash hcounted₂ hok
  refine ⟨t', ?_, h'⟩
  simp only [World.assignPointer, hcopy', h.pointers, hswap', Except.ok_bind]
  exact hdestroy'

/-- A step of the program over the list is a step over the table. -/
lemma exec (h : Simulates n w t) (hcounted : Counted equal w lost) {op : Op Ty}
    (hlegal : w.Legal op) (hroom : ∀ a, raw op = some a → n = 1 ∧ HasRoom equal w a)
    (hok : w.exec equal op = .ok w') :
    ∃ t', t.exec hash equal (emptyTable n) op = .ok t' ∧
      Simulates n w' t' := by
  cases op with
  | alloc value =>
    cases hok
    exact ⟨_, rfl, h.alloc value⟩
  | construct ptr => exact h.construct hequal hhash hcounted hlegal hroom hok
  | copy other => exact h.copy hok
  | assign this other =>
    exact h.assignPointer hequal hhash hcounted hlegal.1 hlegal.2 hok
  | swap this other => exact h.swap hok
  | reset this ptr => exact h.reset hequal hhash hcounted hlegal.2 hroom hok
  | destroy this => exact h.destroyPointer hequal hhash hcounted hok

end

end Simulates

end OverTable

end Utilmm.Smart
