import Utilmm.Smart.OverTable.Simulation

/-!
# Where the hash map can be told from the list

A table without a bucket cannot take a value, and a table with one bucket takes 63. The next one
makes it grow, and the iterator which comes back is not the one of the new cell.
-/

namespace Utilmm.Smart

namespace World

variable {Ty : Type} {equal : Ty → Ty → Bool} {w w' : World Ty}

lemma pointers_of_delete {a : Nat} (h : w.delete a = .ok w') : w'.pointers = w.pointers := by
  rw [delete] at h
  split_ifs at h
  cases h
  rfl

lemma pointers_of_assign {c : Option Nat} (h : w.assign c = .ok w') :
    w'.pointers = w.pointers := by
  cases c with
  | none =>
    cases h
    rfl
  | some c =>
    simp only [assign, Except.bind_eq_ok, Except.pure_eq_ok] at h
    obtain ⟨cell, -, rfl⟩ := h
    rfl

lemma pointers_of_release {c : Option Nat} (h : w.release c = .ok w') :
    w'.pointers = w.pointers := by
  cases c with
  | none =>
    cases h
    rfl
  | some c =>
    simp only [release, Except.bind_eq_ok] at h
    obtain ⟨cell, -, h⟩ := h
    split_ifs at h
    · rw [destroy, Except.bind_eq_ok] at h
      obtain ⟨cell', -, h⟩ := h
      rw [pointers_of_delete h]
      rfl
    · cases h
      rfl

end World

namespace OverTable

open HashToolbox (Table Traits insertUnique)

namespace World

variable {Ty : Type} {hash : Ty → Nat} {equal : Ty → Ty → Bool} {t t' : World Ty}
  {c : Option Addr}

lemma pointers_of_delete {a : Nat} (h : t.delete a = .ok t') : t'.pointers = t.pointers := by
  rw [delete] at h
  split_ifs at h
  cases h
  rfl

lemma pointers_of_assign (h : t.assign c = .ok t') : t'.pointers = t.pointers := by
  cases c with
  | none =>
    cases h
    rfl
  | some a =>
    simp only [assign, Except.bind_eq_ok, Except.pure_eq_ok] at h
    obtain ⟨n, -, rfl⟩ := h
    rfl

lemma pointers_of_release (h : t.release hash equal c = .ok t') :
    t'.pointers = t.pointers := by
  cases c with
  | none =>
    cases h
    rfl
  | some a =>
    simp only [release, Except.bind_eq_ok] at h
    obtain ⟨n, -, h⟩ := h
    split_ifs at h
    · simp only [destroy, Except.bind_eq_ok] at h
      obtain ⟨n', -, theMem, -, h⟩ := h
      rw [pointers_of_delete h]
      rfl
    · cases h
      rfl

end World

/-! ### A table without room -/

namespace Simulates

variable {Ty : Type} {hash : Ty → Nat} {equal : Ty → Ty → Bool} {n : Nat} {w w' : Smart.World Ty}
  {t : World Ty} {c : Option Addr} {lost : Multiset Nat} {fresh : Table}

/-- There is no bucket to look into. -/
lemma insert_zero (h : Simulates 0 w t) {tr : Traits Nat (Nat × Nat)} (v : Nat × Nat) :
    insertUnique tr t.theMem v = .error .divByZero := by
  obtain ⟨cs, hlen, -, howns⟩ := h.owns
  have hbucket : t.theMem.table.bucket.length = 0 := howns.rep.length_eq.trans hlen
  rw [insertUnique, HashToolbox.findNode, hbucket]
  rfl

/-- The memory is a cache of the counters. -/
lemma caches (hash : Ty → Nat) (h : Simulates 1 w t) {refs : Multiset Nat}
    (hmem : Memory equal w refs) :
    CachedFn.Caches (memTraits hash equal w.heap).hash (Smart.World.eqPtr equal w.heap)
      (fun a => (w.cells.find? fun cell => cell.first = a).elim 0 Cell.second) t.theMem
      (w.cells.map entry) (w.cells.map Cell.first) where
  owns := h.chain
  avg := h.avg
  distinct := Apart.distinct hash hmem.distinct
  keys := List.map_map
  answers := by
    intro x hx
    obtain ⟨cell, hcell, rfl⟩ := List.mem_map.mp hx
    have hfirst : (w.cells.map Cell.first).Nodup := by
      refine List.pairwise_map.mpr (hmem.distinct.imp fun {cell cell'} hfalse heq => ?_)
      rw [heq, Smart.World.eqPtr_self] at hfalse
      cases hfalse
    show cell.second = (w.cells.find? fun cell' => cell'.first = cell.first).elim 0 Cell.second
    rw [List.find?_key hfirst hcell]
    rfl

/-- The 64th value comes with an iterator which is not the one of its cell. -/
lemma insert_full (h : Simulates 1 w t) {refs : Multiset Nat} (hmem : Memory equal w refs)
    (hlawful : (memTraits hash equal w.heap).Lawful) {a : Nat}
    (hnew : ∀ cell ∈ w.cells, Smart.World.eqPtr equal w.heap cell.first a = false)
    (hfull : w.cells.length = 63) :
    ∃ s it, insertUnique (memTraits hash equal w.heap) t.theMem (a, 0) = .ok (s, .ok it, true) ∧
      it ≠ some w.nextCell := by
  have hany : (w.cells.map Cell.first).any (Smart.World.eqPtr equal w.heap a) = false := by
    rw [List.any_map, List.any_eq_false]
    exact fun cell hcell => Bool.eq_false_iff.mp
      (hlawful.symm_false (k := cell.first) (hnew cell hcell))
  obtain ⟨s, it, hins, hit⟩ :=
    (h.caches hash hmem).insert_full hlawful hany (by rw [List.length_map, hfull]) 0
  refine ⟨s, it, hins, ?_⟩
  rintro rfl
  rcases hit with hnone | ⟨y, hy, r, hsome, -⟩
  · cases hnone
  · obtain ⟨cell, hcell, rfl⟩ := List.mem_map.mp hy
    exact (hmem.lt cell hcell).ne (Option.some.inj hsome).symm

/-- Without room, the iterator is not the one of the cell, if there is one at all. -/
lemma manage_differs (h : Simulates n w t) {refs : Multiset Nat} (hmem : Memory equal w refs)
    (hlawful : (memTraits hash equal w.heap).Lawful) {a : Nat} (ha : w.heap a ≠ none)
    (hroom : ¬ (n = 1 ∧ HasRoom equal w a)) {d : Option Addr} {t' : World Ty}
    (hok : w.manage equal (some a) = .ok (c, w'))
    (hok' : t.manage hash equal (some a) = .ok (d, t')) :
    d ≠ c ∧ w'.pointers = w.pointers ∧ t'.pointers = t.pointers := by
  have halive : t.heap a ≠ none := by rwa [h.heap]
  simp only [Smart.World.manage, Except.bind_eq_ok, Except.pure_eq_ok, Prod.exists,
    Prod.mk.injEq] at hok
  obtain ⟨c, w₁, hcreate, w₂, hassign, rfl, rfl⟩ := hok
  simp only [World.manage, Except.bind_eq_ok, Except.pure_eq_ok, Prod.exists,
    Prod.mk.injEq] at hok'
  obtain ⟨d, t₁, hcreate', t₂, hassign', rfl, rfl⟩ := hok'
  rw [Smart.World.pointers_of_assign hassign, World.pointers_of_assign hassign']
  obtain rfl | rfl : n = 0 ∨ n = 1 := by
    have hle := h.le_one
    omega
  · rw [World.create, if_neg (by simpa using halive), h.insert_zero] at hcreate'
    cases hcreate'
  · rw [HasRoom, not_and, not_or, not_exists] at hroom
    obtain ⟨hnone, hlen⟩ := hroom rfl
    have hnew : ∀ cell ∈ w.cells, Smart.World.eqPtr equal w.heap cell.first a = false :=
      fun cell hcell => Bool.eq_false_iff.mpr fun htrue => hnone cell ⟨hcell, htrue⟩
    have hfind : (w.cells.find? fun cell => Smart.World.eqPtr equal w.heap cell.first a) = none :=
      by simpa using hnew
    have hshort := h.short
    obtain ⟨s, it, hins, hne⟩ := h.insert_full hmem hlawful hnew (by omega)
    rw [← h.heap] at hins
    rw [create_inserted halive hins] at hcreate'
    rw [Smart.World.create, hfind] at hcreate
    cases hcreate'
    cases hcreate
    exact ⟨hne, rfl, rfl⟩

/-- The program sees a difference where there is no room for a value. -/
lemma exec_differs (hequal : Equivalence fun x y => equal x y = true)
    (hhash : ∀ x y, equal x y = true → hash x = hash y) (h : Simulates n w t)
    (hcounted : Counted equal w lost) {op : Op Ty} (hlegal : w.Legal op)
    (hroom : ¬ ∀ a, raw op = some a → n = 1 ∧ HasRoom equal w a) {t' : World Ty}
    (hok : w.exec equal op = .ok w') (hok' : t.exec hash equal fresh op = .ok t') :
    t'.pointers ≠ w'.pointers := by
  rw [not_forall] at hroom
  obtain ⟨a, hroom⟩ := hroom
  rw [Classical.not_imp] at hroom
  obtain ⟨hraw, hroom⟩ := hroom
  have hlawful := memTraits_lawful hequal hhash w.heap
  cases op with
  | alloc | copy | assign | swap | destroy => cases hraw
  | construct ptr =>
    obtain rfl : ptr = some a := hraw
    simp only [Smart.World.exec, Smart.World.construct, Except.bind_eq_ok, Except.pure_eq_ok,
      Prod.exists] at hok
    obtain ⟨c, w₁, hmanage, rfl⟩ := hok
    simp only [World.exec, World.construct, Except.bind_eq_ok, Except.pure_eq_ok,
      Prod.exists] at hok'
    obtain ⟨d, t₁, hmanage', rfl⟩ := hok'
    obtain ⟨hne, hpointers, hpointers'⟩ :=
      h.manage_differs hcounted hlawful (hlegal a rfl) hroom hmanage hmanage'
    rw [World.push, Smart.World.push, hpointers, hpointers', h.pointers]
    simpa using hne
  | reset this ptr =>
    obtain rfl : ptr = some a := hraw
    obtain ⟨⟨tmp, hthis⟩, hptr⟩ := hlegal
    have hlt : this < w.pointers.length := (List.getElem?_eq_some_iff.mp hthis).1
    simp only [Smart.World.exec, Smart.World.reset, Except.bind_eq_ok, Prod.exists] at hok
    obtain ⟨_, -, c, w₁, hmanage, w₂, hassign, hrelease⟩ := hok
    simp only [World.exec, World.reset, Except.bind_eq_ok, Prod.exists] at hok'
    obtain ⟨_, -, d, t₁, hmanage', t₂, hassign', hrelease'⟩ := hok'
    obtain ⟨hne, hpointers, hpointers'⟩ :=
      h.manage_differs hcounted hlawful (hptr a rfl) hroom hmanage hmanage'
    rw [Smart.World.pointers_of_release hrelease, World.pointers_of_release hrelease',
      World.putPointee, Smart.World.putPointee, Smart.World.pointers_of_assign hassign,
      World.pointers_of_assign hassign', hpointers, hpointers', h.pointers]
    intro heq
    have hset := congrArg (fun ps => ps[this]?) heq
    simp only [List.getElem?_set_self hlt, Option.some.injEq] at hset
    exact hne hset

end Simulates

/-! ### Runs -/

variable {Ty : Type} {hash : Ty → Nat} {equal : Ty → Ty → Bool}

/-- The pointers of one type over a hash map, of which each manager has a `fresh` one. -/
def machine (hash : Ty → Nat) (equal : Ty → Ty → Bool) (fresh : Table) :
    Machine (World Ty) (Op Ty) Fault where
  legal _ _ := True
  step := World.exec hash equal fresh

/-- The pointers over the list of their cells, with the ones over the hash map beside them. -/
def both (hash : Ty → Nat) (equal : Ty → Ty → Bool) (fresh : Table) :
    Machine (Smart.World Ty × World Ty) (Op Ty) (Smart.Fault ⊕ Fault) :=
  (Smart.machine equal).beside (machine hash equal fresh)

/-- The program sees no difference in all states of a run if and only if there is room for all the
values which it passes to the manager. -/
lemma agrees_iff_meets (hequal : Equivalence fun x y => equal x y = true)
    (hhash : ∀ x y, equal x y = true → hash x = hash y) {n : Nat} (hn : n ≤ 1)
    {ops : List (Op Ty)} (hlegal : (Smart.machine equal).Legal Smart.World.empty ops) :
    (both hash equal (emptyTable n)).Holds (fun p => Agree p.1 p.2)
        (Smart.World.empty, World.empty (emptyTable n)) ops ↔
      (Smart.machine equal).Meets (fun w op => ∀ a, raw op = some a → n = 1 ∧ HasRoom equal w a)
        Smart.World.empty ops := by
  have hiff : (both hash equal (emptyTable n)).Holds
        (fun p => Agree p.1 p.2)
        (Smart.World.empty, World.empty (emptyTable n)) ops ↔
      (both hash equal (emptyTable n)).Meets
        (fun p op => ∀ a, raw op = some a → n = 1 ∧ HasRoom equal p.1 a)
        (Smart.World.empty, World.empty (emptyTable n)) ops := by
    apply Machine.holds_iff_meets
      (I := fun p => Simulates n p.1 p.2 ∧ ∃ lost, Counted equal p.1 lost)
    · exact fun p h => h.1.toAgree
    · rintro ⟨w, t⟩ op ⟨h, lost, hcounted⟩ hop hroom
      obtain ⟨lost', w', hok, hcounted', -⟩ := hcounted.exec hop
      obtain ⟨t', hok', h'⟩ := h.exec hequal hhash hcounted hop hroom hok
      exact ⟨(w', t'), Machine.beside_step.mpr ⟨hok, hok'⟩, h', lost', hcounted'⟩
    · rintro ⟨w, t⟩ op ⟨w', t'⟩ ⟨h, lost, hcounted⟩ hop hroom hok hagree
      obtain ⟨hok, hok'⟩ := Machine.beside_step.mp hok
      exact h.exec_differs hequal hhash hcounted hop hroom hok hok' hagree.pointers
    · refine ⟨⟨⟨rfl, rfl, rfl⟩, rfl, ⟨List.replicate n [], List.length_replicate, ?_,
        owns_emptyTable ⟨Memory.empty, Table.new⟩ _⟩, hn, rfl, rfl, Nat.zero_lt_succ _⟩, 0, .empty⟩
      simp [Smart.World.empty]
    · exact hlegal.beside
  refine ⟨fun h => h.meets_beside_iff.mp (hiff.mp h), fun hmeets => hiff.mpr ?_⟩
  exact hmeets.beside (N := machine hash equal (emptyTable n)) (World.empty (emptyTable n))

/-- A program can pass no raw pointer but null to a manager with the table which its constructor
makes. If the table had a bucket, the hash map could not be told from the list of its cells exactly
as long as each value which is passed is in a cell already, or there are less than 63 cells. -/
theorem agrees_iff (hequal : Equivalence fun x y => equal x y = true)
    (hhash : ∀ x y, equal x y = true → hash x = hash y) (ops : List (Op Ty))
    (hlegal : (Smart.machine equal).Legal Smart.World.empty ops) :
    ((both hash equal Table.new).Holds (fun p => Agree p.1 p.2)
        (Smart.World.empty, World.empty Table.new) ops ↔ ∀ op ∈ ops, raw op = none) ∧
      ((both hash equal (emptyTable 1)).Holds (fun p => Agree p.1 p.2)
          (Smart.World.empty, World.empty (emptyTable 1)) ops ↔
        (Smart.machine equal).Meets (fun w op => ∀ a, raw op = some a → HasRoom equal w a)
          Smart.World.empty ops) := by
  constructor
  · have hiff := agrees_iff_meets hequal hhash (Nat.zero_le 1) hlegal
    have hcond : (fun (w : Smart.World Ty) (op : Op Ty) =>
        ∀ a, raw op = some a → 0 = 1 ∧ HasRoom equal w a) = fun _ op => raw op = none := by
      funext w op
      simp [Option.eq_none_iff_forall_ne_some]
    rw [hcond] at hiff
    refine ⟨fun h => ?_, fun h => hiff.mpr (Machine.Meets.of_forall h)⟩
    exact h.forall_of_meets ((hiff.mp h).beside (N := machine hash equal Table.new) _)
  · have hiff := agrees_iff_meets hequal hhash le_rfl hlegal
    simpa using hiff

/-- The table of the constructor divides by zero. With a bucket, two pointer objects get the cell of
one value. -/
theorem agrees_iff_twice :
    ¬ (both id (· == · : Nat → Nat → Bool) Table.new).Holds (fun p => Agree p.1 p.2)
        (Smart.World.empty, World.empty Table.new)
        [.alloc 5, .construct (some 0), .alloc 5, .construct (some 1)] ∧
      (both id (· == · : Nat → Nat → Bool) (emptyTable 1)).Holds (fun p => Agree p.1 p.2)
        (Smart.World.empty, World.empty (emptyTable 1))
        [.alloc 5, .construct (some 0), .alloc 5, .construct (some 1)] := by
  have hvalid : ∀ {w : Smart.World Nat} {a : Nat}, w.heap a = some 5 → w.Valid (some a) := by
    rintro w a ha _ ⟨rfl⟩
    rw [ha]
    exact Option.some_ne_none 5
  have hequal : Equivalence fun x y : Nat => (x == y) = true := by simpa using eq_equivalence
  obtain ⟨hnew, hone⟩ := @agrees_iff Nat id (· == ·) hequal (fun _ _ h => beq_iff_eq.mp h)
    [.alloc 5, .construct (some 0), .alloc 5, .construct (some 1)]
    (.cons trivial rfl (.cons (hvalid rfl) rfl (.cons trivial rfl
      (.cons (hvalid rfl) rfl trivial))))
  refine ⟨fun h => ?_, hone.mpr ?_⟩
  · exact absurd (hnew.mp h (.construct (some 0)) (by simp)) (by simp [raw])
  · refine .cons ?_ rfl (.cons ?_ rfl (.cons ?_ rfl (.cons ?_ rfl trivial)))
    · rintro a ⟨⟩
    · exact fun a _ => .inr (Nat.zero_lt_succ _)
    · rintro a ⟨⟩
    · exact fun a _ => .inr (Nat.succ_lt_succ (Nat.zero_lt_succ _))

end OverTable

end Utilmm.Smart
