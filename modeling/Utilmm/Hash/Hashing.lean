import Utilmm.Hash.Objects

/-!
# Remainders by the number of buckets

The hash of a key is reduced modulo the number of buckets. The default constructor makes no bucket,
and only `clear` makes the first one, so a table must have been cleared, or got its buckets from a
table which was, before a key may be hashed.
-/

namespace Utilmm

namespace HashToolbox

variable {K V : Type} {tr : Traits K V}

/-- A computation which takes no remainder by zero. -/
def NoDiv {α : Type} (x : Except Fault α) : Prop := x ≠ .error .divByZero

namespace NoDiv

variable {α β : Type}

lemma ok (a : α) : NoDiv (.ok a : Except Fault α) := fun h => by cases h

lemma bind {x : Except Fault α} {f : α → Except Fault β} (hx : NoDiv x)
    (hf : ∀ a, x = .ok a → NoDiv (f a)) : NoDiv (x >>= f) := by
  cases x with
  | error e => exact fun h => hx (by cases h; rfl)
  | ok a => exact hf a rfl

end NoDiv

lemma deref_noDiv (mem : Memory V) (p : Option Addr) : NoDiv (deref mem p) := by
  cases p with
  | none => exact fun h => by cases h
  | some a =>
    rw [deref]
    cases mem.node a with
    | none => exact fun h => by cases h
    | some n => exact .ok n

lemma load_noDiv (s : State V) (l : Link) : NoDiv (s.load l) := by
  cases l with
  | slot version i =>
    rw [State.load]
    by_cases hversion : version = s.table.version
    · rw [if_pos hversion]
      cases s.table.bucket[i]? with
      | none => exact fun h => by cases h
      | some p => exact .ok p
    · rw [if_neg hversion]
      exact fun h => by cases h
  | next a => exact (deref_noDiv _ _).bind fun _ _ => .ok _

lemma store_noDiv (s : State V) (l : Link) (p : Option Addr) : NoDiv (s.store l p) := by
  cases l with
  | slot version i =>
    intro h
    rw [State.store] at h
    split_ifs at h <;> cases h
  | next a => exact (deref_noDiv _ _).bind fun _ _ => .ok _

lemma hashKey_noDiv {key : K} {mod : Nat} (h : 0 < mod) : NoDiv (hashKey tr key mod) := by
  rw [hashKey, if_neg h.ne']
  exact .ok _

lemma findLoop_noDiv (s : State V) (key : K) (fuel : Nat) (l : Link) :
    NoDiv (findLoop tr s key fuel l) := by
  induction fuel generalizing l with
  | zero => exact fun h => by cases h
  | succ fuel ih =>
    refine (load_noDiv s l).bind fun p _ => ?_
    cases p with
    | none => exact .ok _
    | some a =>
      refine (deref_noDiv _ _).bind fun n _ => ?_
      split_ifs
      · exact .ok _
      · exact ih _

lemma findNode_noDiv {s : State V} (h : 0 < s.table.bucket.length) (key : K) :
    NoDiv (findNode tr s key) :=
  (hashKey_noDiv h).bind fun _ _ => findLoop_noDiv _ _ _ _

lemma lastOfRun_noDiv (mem : Memory V) (first : V) (fuel : Nat) (n : Addr) :
    NoDiv (lastOfRun tr mem first fuel n) := by
  induction fuel generalizing n with
  | zero => exact fun h => by cases h
  | succ fuel ih =>
    refine (deref_noDiv _ _).bind fun node _ => ?_
    cases node.next with
    | none => exact .ok _
    | some m =>
      refine (deref_noDiv _ _).bind fun next _ => ?_
      split_ifs
      · exact ih m
      · exact .ok _

lemma moveRun_noDiv {n : Nat} (hn : 0 < n) (mem : Memory V) (tmp : List (Option Addr))
    (beg : Addr) : NoDiv (moveRun tr n mem tmp beg) := by
  refine (deref_noDiv _ _).bind fun first _ => ?_
  refine (lastOfRun_noDiv _ _ _ _).bind fun m _ => ?_
  refine (deref_noDiv _ _).bind fun last _ => ?_
  refine (hashKey_noDiv hn).bind fun hval _ => ?_
  cases tmp[hval]? with
  | none => exact fun h => by cases h
  | some head => exact .ok _

lemma moveBucket_noDiv {n : Nat} (hn : 0 < n) (fuel : Nat)
    (state : Memory V × List (Option Addr)) (p : Option Addr) :
    NoDiv (moveBucket tr n fuel state p) := by
  induction fuel generalizing state p with
  | zero => exact fun h => by cases h
  | succ fuel ih =>
    cases p with
    | none => exact .ok _
    | some beg => exact (moveRun_noDiv hn _ _ _).bind fun _ _ => ih _ _

lemma rehash_noDiv {n : Nat} (hn : 0 < n) (mem : Memory V) (bucket : List (Option Addr)) :
    NoDiv (rehash tr n mem bucket) := by
  rw [rehash]
  generalize (mem, List.replicate n (none : Option Addr)) = state
  induction bucket generalizing state with
  | nil => exact .ok _
  | cons p bucket ih =>
    rw [List.foldlM_cons]
    exact (moveBucket_noDiv hn _ _ _).bind fun _ _ => ih _

lemma resize_noDiv (s : State V) (size : Nat) : NoDiv (resize tr s size) := by
  rw [resize]
  dsimp only
  split_ifs
  · exact .ok _
  · exact (rehash_noDiv (Nat.add_pos_left Nat.one_pos _) _ _).bind fun _ _ => .ok _
  · exact .ok _

lemma insert_noDiv (s : State V) (l : Link) (v : V) : NoDiv (insert tr s l v) := by
  refine (load_noDiv _ _).bind fun head _ => ?_
  refine (store_noDiv _ _ _).bind fun s₁ _ => ?_
  exact (resize_noDiv _ _).bind fun _ _ => .ok _

lemma insertMultiple_noDiv {s : State V} (h : 0 < s.table.bucket.length) (v : V) :
    NoDiv (insertMultiple tr s v) := (findNode_noDiv h _).bind fun _ _ => insert_noDiv _ _ _

lemma insertUnique_noDiv {s : State V} (h : 0 < s.table.bucket.length) (v : V) :
    NoDiv (insertUnique tr s v) := by
  refine (findNode_noDiv h _).bind fun l _ => ?_
  refine (load_noDiv _ _).bind fun p _ => ?_
  cases p with
  | some a => exact .ok _
  | none => exact (insert_noDiv _ _ _).bind fun _ _ => .ok _

lemma skipEmpty_noDiv (s : State V) (fuel : Nat) (l : Link) (hval : Nat) :
    NoDiv (skipEmpty s fuel l hval) := by
  induction fuel generalizing l hval with
  | zero => exact fun h => by cases h
  | succ fuel ih =>
    refine (load_noDiv s l).bind fun p _ => ?_
    cases p with
    | some a => exact .ok _
    | none =>
      dsimp only
      split_ifs
      · exact ih _ _
      · exact .ok _

lemma eraseLoop_noDiv (last : Option Addr) (fuel : Nat) (s : State V) (l : Link)
    (hval removed : Nat) : NoDiv (eraseLoop last fuel s l hval removed) := by
  induction fuel generalizing s l hval removed with
  | zero => exact fun h => by cases h
  | succ fuel ih =>
    refine (load_noDiv s l).bind fun p _ => ?_
    split_ifs
    · exact .ok _
    · refine (deref_noDiv _ _).bind fun n _ => ?_
      refine (store_noDiv _ _ _).bind fun s₁ _ => ?_
      exact (skipEmpty_noDiv _ _ _ _).bind fun _ _ => ih _ _ _ _

lemma erase_noDiv {s : State V} (h : 0 < s.table.bucket.length) (first last : Option Addr) :
    NoDiv (erase tr s first last) := by
  rw [erase]
  split_ifs
  · exact .ok _
  · refine (deref_noDiv _ _).bind fun n _ => ?_
    refine (hashKey_noDiv h).bind fun hval _ => ?_
    refine (findNode_noDiv h _).bind fun l _ => ?_
    exact (eraseLoop_noDiv _ _ _ _ _ _).bind fun _ _ => resize_noDiv _ _

lemma skipBuckets_noDiv (s : State V) (fuel : Nat) (p : Option Addr) (pos : Nat) :
    NoDiv (skipBuckets s fuel p pos) := by
  induction fuel generalizing p pos with
  | zero => exact fun h => by cases h
  | succ fuel ih =>
    cases p with
    | some a => exact .ok _
    | none =>
      rw [skipBuckets]
      cases s.table.bucket[pos]? with
      | none => exact .ok _
      | some q => exact ih _ _

lemma advanceLoop_noDiv (s : State V) (delta : Nat) (p : Option Addr) (pos : Nat) :
    NoDiv (advanceLoop s delta p pos) := by
  induction delta generalizing p pos with
  | zero => cases p <;> exact .ok _
  | succ delta ih =>
    cases p with
    | none => exact .ok _
    | some a =>
      refine (deref_noDiv _ _).bind fun n _ => ?_
      exact (skipBuckets_noDiv _ _ _ _).bind fun _ _ => ih _ _

lemma advance_noDiv {s : State V} (h : 0 < s.table.bucket.length) (p : Option Addr)
    (delta : Nat) : NoDiv (advance tr s p delta) := by
  refine (deref_noDiv _ _).bind fun n _ => ?_
  exact (hashKey_noDiv h).bind fun _ _ => advanceLoop_noDiv _ _ _ _

lemma equalLoop_noDiv {s : State V} (h : 0 < s.table.bucket.length) (key : K) (fuel : Nat)
    (p : Option Addr) : NoDiv (equalLoop tr s key fuel p) := by
  induction fuel generalizing p with
  | zero => exact fun h => by cases h
  | succ fuel ih =>
    cases p with
    | none => exact .ok _
    | some a =>
      refine (deref_noDiv _ _).bind fun n _ => ?_
      split_ifs
      · exact (advance_noDiv h _ _).bind fun _ _ => ih _
      · exact .ok _

lemma equalRange_noDiv {s : State V} (h : 0 < s.table.bucket.length) (key : K) :
    NoDiv (equalRange tr s key) := by
  refine (findNode_noDiv h _).bind fun l _ => ?_
  refine (load_noDiv _ _).bind fun start _ => ?_
  exact (equalLoop_noDiv h _ _ _).bind fun _ _ => .ok _

lemma find_noDiv {s : State V} (h : 0 < s.table.bucket.length) (key : K) :
    NoDiv (find tr s key) := (equalRange_noDiv h key).bind fun _ _ => .ok _

lemma eraseIter_noDiv {s : State V} (h : 0 < s.table.bucket.length) (it : Option Addr) :
    NoDiv (eraseIter tr s it) := by
  rw [eraseIter]
  split_ifs
  · exact (advance_noDiv h _ _).bind fun _ _ => erase_noDiv h _ _
  · exact .ok _

lemma eraseKey_noDiv {s : State V} (h : 0 < s.table.bucket.length) (key : K) :
    NoDiv (eraseKey tr s key) := (find_noDiv h key).bind fun _ _ => eraseIter_noDiv h _

lemma clearBucket_noDiv (fuel : Nat) (mem : Memory V) (p : Option Addr) :
    NoDiv (clearBucket fuel mem p) := by
  induction fuel generalizing mem p with
  | zero => exact fun h => by cases h
  | succ fuel ih =>
    cases p with
    | none => exact .ok _
    | some a => exact (deref_noDiv _ _).bind fun _ _ => ih _ _

lemma clear_noDiv (s : State V) : NoDiv (clear tr s) := by
  refine NoDiv.bind ?_ fun _ _ => resize_noDiv _ _
  generalize s.mem = mem
  induction s.table.bucket generalizing mem with
  | nil => exact .ok _
  | cons p bucket ih =>
    rw [List.foldlM_cons]
    exact (clearBucket_noDiv _ _ _).bind fun _ _ => ih _

lemma copyChain_noDiv (fuel : Nat) (s : State V) (p : Option Addr) (l : Link) :
    NoDiv (copyChain fuel s p l) := by
  induction fuel generalizing s p l with
  | zero => exact fun h => by cases h
  | succ fuel ih =>
    cases p with
    | none => exact .ok _
    | some a =>
      refine (deref_noDiv _ _).bind fun n _ => ?_
      exact (store_noDiv _ _ _).bind fun _ _ => ih _ _ _

lemma copy_noDiv (mem : Memory V) (other : Table) : NoDiv (copy mem other) := by
  rw [copy]
  generalize State.mk mem _ = s
  generalize 0 = j
  induction other.bucket generalizing s j with
  | nil => exact .ok _
  | cons p bucket ih => exact (copyChain_noDiv _ _ _ _).bind fun _ _ => ih _ _

lemma object_noDiv (w : World V) (i : Nat) : NoDiv (w.object i) := by
  rw [World.object]
  cases w.objects[i]? with
  | none => exact fun h => by cases h
  | some t => exact .ok _

lemma copyObject_noDiv (w : World V) (j : Nat) : NoDiv (w.copyObject j) :=
  (object_noDiv _ _).bind fun _ _ => (copy_noDiv _ _).bind fun _ _ => .ok _

lemma swapObjects_noDiv (w : World V) (i j : Nat) : NoDiv (w.swapObjects i j) :=
  (object_noDiv _ _).bind fun _ _ => (object_noDiv _ _).bind fun _ _ => .ok _

lemma assignObject_noDiv (w : World V) (i j : Nat) : NoDiv (w.assignObject tr i j) := by
  refine (object_noDiv _ _).bind fun _ _ => (copyObject_noDiv _ _).bind fun w₁ _ => ?_
  refine (swapObjects_noDiv _ _ _).bind fun w₂ _ => (object_noDiv _ _).bind fun _ _ => ?_
  exact (clear_noDiv _).bind fun _ _ => .ok _

/-! ### Operations which hash -/

/-- The table in which an operation hashes a key, if it does. -/
def Op.hashes (mem : Memory V) : Op K V → Option Nat
  | .insertUnique i _ => some i
  | .insertMultiple i _ => some i
  | .find i _ => some i
  | .equalRange i _ => some i
  | .eraseKey i _ => some i
  | .eraseRange i first last =>
    if first ≠ last ∧ (first.bind mem.node).isSome then some i else none
  | .eraseIter i it => if (it.bind mem.node).isSome then some i else none
  | _ => none

lemma deref_eq_ok_iff {mem : Memory V} {p : Option Addr} :
    (∃ n, deref mem p = .ok n) ↔ (p.bind mem.node).isSome := by
  cases p with
  | none => simp [deref]
  | some a => cases hn : mem.node a <;> simp [deref, hn]

lemma bind_ok_divByZero_iff {α β : Type} {x : Except Fault α} {f : α → β} :
    (x >>= fun a => .ok (f a)) = .error .divByZero ↔ x = .error .divByZero := by
  cases x with
  | error e =>
    constructor
    · intro h
      cases h
      rfl
    · intro h
      cases h
      rfl
  | ok a => exact iff_of_false (fun h => by cases h) fun h => by cases h

lemma findNode_divByZero {s : State V} (h : s.table.bucket = []) (key : K) :
    findNode tr s key = .error .divByZero := by
  rw [findNode, h, List.length_nil, hashKey, if_pos rfl]
  rfl

lemma equalRange_divByZero {s : State V} (h : s.table.bucket = []) (key : K) :
    equalRange tr s key = .error .divByZero := by
  rw [equalRange, findNode_divByZero h]
  rfl

lemma erase_divByZero_iff {s : State V} (h : s.table.bucket = []) (first last : Option Addr) :
    erase tr s first last = .error .divByZero ↔
      first ≠ last ∧ (first.bind s.mem.node).isSome := by
  rw [erase]
  by_cases hne : first = last
  · rw [if_pos hne]
    exact iff_of_false (fun h => by cases h) fun h => h.1 hne
  · rw [if_neg hne, ← deref_eq_ok_iff]
    cases hderef : deref s.mem first with
    | error e =>
      apply iff_of_false
      · intro herror
        cases herror
        exact deref_noDiv s.mem first hderef
      · rintro ⟨-, n, hn⟩
        cases hn
    | ok n =>
      refine iff_of_true ?_ ⟨hne, n, rfl⟩
      rw [h, List.length_nil]
      rfl

lemma eraseIter_divByZero_iff {s : State V} (h : s.table.bucket = []) (it : Option Addr) :
    eraseIter tr s it = .error .divByZero ↔ (it.bind s.mem.node).isSome := by
  rw [eraseIter, ← deref_eq_ok_iff]
  by_cases hend : endIter ≠ it
  · rw [if_pos hend, advance]
    cases hderef : deref s.mem it with
    | error e =>
      apply iff_of_false
      · intro herror
        cases herror
        exact deref_noDiv s.mem it hderef
      · rintro ⟨n, hn⟩
        cases hn
    | ok n =>
      refine iff_of_true ?_ ⟨n, rfl⟩
      rw [h, List.length_nil]
      rfl
  · rw [if_neg hend, ← not_not.mp hend]
    apply iff_of_false
    · intro herror
      cases herror
    · rintro ⟨n, hn⟩
      cases hn

/-! ### Runs -/

/-- An operation which hashes in the table `i` if `P` holds takes a remainder by zero just when the
table has no bucket. -/
lemma Run.divByZero_iff {ops : List (Op K V)} {w : World V} (h : Run tr ops w) {i : Nat}
    {α : Type} {f : State V → Except Fault α} {P : Prop}
    (hpos : ∀ t : Table, 0 < t.bucket.length → NoDiv (f ⟨w.mem, t⟩))
    (hzero : ∀ t : Table, t.bucket = [] → (f ⟨w.mem, t⟩ = .error .divByZero ↔ P)) :
    (w.object i >>= f) = .error .divByZero ↔ P ∧ (primed ops)[i]? = some false := by
  rcases h.primed_object i with ⟨t, ht, hprimed⟩ | ⟨hnone, hprimed⟩
  · rw [ht, hprimed]
    change f ⟨w.mem, t⟩ = _ ↔ _
    by_cases hlen : 0 < t.bucket.length
    · refine iff_of_false (hpos t hlen) fun hp => ?_
      rw [decide_eq_true hlen] at hp
      cases hp.2
    · rw [hzero t (List.length_eq_zero_iff.mp (Nat.eq_zero_of_not_pos hlen)),
        decide_eq_false hlen]
      exact (and_iff_left rfl).symm
  · rw [hnone, hprimed]
    exact iff_of_false (fun h => by cases h) fun hp => by cases hp.2

/-- An operation after a run takes a remainder by zero if and only if it hashes in a table which has
no bucket. -/
lemma Run.exec_divByZero_iff {ops : List (Op K V)} {w : World V} (h : Run tr ops w)
    (op : Op K V) : w.exec tr op = .error .divByZero ↔
      ∃ i, op.hashes w.mem = some i ∧ (primed ops)[i]? = some false := by
  have hsome : ∀ i : Nat, (∃ j : Nat, some i = some j ∧ (primed ops)[j]? = some false) ↔
      True ∧ (primed ops)[i]? = some false := by
    intro i
    simp
  have hif : ∀ (P : Prop) [Decidable P] (i : Nat),
      (∃ j : Nat, (if P then some i else none) = some j ∧ (primed ops)[j]? = some false) ↔
        P ∧ (primed ops)[i]? = some false := by
    intro P _ i
    by_cases hP : P
    · simp [hP]
    · simp [hP]
  have hnone : ∀ {x : Except Fault (World V × Result)}, NoDiv x →
      (x = .error .divByZero ↔
        ∃ i : Nat, (none : Option Nat) = some i ∧ (primed ops)[i]? = some false) := by
    intro x hx
    exact iff_of_false hx fun ⟨i, hi, _⟩ => by cases hi
  cases op with
  | construct => exact hnone (.ok _)
  | copy j => exact hnone ((copyObject_noDiv _ _).bind fun _ _ => .ok _)
  | assign i j => exact hnone ((assignObject_noDiv _ _ _).bind fun _ _ => .ok _)
  | swap i j => exact hnone ((swapObjects_noDiv _ _ _).bind fun _ _ => .ok _)
  | insertUnique i v =>
    rw [Op.hashes, hsome]
    refine h.divByZero_iff (fun t ht => ?_) fun t ht => ?_
    · exact (insertUnique_noDiv ht v).bind fun _ _ => .ok _
    · rw [insertUnique, findNode_divByZero ht]
      exact iff_of_true rfl trivial
  | insertMultiple i v =>
    rw [Op.hashes, hsome]
    refine h.divByZero_iff (fun t ht => ?_) fun t ht => ?_
    · exact (insertMultiple_noDiv ht v).bind fun _ _ => .ok _
    · rw [insertMultiple, findNode_divByZero ht]
      exact iff_of_true rfl trivial
  | find i key =>
    rw [Op.hashes, hsome]
    refine h.divByZero_iff (fun t ht => ?_) fun t ht => ?_
    · exact (find_noDiv ht key).bind fun _ _ => .ok _
    · rw [find, equalRange_divByZero ht]
      exact iff_of_true rfl trivial
  | equalRange i key =>
    rw [Op.hashes, hsome]
    refine h.divByZero_iff (fun t ht => ?_) fun t ht => ?_
    · exact (equalRange_noDiv ht key).bind fun _ _ => .ok _
    · rw [equalRange_divByZero ht]
      exact iff_of_true rfl trivial
  | eraseRange i first last =>
    rw [Op.hashes, hif]
    refine h.divByZero_iff (fun t ht => ?_) fun t ht => ?_
    · exact (erase_noDiv ht first last).bind fun _ _ => .ok _
    · exact bind_ok_divByZero_iff.trans (@erase_divByZero_iff K V tr ⟨w.mem, t⟩ ht first last)
  | eraseIter i it =>
    rw [Op.hashes, hif]
    refine h.divByZero_iff (fun t ht => ?_) fun t ht => ?_
    · exact (eraseIter_noDiv ht it).bind fun _ _ => .ok _
    · exact bind_ok_divByZero_iff.trans (@eraseIter_divByZero_iff K V tr ⟨w.mem, t⟩ ht it)
  | eraseKey i key =>
    rw [Op.hashes, hsome]
    refine h.divByZero_iff (fun t ht => ?_) fun t ht => ?_
    · exact (eraseKey_noDiv ht key).bind fun _ _ => .ok _
    · rw [eraseKey, find, equalRange_divByZero ht]
      exact iff_of_true rfl trivial
  | clear i =>
    exact hnone ((object_noDiv _ _).bind fun _ _ => (clear_noDiv _).bind fun _ _ => .ok _)

/-- In the run of the operations `ops`, no operation takes a remainder by zero. -/
def NeverDivides (tr : Traits K V) (ops : List (Op K V)) : Prop :=
  ∀ pre op post, ops = pre ++ op :: post → ∀ w, Run tr pre w →
    w.exec tr op ≠ .error .divByZero

/-- Every operation hashes only in a table which has a bucket. -/
def HashesPrimed (tr : Traits K V) (ops : List (Op K V)) : Prop :=
  ∀ pre op post, ops = pre ++ op :: post → ∀ w, Run tr pre w →
    ∀ i, op.hashes w.mem = some i → (primed pre)[i]? ≠ some false

/-- A program never takes a remainder by zero if and only if it hashes only in tables which were
cleared or got their buckets from such a table. -/
theorem neverDivides_iff (tr : Traits K V) (ops : List (Op K V)) :
    NeverDivides tr ops ↔ HashesPrimed tr ops := by
  constructor
  · intro h pre op post hops w hrun i hi hprimed
    exact h pre op post hops w hrun ((hrun.exec_divByZero_iff op).mpr ⟨i, hi, hprimed⟩)
  · intro h pre op post hops w hrun hdiv
    obtain ⟨i, hi, hprimed⟩ := (hrun.exec_divByZero_iff op).mp hdiv
    exact h pre op post hops w hrun i hi hprimed

/-- The first lookup in a new map takes a remainder by zero. -/
theorem find_new_divides : ¬ NeverDivides Traits.natMap [.construct, .find 0 5] := by
  intro h
  exact h [.construct] (.find 0 5) [] rfl ⟨Memory.empty, [Table.new]⟩ (Run.of_execAll rfl) rfl

end HashToolbox

end Utilmm
