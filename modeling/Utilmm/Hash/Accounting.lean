import Utilmm.Hash.Returned

/-!
# The nodes of the tables are accounted for

Every node which is allocated and not freed is counted by one of the tables, so none is leaked, and
no bucket vector is too small for its table: there are less than 64 nodes for each bucket. A
destruction of all the tables at the end frees every node once.
-/

namespace Utilmm

namespace HashToolbox

variable {K V : Type} {tr : Traits K V}

/-- There is room for the nodes of a table, unless it has never had a bucket. -/
structure Table.Sized (t : Table) : Prop where
  avg : t.avgBucketCount = 64
  load : t.bucket = [] ∧ t.nodeCount = 0 ∨ t.nodeCount < 64 * t.bucket.length
  empty : t.nodeCount = 0 → t.bucket.length ≤ 1

/-- Nodes have come and gone just as the table has counted. -/
structure Accounts (s s' : State V) : Prop where
  live : s'.mem.live.card + s.table.nodeCount = s.mem.live.card + s'.table.nodeCount
  sized : s.table.Sized → s'.table.Sized

lemma Accounts.refl (s : State V) : Accounts s s := ⟨rfl, id⟩

lemma Table.sized_new : Table.new.Sized := ⟨rfl, Or.inl ⟨rfl, rfl⟩, fun _ => Nat.zero_le _⟩

/-! ### Links -/

lemma exists_node_of_deref {mem : Memory V} {p : Option Addr} {n : Node V}
    (h : deref mem p = .ok n) : ∃ a, p = some a ∧ mem.node a = some n := by
  cases p with
  | none => cases h
  | some a =>
    rw [deref] at h
    cases hn : mem.node a with
    | none =>
      rw [hn] at h
      cases h
    | some n' =>
      rw [hn] at h
      cases h
      exact ⟨a, rfl, hn⟩

lemma live_of_deref {mem : Memory V} {a : Addr} {n n' : Node V}
    (h : deref mem (some a) = .ok n) : (mem.write a n').live = mem.live := by
  obtain ⟨b, hb, hn⟩ := exists_node_of_deref h
  cases hb
  exact Memory.live_write hn n'

lemma store_live {s s' : State V} {link : Link} {p : Option Addr} (h : s.store link p = .ok s') :
    s'.mem.live = s.mem.live := by
  cases link with
  | slot version i =>
    rw [State.store] at h
    split_ifs at h
    cases h
    rfl
  | next a =>
    rw [State.store, Except.bind_eq_ok] at h
    obtain ⟨n, hn, h⟩ := h
    cases h
    exact live_of_deref hn

/-! ### Growing -/

lemma moveRun_live {n : Nat} {mem mem' : Memory V} {tmp tmp' : List (Option Addr)} {beg : Addr}
    {rest : Option Addr} (h : moveRun tr n mem tmp beg = .ok (mem', tmp', rest)) :
    mem'.live = mem.live ∧ tmp'.length = tmp.length := by
  simp only [moveRun, Except.bind_eq_ok] at h
  obtain ⟨first, -, m, -, last, hlast, hval, -, h⟩ := h
  split at h
  · cases h
  · cases h
    exact ⟨live_of_deref hlast, List.length_set⟩

lemma moveBucket_live {n fuel : Nat} {state state' : Memory V × List (Option Addr)}
    {p : Option Addr} (h : moveBucket tr n fuel state p = .ok state') :
    state'.1.live = state.1.live ∧ state'.2.length = state.2.length := by
  induction fuel generalizing state p with
  | zero => cases h
  | succ fuel ih =>
    cases p with
    | none =>
      cases h
      exact ⟨rfl, rfl⟩
    | some beg =>
      rw [moveBucket, Except.bind_eq_ok] at h
      obtain ⟨⟨mem, tmp, rest⟩, hrun, h⟩ := h
      obtain ⟨hlive, hlength⟩ := moveRun_live hrun
      exact ⟨(ih h).1.trans hlive, (ih h).2.trans hlength⟩

lemma rehash_live {n : Nat} {mem mem' : Memory V} {bucket tmp : List (Option Addr)}
    (h : rehash tr n mem bucket = .ok (mem', tmp)) : mem'.live = mem.live ∧ tmp.length = n := by
  have hloop : ∀ {bucket : List (Option Addr)} {state state' : Memory V × List (Option Addr)},
      bucket.foldlM (fun state p => moveBucket tr n (state.1.size + 1) state p) state
        = .ok state' → state'.1.live = state.1.live ∧ state'.2.length = state.2.length := by
    intro bucket
    induction bucket with
    | nil =>
      intro state state' h
      cases h
      exact ⟨rfl, rfl⟩
    | cons p bucket ih =>
      intro state state' h
      rw [List.foldlM_cons, Except.bind_eq_ok] at h
      obtain ⟨state₁, hmove, h⟩ := h
      obtain ⟨hlive, hlength⟩ := moveBucket_live hmove
      exact ⟨(ih h).1.trans hlive, (ih h).2.trans hlength⟩
  obtain ⟨hlive, hlength⟩ := hloop h
  exact ⟨hlive, hlength.trans List.length_replicate⟩

/-- What `resize` does to the members of the table. -/
lemma resize_table {s s' : State V} {size : Nat} (h : resize tr s size = .ok s') :
    s'.mem.live = s.mem.live ∧ s'.table.nodeCount = size ∧
      s'.table.avgBucketCount = s.table.avgBucketCount ∧
      s'.table.bucket.length = if size = 0 then 1
        else max s.table.bucket.length (1 + size / s.table.avgBucketCount) := by
  rw [resize] at h
  split_ifs at h with hsize
  · cases h
    exact ⟨rfl, rfl, rfl, (if_pos hsize).symm⟩
  · simp only at h
    split_ifs at h with hgrow
    · rw [Except.bind_eq_ok] at h
      obtain ⟨⟨mem, tmp⟩, hrehash, h⟩ := h
      cases h
      obtain ⟨hlive, hlength⟩ := rehash_live hrehash
      exact ⟨hlive, rfl, rfl, by rw [if_neg hsize, max_eq_right hgrow.le, hlength]⟩
    · cases h
      exact ⟨rfl, rfl, rfl, by rw [if_neg hsize, max_eq_left (not_lt.mp hgrow)]⟩

/-- `resize` leaves room for the nodes. -/
lemma resize_sized {s s' : State V} {size : Nat} (h : resize tr s size = .ok s')
    (havg : s.table.avgBucketCount = 64) : s'.table.Sized := by
  obtain ⟨-, hcount, havg', hlength⟩ := resize_table h
  rw [havg] at hlength havg'
  refine ⟨havg', Or.inr ?_, fun hzero => ?_⟩
  · rw [hcount, hlength]
    split_ifs with hsize
    · omega
    · have hmax := le_max_right s.table.bucket.length (1 + size / 64)
      omega
  · rw [hlength, if_pos (hcount ▸ hzero)]

/-! ### Insertion -/

lemma insert_accounts {s s' : State V} {position : Link} {v : V} {it : Except Fault (Option Addr)}
    (h : insert tr s position v = .ok (s', it)) : Accounts s s' := by
  simp only [insert, Except.bind_eq_ok, Except.pure_eq_ok, Prod.mk.injEq] at h
  obtain ⟨head, -, s₁, hstore, s₂, hresize, rfl, -⟩ := h
  obtain ⟨bucket, -, htable⟩ := store_table hstore
  obtain ⟨hlive, hcount, -, -⟩ := resize_table hresize
  have hcount₁ : s₁.table.nodeCount = s.table.nodeCount := by rw [htable]
  refine ⟨?_, fun hs => resize_sized hresize (htable ▸ hs.avg)⟩
  rw [hlive, hcount, store_live hstore, Memory.card_live_alloc, hcount₁]
  omega

lemma insertUnique_accounts {s s' : State V} {v : V} {it : Except Fault (Option Addr)} {new : Bool}
    (h : insertUnique tr s v = .ok (s', it, new)) : Accounts s s' := by
  simp only [insertUnique, Except.bind_eq_ok] at h
  obtain ⟨pos, -, p, -, h⟩ := h
  cases p with
  | some a =>
    cases h
    exact .refl s
  | none =>
    simp only [Except.bind_eq_ok, Except.pure_eq_ok, Prod.mk.injEq] at h
    obtain ⟨⟨s₁, it₁⟩, hinsert, rfl, -⟩ := h
    exact insert_accounts hinsert

lemma insertMultiple_accounts {s s' : State V} {v : V} {it : Except Fault (Option Addr)}
    (h : insertMultiple tr s v = .ok (s', it)) : Accounts s s' := by
  rw [insertMultiple, Except.bind_eq_ok] at h
  obtain ⟨pos, -, h⟩ := h
  exact insert_accounts h

/-! ### Removal -/

/-- The loop counts the nodes that it frees. -/
lemma eraseLoop_live {last : Option Addr} {fuel hval removed removed' : Nat} {s s' : State V}
    {iter : Link} (h : eraseLoop last fuel s iter hval removed = .ok (s', removed')) :
    s'.mem.live.card + removed' = s.mem.live.card + removed ∧
      ∃ bucket, s'.table = { s.table with bucket := bucket } := by
  induction fuel generalizing s iter hval removed with
  | zero => cases h
  | succ fuel ih =>
    rw [eraseLoop, Except.bind_eq_ok] at h
    obtain ⟨p, -, h⟩ := h
    split_ifs at h
    · cases h
      exact ⟨rfl, _, rfl⟩
    · simp only [Except.bind_eq_ok] at h
      obtain ⟨tmp, hderef, s₁, hstore, ⟨iter₁, hval₁⟩, -, h⟩ := h
      obtain ⟨a, rfl, hn⟩ := exists_node_of_deref hderef
      obtain ⟨bucket, -, htable⟩ := store_table hstore
      obtain ⟨hlive, bucket', htable'⟩ := ih h
      have hlive₁ := store_live hstore
      have ha : a ∈ s₁.mem.live := hlive₁ ▸ Memory.mem_live.mpr ⟨tmp, hn⟩
      obtain ⟨n, hn₁⟩ := Memory.mem_live.mp ha
      have hfree := Memory.card_live_free hn₁
      rw [hlive₁] at hfree
      simp only [Option.elim_some] at hlive
      refine ⟨by omega, bucket', ?_⟩
      rw [htable']
      simp only [htable]

/-- No more nodes are freed than the table has. -/
lemma erase_accounts {s s' : State V} {cs : List (List (Addr × V))} {first last : Option Addr}
    (hs : Owns s cs) (h : erase tr s first last = .ok s') : Accounts s s' := by
  obtain ⟨cs', hup, -⟩ := erase_edits hs h
  rw [erase] at h
  split_ifs at h
  · cases h
    exact .refl s
  · simp only [Except.bind_eq_ok] at h
    obtain ⟨n, -, hval, -, iter, -, ⟨s₁, removed⟩, hloop, hresize⟩ := h
    dsimp only at hresize
    obtain ⟨hlive₁, bucket, htable⟩ := eraseLoop_live hloop
    obtain ⟨hlive, hcount, -, -⟩ := resize_table hresize
    have hcount₁ : s₁.table.nodeCount = s.table.nodeCount := by rw [htable]
    have hle := hup.frame.card_live_le
    rw [addrs, List.length_map, ← hs.count, hlive] at hle
    refine ⟨?_, fun hsized => resize_sized hresize (htable ▸ hsized.avg)⟩
    rw [hlive, hcount, hcount₁]
    omega

lemma eraseIter_accounts {s s' : State V} {cs : List (List (Addr × V))} {it : Option Addr}
    (hs : Owns s cs) (h : eraseIter tr s it = .ok s') : Accounts s s' := by
  rw [eraseIter] at h
  split_ifs at h
  · rw [Except.bind_eq_ok] at h
    obtain ⟨j, -, h⟩ := h
    exact erase_accounts hs h
  · cases h
    exact .refl s

lemma eraseKey_accounts {s s' : State V} {cs : List (List (Addr × V))} {key : K}
    (hs : Owns s cs) (h : eraseKey tr s key = .ok s') : Accounts s s' := by
  rw [eraseKey, Except.bind_eq_ok] at h
  obtain ⟨i, -, h⟩ := h
  exact eraseIter_accounts hs h

lemma clearBucket_live {mem mem' : Memory V} {fuel : Nat} {p : Option Addr} {c : List (Addr × V)}
    (hseg : Seg mem p c none) (hnodup : (c.map Prod.fst).Nodup)
    (h : clearBucket fuel mem p = .ok mem') : mem'.live.card + c.length = mem.live.card := by
  induction fuel generalizing mem p c with
  | zero => cases h
  | succ fuel ih =>
    cases c with
    | nil =>
      rw [Seg.nil_iff.mp hseg] at h
      cases h
      rfl
    | cons x c =>
      obtain ⟨a, v⟩ := x
      obtain ⟨r, rfl, hn, hseg⟩ := hseg
      rw [List.map_cons, List.nodup_cons] at hnodup
      have hseg' : Seg (mem.free a) r c none := hseg.congr fun b hb =>
        Memory.node_free_of_ne (ne_of_mem_of_not_mem hb hnodup.1).symm
      simp only [clearBucket, deref, hn, Except.ok_bind] at h
      rw [List.length_cons, ← Memory.card_live_free hn, ← ih hseg' hnodup.2 h, Nat.add_assoc]

lemma clearLoop_live {mem mem' : Memory V} {bucket : List (Option Addr)}
    {cs : List (List (Addr × V))} (hrep : Rep mem bucket cs)
    (h : bucket.foldlM (fun mem p => clearBucket (mem.size + 1) mem p) mem = .ok mem') :
    mem'.live.card + cs.flatten.length = mem.live.card := by
  induction cs generalizing mem bucket with
  | nil =>
    rw [List.length_eq_zero_iff.mp hrep.length_eq] at h
    cases h
    rfl
  | cons c cs ih =>
    obtain ⟨p, bucket, rfl⟩ := List.exists_cons_of_length_eq_add_one hrep.length_eq
    obtain ⟨hseg, hcs, hnodup⟩ := Rep.cons_iff.mp hrep
    rw [addrs_cons] at hnodup
    rw [List.foldlM_cons, Except.bind_eq_ok] at h
    obtain ⟨mem₁, hclear, h⟩ := h
    have hfuel : c.length < mem.size + 1 := Nat.lt_succ_of_le (@Rep.length_le V mem _ [] cs c hrep)
    obtain ⟨mem₂, hclear₂, -, hmem⟩ := clearBucket_eq hseg hnodup.of_append_left hfuel
    obtain rfl : mem₁ = mem₂ := Except.ok.inj (hclear.symm.trans hclear₂)
    have hcs₁ : Rep mem₁ bucket cs := hcs.congr fun a ha => hmem a fun hc =>
      (List.nodup_append.mp hnodup).2.2 a hc a ha rfl
    have hlive := clearBucket_live hseg hnodup.of_append_left hclear
    have hrest := ih hcs₁ h
    rw [List.flatten_cons, List.length_append]
    omega

/-- `clear` frees all nodes of the table. -/
lemma clear_accounts {s s' : State V} {cs : List (List (Addr × V))} (hs : Owns s cs)
    (h : clear tr s = .ok s') : Accounts s s' ∧ s'.table.nodeCount = 0 := by
  rw [clear, Except.bind_eq_ok] at h
  obtain ⟨mem, hloop, hresize⟩ := h
  obtain ⟨hlive, hcount, -, -⟩ := resize_table hresize
  refine ⟨⟨?_, fun hsized => resize_sized hresize hsized.avg⟩, hcount⟩
  rw [hlive, hcount, hs.count]
  exact clearLoop_live hs.rep hloop

/-! ### Copies -/

/-- A store through a link leaves all nodes alone but one. -/
lemma store_node {s s' : State V} {link : Link} {p : Option Addr} (h : s.store link p = .ok s')
    {a : Addr} (ha : link ≠ .next a) : s'.mem.node a = s.mem.node a := by
  cases link with
  | slot version i =>
    rw [State.store] at h
    split_ifs at h
    cases h
    rfl
  | next b =>
    rw [State.store, Except.bind_eq_ok] at h
    obtain ⟨n, -, h⟩ := h
    cases h
    exact Memory.node_write_of_ne _ fun hba => ha (hba ▸ rfl)

lemma store_size {s s' : State V} {link : Link} {p : Option Addr} (h : s.store link p = .ok s') :
    s'.mem.size = s.mem.size := by
  cases link with
  | slot version i =>
    rw [State.store] at h
    split_ifs at h
    cases h
    rfl
  | next b =>
    rw [State.store, Except.bind_eq_ok] at h
    obtain ⟨n, -, h⟩ := h
    cases h
    exact Memory.size_write _ _ _

/-- The copy of a chain has as many nodes, and the nodes which were there stay as they are. -/
lemma copyChain_live {fuel : Nat} {s s' : State V} {p : Option Addr} {tmp : Link}
    {c : List (Addr × V)} (hseg : Seg s.mem p c none) (htmp : ∀ a ∈ c.map Prod.fst, tmp ≠ .next a)
    (h : copyChain fuel s p tmp = .ok s') :
    s'.mem.live.card = s.mem.live.card + c.length ∧
      (∀ a < s.mem.size, tmp ≠ .next a → s'.mem.node a = s.mem.node a) ∧
      ∃ bucket, bucket.length = s.table.bucket.length ∧
        s'.table = { s.table with bucket := bucket } := by
  induction fuel generalizing s p tmp c with
  | zero => cases h
  | succ fuel ih =>
    cases c with
    | nil =>
      rw [Seg.nil_iff.mp hseg] at h
      cases h
      exact ⟨rfl, fun _ _ _ => rfl, _, rfl, rfl⟩
    | cons x c =>
      obtain ⟨a, v⟩ := x
      obtain ⟨r, rfl, hn, hseg⟩ := hseg
      simp only [copyChain, deref, hn, Except.ok_bind, Except.bind_eq_ok] at h
      obtain ⟨s₁, hstore, h⟩ := h
      have hlt : ∀ b ∈ c.map Prod.fst, b < s.mem.size := fun b hb => hseg.addr_lt_size hb
      have hnode {b : Addr} (hb : b < s.mem.size) (htmpb : tmp ≠ .next b) :
          s₁.mem.node b = s.mem.node b :=
        (store_node hstore htmpb).trans (Memory.node_alloc_of_lt _ hb)
      have hseg₁ : Seg s₁.mem r c none := hseg.congr fun b hb =>
        hnode (hlt b hb) (htmp b (List.mem_cons_of_mem _ hb))
      have hnew {b : Addr} (hb : b < s.mem.size) : Link.next s.mem.size ≠ .next b := fun heq =>
        hb.ne (Link.next.inj heq).symm
      obtain ⟨hlive, hkeep, bucket, hlength, htable⟩ := ih hseg₁ (fun b hb => hnew (hlt b hb)) h
      obtain ⟨bucket₁, hlength₁, htable₁⟩ := store_table hstore
      refine ⟨?_, fun b hb htmpb => ?_, bucket, ?_, ?_⟩
      · rw [hlive, store_live hstore, Memory.card_live_alloc, List.length_cons]
        omega
      · have hb₁ : b < s₁.mem.size := by
          rw [store_size hstore, Memory.size_alloc]
          exact Nat.lt_succ_of_lt hb
        rw [hkeep b hb₁ (hnew hb), hnode hb htmpb]
      · rw [hlength, htable₁, hlength₁]
      · rw [htable, htable₁]

lemma copyBuckets_live {s s' : State V} {other : List (Option Addr)} {cs : List (List (Addr × V))}
    {j : Nat} (hrep : Rep s.mem other cs) (h : copyBuckets other j s = .ok s') :
    s'.mem.live.card = s.mem.live.card + cs.flatten.length ∧
      ∃ bucket, bucket.length = s.table.bucket.length ∧
        s'.table = { s.table with bucket := bucket } := by
  induction cs generalizing s other j with
  | nil =>
    rw [List.length_eq_zero_iff.mp hrep.length_eq] at h
    cases h
    exact ⟨rfl, _, rfl, rfl⟩
  | cons c cs ih =>
    obtain ⟨p, other, rfl⟩ := List.exists_cons_of_length_eq_add_one hrep.length_eq
    obtain ⟨hseg, hcs, -⟩ := Rep.cons_iff.mp hrep
    rw [copyBuckets, Except.bind_eq_ok] at h
    obtain ⟨s₁, hchain, h⟩ := h
    obtain ⟨hlive₁, hnode, bucket₁, hlength₁, htable₁⟩ :=
      copyChain_live hseg (fun _ _ => by simp) hchain
    have hcs₁ : Rep s₁.mem other cs := hcs.congr fun a ha =>
      hnode a (hcs.addr_lt_size ha) (by simp)
    obtain ⟨hlive, bucket, hlength, htable⟩ := ih hcs₁ h
    refine ⟨?_, bucket, ?_, ?_⟩
    · rw [hlive, hlive₁, List.flatten_cons, List.length_append, Nat.add_assoc]
    · rw [hlength, htable₁, hlength₁]
    · rw [htable, htable₁]

/-- A copy brings the nodes which it counts. -/
lemma copy_accounts {mem : Memory V} {other : Table} {s' : State V} {cs : List (List (Addr × V))}
    (hs : Owns ⟨mem, other⟩ cs) (h : copy mem other = .ok s') :
    s'.mem.live.card = mem.live.card + s'.table.nodeCount ∧ (other.Sized → s'.table.Sized) := by
  rw [copy] at h
  obtain ⟨hlive, bucket, hlength, htable⟩ := copyBuckets_live (by exact hs.rep) h
  rw [List.length_replicate] at hlength
  rw [hlive, htable, ← hs.count]
  refine ⟨rfl, fun hsized => ⟨hsized.avg, ?_, fun hzero => ?_⟩⟩
  · rcases hsized.load with ⟨hnil, hzero⟩ | hlt
    · rw [hnil] at hlength
      exact Or.inl ⟨List.length_eq_zero_iff.mp hlength, hzero⟩
    · refine Or.inr ?_
      rw [hlength]
      exact hlt
  · rw [hlength]
    exact hsized.empty hzero

/-! ### Addresses -/

/-- A table which does not grow leaves its nodes where they are. -/
lemma resize_mem {s s' : State V} {size : Nat} (h : resize tr s size = .ok s')
    (hle : 1 + size / s.table.avgBucketCount ≤ s.table.bucket.length) : s'.mem = s.mem := by
  by_cases hsize : size = 0
  · rw [resize, if_pos hsize] at h
    cases h
    rfl
  · rw [resize_of_le hsize hle] at h
    cases h
    rfl

/-- A new node takes the next address. -/
lemma insertUnique_size {s s' : State V} {v : V} {it : Except Fault (Option Addr)}
    (h : insertUnique tr s v = .ok (s', it, true))
    (hle : 1 + (s.table.nodeCount + 1) / s.table.avgBucketCount ≤ s.table.bucket.length) :
    s'.mem.size = s.mem.size + 1 := by
  simp only [insertUnique, Except.bind_eq_ok] at h
  obtain ⟨pos, -, p, -, h⟩ := h
  cases p with
  | some a => cases h
  | none =>
    simp only [insert, Except.bind_eq_ok, Except.pure_eq_ok, Prod.mk.injEq] at h
    obtain ⟨-, ⟨head, -, s₁, hstore, s₂, hresize, rfl⟩, rfl, -⟩ := h
    obtain ⟨bucket, hlength, htable⟩ := store_table hstore
    rw [resize_mem hresize, store_size hstore, Memory.size_alloc]
    rw [htable]
    simpa only [hlength] using hle

lemma eraseLoop_size {last : Option Addr} {fuel hval removed removed' : Nat} {s s' : State V}
    {iter : Link} (h : eraseLoop last fuel s iter hval removed = .ok (s', removed')) :
    s'.mem.size = s.mem.size ∧ s'.table.bucket.length = s.table.bucket.length := by
  induction fuel generalizing s iter hval removed with
  | zero => cases h
  | succ fuel ih =>
    rw [eraseLoop, Except.bind_eq_ok] at h
    obtain ⟨p, -, h⟩ := h
    split_ifs at h
    · cases h
      exact ⟨rfl, rfl⟩
    · simp only [Except.bind_eq_ok] at h
      obtain ⟨tmp, hderef, s₁, hstore, ⟨iter₁, hval₁⟩, -, h⟩ := h
      obtain ⟨a, rfl, hn⟩ := exists_node_of_deref hderef
      obtain ⟨bucket, hlength, htable⟩ := store_table hstore
      obtain ⟨hsize, hlength'⟩ := ih h
      simp only [Option.elim_some, Memory.size_free] at hsize
      refine ⟨hsize.trans (store_size hstore), hlength'.trans ?_⟩
      simp only [htable, hlength]

/-- No address is given back by `erase`. -/
lemma eraseIter_size {s s' : State V} {it : Option Addr} (h : eraseIter tr s it = .ok s')
    (hle : 1 + s.table.nodeCount / s.table.avgBucketCount ≤ s.table.bucket.length) :
    s'.mem.size = s.mem.size := by
  rw [eraseIter] at h
  split_ifs at h
  · rw [Except.bind_eq_ok] at h
    obtain ⟨j, -, h⟩ := h
    rw [erase] at h
    split_ifs at h
    · cases h
      rfl
    · simp only [Except.bind_eq_ok] at h
      obtain ⟨n, -, hval, -, iter, -, ⟨s₁, removed⟩, hloop, hresize⟩ := h
      obtain ⟨hsize, hlength⟩ := eraseLoop_size hloop
      obtain ⟨-, bucket, htable⟩ := eraseLoop_live hloop
      rw [resize_mem hresize, hsize]
      rw [hlength]
      simp only [htable]
      have hdiv : (s.table.nodeCount - removed) / s.table.avgBucketCount ≤
          s.table.nodeCount / s.table.avgBucketCount := Nat.div_le_div_right (Nat.sub_le _ _)
      omega
  · cases h
    rfl

lemma clear_size {s s' : State V} {cs : List (List (Addr × V))} (hs : Owns s cs)
    (h : clear tr s = .ok s') : s'.mem.size = s.mem.size := by
  rw [clear, Except.bind_eq_ok] at h
  obtain ⟨mem, hloop, hresize⟩ := h
  obtain ⟨mem', hloop', hsize, -⟩ := clearLoop_eq hs.rep
  obtain rfl : mem = mem' := Except.ok.inj (hloop.symm.trans hloop')
  rw [resize, if_pos rfl] at hresize
  cases hresize
  exact hsize

/-! ### Programs -/

/-- The nodes which are there are counted by the tables. -/
structure World.Accounted (w : World V) : Prop where
  live : w.mem.live.card = (w.objects.map Table.nodeCount).sum
  sized : ∀ t ∈ w.objects, t.Sized

lemma sum_nodeCount_set {objects : List Table} {i : Nat} {t : Table} (h : objects[i]? = some t)
    (t' : Table) : ((objects.set i t').map Table.nodeCount).sum + t.nodeCount
      = (objects.map Table.nodeCount).sum + t'.nodeCount := by
  induction objects generalizing i with
  | nil => cases h
  | cons u objects ih =>
    cases i with
    | zero =>
      cases h
      simp only [List.set_cons_zero, List.map_cons, List.sum_cons]
      omega
    | succ i =>
      have hrest := ih h
      simp only [List.set_cons_succ, List.map_cons, List.sum_cons]
      omega

namespace World.Accounted

variable {w w' : World V} {css : List (List (List (Addr × V)))} {i j : Nat} {r : Result}

lemma empty : (World.empty : World V).Accounted := ⟨rfl, fun _ ht => (by cases ht)⟩

/-- One table is changed. -/
lemma update (h : w.Accounted) {t : Table} {s' : State V} (ht : w.objects[i]? = some t)
    (hs' : Accounts ⟨w.mem, t⟩ s') : (w.update i s').Accounted where
  live := by
    have hsum := sum_nodeCount_set ht s'.table
    have hlive := hs'.live
    have hw := h.live
    simp only [World.update] at hlive ⊢
    omega
  sized u hu := by
    rcases List.mem_or_eq_of_mem_set hu with hu | rfl
    · exact h.sized u hu
    · exact hs'.sized (h.sized t (List.mem_of_getElem? ht))

lemma construct (h : w.Accounted) : (World.mk w.mem (w.objects ++ [Table.new])).Accounted where
  live := by simp [h.live, Table.new]
  sized u hu := by
    rcases List.mem_append.mp hu with hu | hu
    · exact h.sized u hu
    · exact List.mem_singleton.mp hu ▸ Table.sized_new

lemma copyObject (h : w.Accounted) (hw : w.Owns css) (hcopy : w.copyObject j = .ok w') :
    w'.Accounted := by
  rw [World.copyObject, Except.bind_eq_ok] at hcopy
  obtain ⟨s, hs, hcopy⟩ := hcopy
  obtain ⟨t, cs, rfl, ht, -, howns⟩ := hw.object hs
  rw [Except.bind_eq_ok] at hcopy
  obtain ⟨s', hcopy, hw'⟩ := hcopy
  cases hw'
  obtain ⟨hlive, hsized⟩ := copy_accounts howns hcopy
  refine ⟨?_, fun u hu => ?_⟩
  · simp [hlive, h.live]
  · rcases List.mem_append.mp hu with hu | hu
    · exact h.sized u hu
    · exact List.mem_singleton.mp hu ▸ hsized (h.sized t (List.mem_of_getElem? ht))

lemma swapObjects (h : w.Accounted) (hw : w.Owns css) (hswap : w.swapObjects i j = .ok w') :
    w'.Accounted := by
  simp only [World.swapObjects, Except.bind_eq_ok] at hswap
  obtain ⟨s, hs, s', hs', hw'⟩ := hswap
  obtain ⟨t, -, rfl, ht, -, -⟩ := hw.object hs
  obtain ⟨t', -, rfl, ht', -, -⟩ := hw.object hs'
  cases hw'
  have hset : (w.objects.set i t')[j]? = some t' := by
    rw [List.getElem?_set]
    split_ifs with hij hi
    · rfl
    · exact absurd (List.getElem?_eq_some_iff.mp ht).1 (hij ▸ hi)
    · exact ht'
  refine ⟨?_, fun u hu => ?_⟩
  · have hfirst := sum_nodeCount_set ht t'
    have hsecond := sum_nodeCount_set hset t
    have hlive := h.live
    change w.mem.live.card = (((w.objects.set i t').set j t).map Table.nodeCount).sum
    omega
  · rcases List.mem_or_eq_of_mem_set hu with hu | rfl
    · rcases List.mem_or_eq_of_mem_set hu with hu | rfl
      · exact h.sized u hu
      · exact h.sized _ (List.mem_of_getElem? ht')
    · exact h.sized _ (List.mem_of_getElem? ht)

/-- The destructor frees all nodes of its table. -/
lemma destroyLast (h : w.Accounted) (hw : w.Owns css) (hdestroy : w.destroyLast tr = .ok w') :
    w'.Accounted := by
  simp only [World.destroyLast, Except.bind_eq_ok] at hdestroy
  obtain ⟨s, hs, s', hclear, hw'⟩ := hdestroy
  obtain ⟨t, cs, rfl, ht, -, howns⟩ := hw.object hs
  cases hw'
  obtain ⟨hacc, hzero⟩ := clear_accounts howns hclear
  have hne : w.objects ≠ [] := by
    rintro hnil
    rw [hnil] at ht
    cases ht
  have hlast : w.objects = w.objects.dropLast ++ [t] := by
    rw [← List.dropLast_append_getLast hne, List.getLast_eq_getElem hne]
    simpa using (List.getElem?_eq_some_iff.mp ht).2
  refine ⟨?_, fun u hu => h.sized u (List.dropLast_subset _ hu)⟩
  have hlive := hacc.live
  have hsum := congrArg (fun objects => (objects.map Table.nodeCount).sum) hlast
  simp only [List.map_append, List.map_singleton, List.sum_append, List.sum_singleton] at hsum
  have hwlive := h.live
  simp only at hlive ⊢
  omega

lemma assignObject (h : w.Accounted) (hw : w.Owns css)
    (hassign : w.assignObject tr i j = .ok w') : w'.Accounted := by
  simp only [World.assignObject, Except.bind_eq_ok] at hassign
  obtain ⟨s, hs, w₁, hcopy, w₂, hswap, hdestroy⟩ := hassign
  have hobject := hcopy
  rw [World.copyObject, Except.bind_eq_ok] at hobject
  obtain ⟨s', hs', -⟩ := hobject
  obtain ⟨-, ci, -, -, hci, -⟩ := hw.object hs
  obtain ⟨-, cj, -, -, hcj, -⟩ := hw.object hs'
  -- the tables of the world in between own their chains
  obtain ⟨w₁', cs', hcopy', hw₁, -, -⟩ := hw.copyObject hcj
  obtain rfl : w₁ = w₁' := Except.ok.inj (hcopy.symm.trans hcopy')
  have hi : i < css.length := (List.getElem?_eq_some_iff.mp hci).1
  obtain ⟨w₂', hswap', hw₂, -⟩ := hw₁.swapObjects
    ((List.getElem?_append_left hi).trans hci)
    (show (css ++ [cs'])[w.objects.length]? = some cs' by simp [hw.length_eq])
  obtain rfl : w₂ = w₂' := Except.ok.inj (hswap.symm.trans hswap')
  exact ((h.copyObject hw hcopy).swapObjects hw₁ hswap).destroyLast hw₂ hdestroy

lemma exec {op : Op K V} (h : w.Accounted) (hw : w.Owns css)
    (hexec : w.exec tr op = .ok (w', r)) : w'.Accounted := by
  cases op with
  | construct =>
    cases hexec
    exact h.construct
  | copy j =>
    simp only [World.exec, Except.bind_eq_ok, Except.pure_eq_ok, Prod.mk.injEq] at hexec
    obtain ⟨w₁, hcopy, rfl, -⟩ := hexec
    exact h.copyObject hw hcopy
  | assign i j =>
    simp only [World.exec, Except.bind_eq_ok, Except.pure_eq_ok, Prod.mk.injEq] at hexec
    obtain ⟨w₁, hassign, rfl, -⟩ := hexec
    exact h.assignObject hw hassign
  | swap i j =>
    simp only [World.exec, Except.bind_eq_ok, Except.pure_eq_ok, Prod.mk.injEq] at hexec
    obtain ⟨w₁, hswap, rfl, -⟩ := hexec
    exact h.swapObjects hw hswap
  | insertUnique i v =>
    simp only [World.exec, Except.bind_eq_ok, Except.pure_eq_ok, Prod.mk.injEq] at hexec
    obtain ⟨s, hs, ⟨s', it, new⟩, hinsert, rfl, -⟩ := hexec
    obtain ⟨t, -, rfl, ht, -, -⟩ := hw.object hs
    exact h.update ht (insertUnique_accounts hinsert)
  | insertMultiple i v =>
    simp only [World.exec, Except.bind_eq_ok, Except.pure_eq_ok, Prod.mk.injEq] at hexec
    obtain ⟨s, hs, ⟨s', it⟩, hinsert, rfl, -⟩ := hexec
    obtain ⟨t, -, rfl, ht, -, -⟩ := hw.object hs
    exact h.update ht (insertMultiple_accounts hinsert)
  | find i key =>
    simp only [World.exec, Except.bind_eq_ok, Except.pure_eq_ok, Prod.mk.injEq] at hexec
    obtain ⟨s, -, it, -, rfl, -⟩ := hexec
    exact h
  | equalRange i key =>
    simp only [World.exec, Except.bind_eq_ok, Except.pure_eq_ok, Prod.mk.injEq] at hexec
    obtain ⟨s, -, range, -, rfl, -⟩ := hexec
    exact h
  | eraseRange i first last =>
    simp only [World.exec, Except.bind_eq_ok, Except.pure_eq_ok, Prod.mk.injEq] at hexec
    obtain ⟨s, hs, s', herase, rfl, -⟩ := hexec
    obtain ⟨t, cs, rfl, ht, -, howns⟩ := hw.object hs
    exact h.update ht (erase_accounts howns herase)
  | eraseIter i it =>
    simp only [World.exec, Except.bind_eq_ok, Except.pure_eq_ok, Prod.mk.injEq] at hexec
    obtain ⟨s, hs, s', herase, rfl, -⟩ := hexec
    obtain ⟨t, cs, rfl, ht, -, howns⟩ := hw.object hs
    exact h.update ht (eraseIter_accounts howns herase)
  | eraseKey i key =>
    simp only [World.exec, Except.bind_eq_ok, Except.pure_eq_ok, Prod.mk.injEq] at hexec
    obtain ⟨s, hs, s', herase, rfl, -⟩ := hexec
    obtain ⟨t, cs, rfl, ht, -, howns⟩ := hw.object hs
    exact h.update ht (eraseKey_accounts howns herase)
  | clear i =>
    simp only [World.exec, Except.bind_eq_ok, Except.pure_eq_ok, Prod.mk.injEq] at hexec
    obtain ⟨s, hs, s', hclear, rfl, -⟩ := hexec
    obtain ⟨t, cs, rfl, ht, -, howns⟩ := hw.object hs
    exact h.update ht (clear_accounts howns hclear).1

/-- The nodes which are there are those of the chains. -/
lemma live_eq (h : w.Accounted) (hw : w.Owns css) : w.mem.live = (css.flatMap addrs).toFinset := by
  have hobject {i : Nat} {cs : List (List (Addr × V))} (hcs : css[i]? = some cs) :
      ∃ t, w.objects[i]? = some t ∧ HashToolbox.Owns ⟨w.mem, t⟩ cs := by
    obtain ⟨t, -, ht, howns⟩ := hw.exists_object hcs
    exact ⟨t, ht, howns⟩
  symm
  refine Finset.eq_of_subset_of_card_le (fun a ha => ?_) ?_
  · obtain ⟨cs, hcs, ha⟩ := List.mem_flatMap.mp (List.mem_toFinset.mp ha)
    obtain ⟨i, hi⟩ := List.mem_iff_getElem?.mp hcs
    obtain ⟨t, -, howns⟩ := hobject hi
    obtain ⟨x, hx, rfl⟩ := List.mem_map.mp ha
    obtain ⟨q, hq⟩ := howns.rep.node_of_mem hx
    exact Memory.mem_live.mpr ⟨_, hq⟩
  · have hnodup : (css.flatMap addrs).Nodup := by
      refine List.nodup_flatMap.mpr ⟨fun cs hcs => ?_, List.pairwise_iff_getElem.mpr ?_⟩
      · obtain ⟨i, hi⟩ := List.mem_iff_getElem?.mp hcs
        obtain ⟨t, -, howns⟩ := hobject hi
        exact howns.rep.nodup
      · intro i k hi hk hik a ha ha'
        exact hw.disjoint hik.ne (List.getElem?_eq_getElem hi) (List.getElem?_eq_getElem hk) a ha ha'
    have hcounts : w.objects.map Table.nodeCount = css.map fun cs => (addrs cs).length := by
      refine List.ext_getElem? fun i => ?_
      rw [List.getElem?_map, List.getElem?_map]
      cases hcs : css[i]? with
      | none =>
        rw [List.getElem?_eq_none (hw.length_eq ▸ List.getElem?_eq_none_iff.mp hcs)]
        rfl
      | some cs =>
        obtain ⟨t, ht, howns⟩ := hobject hcs
        have hcount : t.nodeCount = cs.flatten.length := howns.count
        rw [ht, Option.map_some, Option.map_some, hcount, addrs, List.length_map]
    rw [List.toFinset_card_of_nodup hnodup, List.length_flatMap, h.live, hcounts]

end World.Accounted

/-- In every run the nodes are counted. -/
lemma Run.accounted {ops : List (Op K V)} {w : World V} (h : Run tr ops w) : w.Accounted := by
  induction h with
  | start => exact .empty
  | step hrun hexec ih =>
    obtain ⟨css, howns, -⟩ := hrun.owns
    exact ih.exec howns hexec

/-- The destructors of the tables at the end of the program, the last table first. -/
def World.destroyObjects (tr : Traits K V) : Nat → World V → Except Fault (World V)
  | 0, w => .ok w
  | n + 1, w => do
    let w ← w.destroyLast tr
    destroyObjects tr n w

lemma World.Accounted.destroyObjects {w : World V} {css : List (List (List (Addr × V)))}
    (h : w.Accounted) (hw : w.Owns css) :
    ∃ w', World.destroyObjects tr css.length w = .ok w' ∧ w'.mem.live = ∅ := by
  induction css using List.reverseRecOn generalizing w with
  | nil => exact ⟨w, rfl, by rw [h.live_eq hw]; rfl⟩
  | append_singleton css cs ih =>
    obtain ⟨w₁, hdestroy, hw₁⟩ := hw.destroyLast
    obtain ⟨w', hok, hlive⟩ := ih (h.destroyLast hw hdestroy) hw₁
    refine ⟨w', ?_, hlive⟩
    rw [List.length_append, List.length_singleton, World.destroyObjects, hdestroy, Except.ok_bind,
      hok]

/-- In every run the nodes which are there are those that the tables store, and each table has less
than 64 nodes for a bucket, unless it has no bucket. Whenever the program ends, the destructors of
the tables free all nodes, each of them once. -/
theorem nodes_accounted {ops : List (Op K V)} {w : World V} (h : Run tr ops w) :
    (∀ a, (∃ n, w.mem.node a = some n) ↔ ∃ t ∈ w.objects, Stored ⟨w.mem, t⟩ a) ∧
    (∀ t ∈ w.objects, t.bucket = [] ∧ t.nodeCount = 0 ∨ t.nodeCount < 64 * t.bucket.length) ∧
    ∃ w', World.destroyObjects tr w.objects.length w = .ok w' ∧ ∀ a, w'.mem.node a = none := by
  obtain ⟨css, howns, -⟩ := h.owns
  have haccounted := h.accounted
  refine ⟨fun a => ?_, fun t ht => (haccounted.sized t ht).load, ?_⟩
  · rw [← Memory.mem_live, haccounted.live_eq howns, List.mem_toFinset, List.mem_flatMap]
    constructor
    · rintro ⟨cs, hcs, ha⟩
      obtain ⟨i, hi⟩ := List.mem_iff_getElem?.mp hcs
      obtain ⟨t, -, ht, hown⟩ := howns.exists_object hi
      exact ⟨t, List.mem_of_getElem? ht, hown.rep.stored_iff.mpr ha⟩
    · rintro ⟨t, ht, ha⟩
      obtain ⟨i, hi⟩ := List.mem_iff_getElem?.mp ht
      have hlt : i < css.length := howns.length_eq ▸ (List.getElem?_eq_some_iff.mp hi).1
      have hcs := List.getElem?_eq_getElem hlt
      exact ⟨css[i], List.getElem_mem hlt, (howns.each hi hcs).rep.stored_iff.mp ha⟩
  · obtain ⟨w', hok, hlive⟩ := World.Accounted.destroyObjects haccounted howns
    rw [howns.length_eq]
    refine ⟨w', hok, fun a => Option.eq_none_iff_forall_ne_some.mpr fun n hn => ?_⟩
    have ha := Memory.mem_live.mpr ⟨n, hn⟩
    rw [hlive] at ha
    cases ha

/-- A table with a value is copied over another one, and is emptied. -/
def copyRun : List (Op Nat (Nat × Nat)) :=
  [.construct, .clear 0, .insertUnique 0 (3, 1), .copy 0, .insertMultiple 1 (3, 2), .assign 0 1,
    .eraseKey 0 3]

theorem nodes_accounted_copy : ∃ w, Run Traits.natMap copyRun w ∧ w.objects.length = 2 ∧
    ∃ w', World.destroyObjects Traits.natMap 2 w = .ok w' ∧ ∀ a, w'.mem.node a = none := by
  have hrun : Run Traits.natMap copyRun _ := .of_execAll rfl
  exact ⟨_, hrun, rfl, (nodes_accounted hrun).2.2⟩

end HashToolbox

end Utilmm
