import Utilmm.Hash.Iteration
import Utilmm.Hash.Placement

/-!
# Jumps

The operator `+=` computes the bucket of its element once and then counts on from there, whereas `++`
computes the bucket anew at every element. They agree since each element is in the bucket of its
hash, in whatever way the table came about. This takes a `Hash` which respects `Equal`: a table
which grows moves a run of equal keys by the hash of its first one.
-/

namespace Utilmm

namespace HashToolbox

variable {K V : Type} {tr : Traits K V}

/-- The operator `++`, applied so many times but never to `end`. -/
def steps (tr : Traits K V) (s : State V) : Nat → Option Addr → Except Fault (Option Addr)
  | 0, it => return it
  | _ + 1, none => return endIter
  | n + 1, some a => do
    let it ← advance tr s (some a) 1
    steps tr s n it

/-- From each stored element, a jump arrives where so many single steps arrive. -/
def JumpsAgree (tr : Traits K V) (s : State V) : Prop :=
  ∀ a, Stored s a → ∀ n, ∃ it, advance tr s (some a) n = .ok it ∧ steps tr s n (some a) = .ok it

/-- From the first node of the chains `cs` of the buckets, the operator `++` goes through these
chains one after the other and then arrives at `end`. They hold every stored element once. -/
def EnumeratesBuckets (tr : Traits K V) (s : State V) : Prop :=
  ∃ cs, Rep s.mem s.table.bucket cs ∧ Walk tr s (addrs cs).head? (addrs cs) ∧ (addrs cs).Nodup ∧
    ∀ a, a ∈ addrs cs ↔ Stored s a

/-! ### Placed tables -/

section

variable {s : State V} {cs : List (List (Addr × V))}

lemma steps_eq (h : Rep s.mem s.table.bucket cs) (hplaced : Placed tr cs)
    {xs ys : List (Addr × V)} (hcs : cs.flatten = xs ++ ys) (n : Nat) :
    steps tr s n (ys.head?.map Prod.fst) = .ok (ys[n]?.map Prod.fst) := by
  induction n generalizing xs ys with
  | zero =>
    rw [List.head?_eq_getElem?]
    rfl
  | succ n ih =>
    cases ys with
    | nil => rfl
    | cons y ys =>
      rw [List.head?_cons, Option.map_some, steps, advance_eq h hplaced hcs, Except.ok_bind,
        List.getElem?_cons_succ]
      exact @ih (xs ++ [y]) ys (by rw [hcs]; simp)

lemma Placed.jumpsAgree (hplaced : Placed tr cs) (h : Rep s.mem s.table.bucket cs) :
    JumpsAgree tr s := by
  intro a ha n
  obtain ⟨x, hx, rfl⟩ := List.mem_map.mp (h.stored_iff.mp ha)
  obtain ⟨xs, ys, hcs⟩ := List.append_of_mem hx
  exact ⟨_, advance_eq_getElem? h hplaced hcs n, steps_eq h hplaced hcs n⟩

lemma Walk.of_cells (h : Rep s.mem s.table.bucket cs) (hplaced : Placed tr cs)
    {xs ys : List (Addr × V)} (hcs : cs.flatten = xs ++ ys) :
    Walk tr s (ys.head?.map Prod.fst) (ys.map Prod.fst) := by
  induction ys generalizing xs with
  | nil => exact .stop
  | cons y ys ih => exact .next (advance_eq h hplaced hcs) (@ih (xs ++ [y]) (by rw [hcs]; simp))

lemma Placed.enumeratesBuckets (hplaced : Placed tr cs) (h : Rep s.mem s.table.bucket cs) :
    EnumeratesBuckets tr s := by
  refine ⟨cs, h, ?_, h.nodup, fun a => h.stored_iff.symm⟩
  rw [addrs, List.head?_map]
  exact Walk.of_cells h hplaced (List.nil_append _).symm

end

/-! ### Every table is placed -/

lemma Edit.placed (htr : tr.Respects) {cs cs' : List (List (Addr × V))} (h : Edit tr cs cs')
    (hplaced : Placed tr cs) : Placed tr cs' := by
  cases h with
  | keep => exact hplaced
  | add hpl a avg size =>
    have hcs := hpl.chains_eq
    subst hcs
    exact (hplaced.add hpl a).sized htr avg size
  | remove _ gone avg size => exact (hplaced.without gone).sized htr avg size

/-- What one operation preserves. -/
lemma World.Owns.exec_placed (htr : tr.Respects) {w w' : World V}
    {css : List (List (List (Addr × V)))} {op : Op K V} {r : Result} (h : w.Owns css)
    (hplaced : ∀ cs ∈ css, Placed tr cs) (hexec : w.exec tr op = .ok (w', r)) :
    ∃ css', w'.Owns css' ∧ ∀ cs ∈ css', Placed tr cs := by
  have hset : ∀ (i : Nat) {cs : List (List (Addr × V))}, Placed tr cs →
      ∀ ds ∈ css.set i cs, Placed tr ds := by
    intro i cs hcs ds hds
    rcases List.mem_or_eq_of_mem_set hds with hds | rfl
    · exact hplaced ds hds
    · exact hcs
  have hpush : ∀ {cs : List (List (Addr × V))}, Placed tr cs → ∀ ds ∈ css ++ [cs], Placed tr ds :=
    fun hcs => List.forall_mem_append.mpr ⟨hplaced, List.forall_mem_singleton.mpr hcs⟩
  have hedited : ∀ i, op.edited = some i → ∃ css', w'.Owns css' ∧ ∀ cs ∈ css', Placed tr cs := by
    intro i hop
    obtain ⟨t, s', cs, hcs, rfl, cs', hup, hedit⟩ := h.exec_edits hop hexec
    exact ⟨_, h.update hcs hup, hset i (hedit.placed htr (hplaced cs (List.mem_of_getElem? hcs)))⟩
  cases op with
  | construct =>
    cases hexec
    exact ⟨_, h.construct, hpush (placed_nil tr)⟩
  | copy j =>
    obtain ⟨cs, cs', hcs, h', hval⟩ := h.exec_copy hexec
    exact ⟨_, h', hpush ((hplaced cs (List.mem_of_getElem? hcs)).of_values hval)⟩
  | assign i j =>
    obtain ⟨cs, cs', hcs, h', hval⟩ := h.exec_assign hexec
    exact ⟨_, h', hset i ((hplaced cs (List.mem_of_getElem? hcs)).of_values hval)⟩
  | swap i j =>
    obtain ⟨ci, cj, hci, hcj, h'⟩ := h.exec_swap hexec
    refine ⟨_, h', fun ds hds => ?_⟩
    rcases List.mem_or_eq_of_mem_set hds with hds | rfl
    · exact hset i (hplaced cj (List.mem_of_getElem? hcj)) ds hds
    · exact hplaced ds (List.mem_of_getElem? hci)
  | insertUnique i v => exact hedited i rfl
  | insertMultiple i v => exact hedited i rfl
  | find i key =>
    simp only [World.exec, Except.bind_eq_ok, Except.pure_eq_ok, Prod.mk.injEq] at hexec
    obtain ⟨s, -, it, -, rfl, -⟩ := hexec
    exact ⟨css, h, hplaced⟩
  | equalRange i key =>
    simp only [World.exec, Except.bind_eq_ok, Except.pure_eq_ok, Prod.mk.injEq] at hexec
    obtain ⟨s, -, range, -, rfl, -⟩ := hexec
    exact ⟨css, h, hplaced⟩
  | eraseRange i first last => exact hedited i rfl
  | eraseIter i it => exact hedited i rfl
  | eraseKey i key => exact hedited i rfl
  | clear i => exact ⟨_, h.exec_clear hexec, hset i (placed_replicate tr 1)⟩

/-- In every run each table is placed. -/
lemma Run.placed (htr : tr.Respects) {ops : List (Op K V)} {w : World V} (h : Run tr ops w) :
    ∃ css, w.Owns css ∧ ∀ cs ∈ css, Placed tr cs := by
  induction h with
  | start => exact ⟨[], .empty, by simp⟩
  | step _ hexec ih =>
    obtain ⟨css, howns, hplaced⟩ := ih
    exact howns.exec_placed htr hplaced hexec

/-- In every run, jumps are repeated steps, and the steps go through all the buckets in order. -/
theorem jumps_agree (htr : tr.Respects) {ops : List (Op K V)} {w : World V} {i : Nat} {t : Table}
    (h : Run tr ops w) (ht : w.objects[i]? = some t) :
    JumpsAgree tr ⟨w.mem, t⟩ ∧ EnumeratesBuckets tr ⟨w.mem, t⟩ := by
  obtain ⟨css, howns, hplaced⟩ := h.placed htr
  have hi : i < css.length := howns.length_eq ▸ (List.getElem?_eq_some_iff.mp ht).1
  have hrep := (howns.each ht (List.getElem?_eq_getElem hi)).rep
  have hcs := hplaced _ (List.getElem_mem hi)
  exact ⟨hcs.jumpsAgree hrep, hcs.enumeratesBuckets hrep⟩

theorem jumps_agree_copy :
    JumpsAgree Traits.natMap ⟨⟨[some ⟨(5, 50), some 1⟩, some ⟨(6, 60), none⟩,
        some ⟨(5, 50), some 3⟩, some ⟨(6, 60), none⟩]⟩, ⟨[some 2], 0, 2, 64⟩⟩ ∧
      EnumeratesBuckets Traits.natMap ⟨⟨[some ⟨(5, 50), some 1⟩, some ⟨(6, 60), none⟩,
        some ⟨(5, 50), some 3⟩, some ⟨(6, 60), none⟩]⟩, ⟨[some 2], 0, 2, 64⟩⟩ :=
  @jumps_agree _ _ Traits.natMap Traits.natMap_lawful.respects
    [.construct, .clear 0, .insertUnique 0 (5, 50), .insertUnique 0 (6, 60), .copy 0]
    ⟨⟨[some ⟨(5, 50), some 1⟩, some ⟨(6, 60), none⟩, some ⟨(5, 50), some 3⟩,
      some ⟨(6, 60), none⟩]⟩, [⟨[some 0], 1, 2, 64⟩, ⟨[some 2], 0, 2, 64⟩]⟩ 1 _
    (Run.of_execAll rfl) rfl

end HashToolbox

end Utilmm
