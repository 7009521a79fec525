import Utilmm.Hash.Copy
import Utilmm.Hash.Insertion
import Utilmm.Hash.Removal

/-!
# Programs with tables

A program constructs tables and operates on them by the public operations of `table`, `hash_map` and
`hash_set`. All the tables share one memory. Whatever the parameters `Hash` and `Equal` are, no two
tables ever share a node, and each has counted its nodes.
-/

namespace Utilmm

namespace HashToolbox

variable {K V : Type}

/-- The memory and the tables which were constructed in it. -/
structure World (V : Type) where
  /-- The memory. -/
  mem : Memory V
  /-- The tables. -/
  objects : List Table

/-- The public operations. Tables are given by their numbers. -/
inductive Op (K V : Type)
  | construct
  | copy (j : Nat)
  | assign (i j : Nat)
  | swap (i j : Nat)
  | insertUnique (i : Nat) (v : V)
  | insertMultiple (i : Nat) (v : V)
  | find (i : Nat) (key : K)
  | equalRange (i : Nat) (key : K)
  | eraseRange (i : Nat) (first last : Option Addr)
  | eraseIter (i : Nat) (it : Option Addr)
  | eraseKey (i : Nat) (key : K)
  | clear (i : Nat)

/-- What an operation returns. -/
inductive Result
  | done
  | found (it : Option Addr)
  | range (first last : Option Addr)
  | inserted (it : Except Fault (Option Addr)) (new : Bool)
  | position (it : Except Fault (Option Addr))

namespace World

/-- A world without tables. -/
def empty : World V := ⟨Memory.empty, []⟩

/-- The table `i`. -/
def object (w : World V) (i : Nat) : Except Fault (State V) :=
  match w.objects[i]? with
  | some t => .ok ⟨w.mem, t⟩
  | none => .error .noObject

/-- The table `i` is changed. -/
def update (w : World V) (i : Nat) (s : State V) : World V := ⟨s.mem, w.objects.set i s.table⟩

/-- A new table is a copy of the table `j`. -/
def copyObject (w : World V) (j : Nat) : Except Fault (World V) := do
  let other ← w.object j
  let s ← HashToolbox.copy w.mem other.table
  return ⟨s.mem, w.objects ++ [s.table]⟩

/-- The tables `i` and `j` are exchanged. -/
def swapObjects (w : World V) (i j : Nat) : Except Fault (World V) := do
  let s ← w.object i
  let other ← w.object j
  let (t, t') := s.table.swap other.table
  return ⟨w.mem, (w.objects.set i t).set j t'⟩

/-- The destructor of the table which was constructed last. -/
def destroyLast (tr : Traits K V) (w : World V) : Except Fault (World V) := do
  let s ← w.object (w.objects.length - 1)
  let s ← HashToolbox.clear tr s
  return ⟨s.mem, w.objects.dropLast⟩

/-- `operator=` swaps the table `i` with a copy of the table `j`, which it then destroys. -/
def assignObject (tr : Traits K V) (w : World V) (i j : Nat) : Except Fault (World V) := do
  let _ ← w.object i
  let w' ← w.copyObject j
  let w' ← w'.swapObjects i w.objects.length
  w'.destroyLast tr

/-- Run an operation. -/
def exec (tr : Traits K V) (w : World V) : Op K V → Except Fault (World V × Result)
  | .construct => return (⟨w.mem, w.objects ++ [Table.new]⟩, .done)
  | .copy j => do
    let w ← w.copyObject j
    return (w, .done)
  | .assign i j => do
    let w ← w.assignObject tr i j
    return (w, .done)
  | .swap i j => do
    let w ← w.swapObjects i j
    return (w, .done)
  | .insertUnique i v => do
    let s ← w.object i
    let (s, it, new) ← HashToolbox.insertUnique tr s v
    return (w.update i s, .inserted it new)
  | .insertMultiple i v => do
    let s ← w.object i
    let (s, it) ← HashToolbox.insertMultiple tr s v
    return (w.update i s, .position it)
  | .find i key => do
    let s ← w.object i
    let it ← HashToolbox.find tr s key
    return (w, .found it)
  | .equalRange i key => do
    let s ← w.object i
    let (first, last) ← HashToolbox.equalRange tr s key
    return (w, .range first last)
  | .eraseRange i first last => do
    let s ← w.object i
    let s ← HashToolbox.erase tr s first last
    return (w.update i s, .done)
  | .eraseIter i it => do
    let s ← w.object i
    let s ← HashToolbox.eraseIter tr s it
    return (w.update i s, .done)
  | .eraseKey i key => do
    let s ← w.object i
    let s ← HashToolbox.eraseKey tr s key
    return (w.update i s, .done)
  | .clear i => do
    let s ← w.object i
    let s ← HashToolbox.clear tr s
    return (w.update i s, .done)

end World

/-- A program has run the operations `ops` and has arrived at `w`. -/
inductive Run (tr : Traits K V) : List (Op K V) → World V → Prop
  | start : Run tr [] World.empty
  | step {ops : List (Op K V)} {w w' : World V} {op : Op K V} {r : Result} (h : Run tr ops w)
      (hexec : w.exec tr op = .ok (w', r)) : Run tr (ops ++ [op]) w'

/-- Run some operations one after the other. -/
def World.execAll (tr : Traits K V) (w : World V) : List (Op K V) → Except Fault (World V)
  | [] => .ok w
  | op :: ops => do
    let (w, _) ← w.exec tr op
    w.execAll tr ops

lemma Run.append {tr : Traits K V} {ops ops' : List (Op K V)} {w w' : World V} (h : Run tr ops w)
    (hexec : w.execAll tr ops' = .ok w') : Run tr (ops ++ ops') w' := by
  induction ops' generalizing ops w with
  | nil =>
    cases hexec
    rwa [List.append_nil]
  | cons op ops' ih =>
    rw [World.execAll, Except.bind_eq_ok] at hexec
    obtain ⟨⟨w₁, r⟩, hop, hexec⟩ := hexec
    rw [List.append_cons]
    exact ih (h.step hop) hexec

/-- What the interpreter computes is a run. -/
lemma Run.of_execAll {tr : Traits K V} {ops : List (Op K V)} {w : World V}
    (h : World.empty.execAll tr ops = .ok w) : Run tr ops w := Run.start.append h

/-! ### Ownership -/

/-- Two elements of a list are exchanged. -/
lemma getElem?_swap {α : Type} {l : List α} {i j : Nat} {a b : α} (ha : l[i]? = some a)
    (hb : l[j]? = some b) (k : Nat) : ((l.set i b).set j a)[k]? = l[Equiv.swap i j k]? := by
  have hi : i < l.length := (List.getElem?_eq_some_iff.mp ha).1
  have hj : j < l.length := (List.getElem?_eq_some_iff.mp hb).1
  by_cases hjk : j = k
  · subst hjk
    rw [List.getElem?_set_self (by simpa using hj), Equiv.swap_apply_right, ha]
  · rw [List.getElem?_set_ne hjk]
    by_cases hik : i = k
    · subst hik
      rw [List.getElem?_set_self hi, Equiv.swap_apply_left, hb]
    · rw [List.getElem?_set_ne hik, Equiv.swap_apply_of_ne_of_ne (Ne.symm hik) (Ne.symm hjk)]

/-- Each table owns its chains, and no node is owned twice. -/
structure World.Owns (w : World V) (css : List (List (List (Addr × V)))) : Prop where
  length_eq : w.objects.length = css.length
  each : ∀ {i : Nat} {t : Table} {cs : List (List (Addr × V))}, w.objects[i]? = some t →
    css[i]? = some cs → HashToolbox.Owns ⟨w.mem, t⟩ cs
  disjoint : ∀ {i j : Nat} {cs cs' : List (List (Addr × V))}, i ≠ j → css[i]? = some cs →
    css[j]? = some cs' → ∀ a ∈ addrs cs, a ∉ addrs cs'

namespace World.Owns

variable {tr : Traits K V} {w w' : World V} {css : List (List (List (Addr × V)))}

lemma empty : (World.empty : World V).Owns [] := by
  refine ⟨rfl, fun h => ?_, fun _ h => ?_⟩
  · cases h
  · cases h

/-- The tables which exist own chains. -/
lemma object (h : w.Owns css) {i : Nat} {s : State V} (hs : w.object i = .ok s) :
    ∃ t cs, s = ⟨w.mem, t⟩ ∧ w.objects[i]? = some t ∧ css[i]? = some cs ∧
      HashToolbox.Owns ⟨w.mem, t⟩ cs := by
  rw [World.object] at hs
  cases ht : w.objects[i]? with
  | none => rw [ht] at hs; cases hs
  | some t =>
    rw [ht] at hs
    cases hs
    have hlt : i < css.length := by
      rw [← h.length_eq]
      exact (List.getElem?_eq_some_iff.mp ht).1
    have hcs := List.getElem?_eq_getElem hlt
    exact ⟨t, css[i], rfl, rfl, hcs, h.each ht hcs⟩

/-- What owns chains exists. -/
lemma exists_object (h : w.Owns css) {i : Nat} {cs : List (List (Addr × V))}
    (hcs : css[i]? = some cs) :
    ∃ t, w.object i = .ok ⟨w.mem, t⟩ ∧ w.objects[i]? = some t ∧
      HashToolbox.Owns ⟨w.mem, t⟩ cs := by
  have hi : i < w.objects.length := h.length_eq ▸ (List.getElem?_eq_some_iff.mp hcs).1
  have ht := List.getElem?_eq_getElem hi
  refine ⟨w.objects[i], ?_, ht, h.each ht hcs⟩
  rw [World.object, ht]

/-- One table is changed. -/
lemma update (h : w.Owns css) {i : Nat} {t : Table} {s' : State V}
    {cs cs' : List (List (Addr × V))} (hcs : css[i]? = some cs)
    (hup : Updates ⟨w.mem, t⟩ s' cs cs') : (w.update i s').Owns (css.set i cs') := by
  have hlt : i < css.length := (List.getElem?_eq_some_iff.mp hcs).1
  have hlt' : i < w.objects.length := h.length_eq ▸ hlt
  have hsep : ∀ {j : Nat} {ds : List (List (Addr × V))}, i ≠ j → css[j]? = some ds →
      (∀ a ∈ addrs ds, a < w.mem.size) ∧ ∀ a ∈ addrs ds, a ∉ addrs cs' := by
    intro j ds hij hds
    have hj : j < w.objects.length := h.length_eq ▸ (List.getElem?_eq_some_iff.mp hds).1
    have hbound : ∀ a ∈ addrs ds, a < w.mem.size := fun a ha =>
      (h.each (List.getElem?_eq_getElem hj) hds).rep.addr_lt_size ha
    refine ⟨hbound, fun a ha hmem => ?_⟩
    rcases hup.owned a hmem with hmem | hmem
    · exact h.disjoint (Ne.symm hij) hds hcs a ha hmem
    · exact not_lt.mpr hmem (hbound a ha)
  refine ⟨by simpa [World.update] using h.length_eq, ?_, ?_⟩
  · intro j u ds hu hds
    rw [World.update] at hu
    by_cases hij : i = j
    · subst hij
      rw [List.getElem?_set_self hlt] at hds
      rw [List.getElem?_set_self hlt'] at hu
      cases hds
      cases hu
      exact hup.owns
    · rw [List.getElem?_set_ne hij] at hu hds
      have hold := h.each hu hds
      refine ⟨hold.rep.congr fun a ha => ?_, hold.count⟩
      exact hup.frame.node_eq ((hsep hij hds).1 a ha) fun hmem =>
        h.disjoint (Ne.symm hij) hds hcs a ha hmem
  · intro j k ds es hjk hds hes
    by_cases hij : i = j
    · subst hij
      rw [List.getElem?_set_self hlt] at hds
      rw [List.getElem?_set_ne hjk] at hes
      cases hds
      exact fun a ha hmem => (hsep hjk hes).2 a hmem ha
    · rw [List.getElem?_set_ne hij] at hds
      by_cases hik : i = k
      · subst hik
        rw [List.getElem?_set_self hlt] at hes
        cases hes
        exact (hsep hij hds).2
      · rw [List.getElem?_set_ne hik] at hes
        exact h.disjoint hjk hds hes

/-- A new table with new nodes is added. -/
lemma push (h : w.Owns css) {s' : State V} {cs' : List (List (Addr × V))}
    (hs' : HashToolbox.Owns s' cs') (hframe : w.mem.Frame s'.mem [])
    (hfresh : ∀ a ∈ addrs cs', w.mem.size ≤ a) :
    (World.mk s'.mem (w.objects ++ [s'.table])).Owns (css ++ [cs']) := by
  have hbound : ∀ {i : Nat} {ds : List (List (Addr × V))}, css[i]? = some ds →
      ∀ a ∈ addrs ds, a < w.mem.size := by
    intro i ds hds a ha
    have hi : i < w.objects.length := h.length_eq ▸ (List.getElem?_eq_some_iff.mp hds).1
    exact (h.each (List.getElem?_eq_getElem hi) hds).rep.addr_lt_size ha
  refine ⟨by simp [h.length_eq], fun {i t ds} ht hds => ?_, fun {i j ds es} hij hds hes => ?_⟩
  · rcases lt_or_ge i css.length with hi | hi
    · rw [List.getElem?_append_left hi] at hds
      rw [List.getElem?_append_left (h.length_eq ▸ hi)] at ht
      have hold := h.each ht hds
      refine ⟨hold.rep.congr fun a ha => ?_, hold.count⟩
      exact hframe.node_eq (hbound hds a ha) List.not_mem_nil
    · rw [List.getElem?_append_right hi, List.getElem?_singleton] at hds
      rw [List.getElem?_append_right (h.length_eq ▸ hi), h.length_eq,
        List.getElem?_singleton] at ht
      split_ifs at hds ht
      cases hds
      cases ht
      exact hs'
  · rcases lt_or_ge i css.length with hi | hi
    · rw [List.getElem?_append_left hi] at hds
      rcases lt_or_ge j css.length with hj | hj
      · rw [List.getElem?_append_left hj] at hes
        exact h.disjoint hij hds hes
      · rw [List.getElem?_append_right hj, List.getElem?_singleton] at hes
        split_ifs at hes
        cases hes
        exact fun a ha hmem => not_lt.mpr (hfresh a hmem) (hbound hds a ha)
    · rw [List.getElem?_append_right hi, List.getElem?_singleton] at hds
      split_ifs at hds with hi'
      cases hds
      rcases lt_or_ge j css.length with hj | hj
      · rw [List.getElem?_append_left hj] at hes
        exact fun a ha hmem => not_lt.mpr (hfresh a ha) (hbound hes a hmem)
      · rw [List.getElem?_append_right hj, List.getElem?_singleton] at hes
        split_ifs at hes with hj'
        omega

/-- The tables are rearranged, or some of them are forgotten. -/
lemma reindex (h : w.Owns css) {objects : List Table} {css' : List (List (List (Addr × V)))}
    {f : Nat → Nat} (hf : Function.Injective f) (hlen : objects.length = css'.length)
    (hobjects : ∀ {i : Nat} {t : Table}, objects[i]? = some t → w.objects[f i]? = some t)
    (hcss : ∀ {i : Nat} {cs : List (List (Addr × V))}, css'[i]? = some cs →
      css[f i]? = some cs) : (World.mk w.mem objects).Owns css' :=
  ⟨hlen, fun ht hcs => h.each (hobjects ht) (hcss hcs),
    fun hij hcs hcs' => h.disjoint (hf.ne hij) (hcss hcs) (hcss hcs')⟩

/-! ### Construction and assignment -/

lemma construct (h : w.Owns css) :
    (World.mk w.mem (w.objects ++ [Table.new])).Owns (css ++ [[]]) := by
  apply @push V w css h ⟨w.mem, Table.new⟩ [] ⟨Rep.nil _, rfl⟩ (.refl _ _)
  intro a ha
  cases ha

lemma copyObject (h : w.Owns css) {j : Nat} {cs : List (List (Addr × V))}
    (hcs : css[j]? = some cs) :
    ∃ w' cs', w.copyObject j = .ok w' ∧ w'.Owns (css ++ [cs']) ∧ values cs' = values cs ∧
      w'.objects.length = w.objects.length + 1 := by
  obtain ⟨t, ht, -, howns⟩ := h.exists_object hcs
  obtain ⟨s', cs', hcopy, hrep', hval, hfresh, hframe, hcount, -⟩ := copy_eq howns.rep
  have hlen : cs'.flatten.length = cs.flatten.length := by
    have hsum := congrArg (fun vss => (List.flatten vss).length) hval
    simpa [values, ← List.map_flatten] using hsum
  refine ⟨⟨s'.mem, w.objects ++ [s'.table]⟩, cs', ?_, ?_, hval, by simp⟩
  · simp only [World.copyObject, ht, hcopy, bind, Except.bind]
    rfl
  · apply h.push ⟨hrep', ?_⟩ hframe hfresh
    rw [hcount, hlen]
    exact howns.count

lemma swapObjects (h : w.Owns css) {i j : Nat} {ci cj : List (List (Addr × V))}
    (hci : css[i]? = some ci) (hcj : css[j]? = some cj) :
    ∃ w', w.swapObjects i j = .ok w' ∧ w'.Owns ((css.set i cj).set j ci) ∧
      w'.objects.length = w.objects.length := by
  obtain ⟨t, hs, ht, -⟩ := h.exists_object hci
  obtain ⟨t', hs', ht', -⟩ := h.exists_object hcj
  refine ⟨⟨w.mem, (w.objects.set i t').set j t⟩, ?_, ?_, by simp⟩
  · simp only [World.swapObjects, hs, hs', bind, Except.bind]
    rfl
  · apply h.reindex (Equiv.swap i j).injective
    · simpa using h.length_eq
    · intro k u hk
      rwa [getElem?_swap ht ht'] at hk
    · intro k cs hk
      rwa [getElem?_swap hci hcj] at hk

lemma destroyLast {cs : List (List (Addr × V))} (h : w.Owns (css ++ [cs])) :
    ∃ w', w.destroyLast tr = .ok w' ∧ w'.Owns css := by
  have hlast : (css ++ [cs])[css.length]? = some cs := by simp
  obtain ⟨t, hs, -, howns⟩ := h.exists_object hlast
  obtain ⟨s', hclear, hup⟩ := @clear_eq K V tr ⟨w.mem, t⟩ cs howns.rep
  have hlen : w.objects.length = css.length + 1 := by
    rw [h.length_eq, List.length_append, List.length_singleton]
  refine ⟨⟨s'.mem, w.objects.dropLast⟩, ?_, ?_⟩
  · simp only [World.destroyLast, hlen, Nat.add_sub_cancel, hs, hclear, bind, Except.bind]
    rfl
  · apply (h.update hlast hup).reindex Function.injective_id
    · rw [List.length_dropLast, hlen, Nat.add_sub_cancel]
    · intro k u hk
      rw [List.getElem?_dropLast, hlen, Nat.add_sub_cancel] at hk
      split_ifs at hk with hlt
      change (w.objects.set css.length s'.table)[k]? = some u
      rw [List.getElem?_set_ne hlt.ne', hk]
    · intro k ds hk
      have hlt : k < css.length := (List.getElem?_eq_some_iff.mp hk).1
      rw [id_eq, List.getElem?_set_ne hlt.ne', List.getElem?_append_left hlt, hk]

lemma assignObject (h : w.Owns css) {i j : Nat} {ci cj : List (List (Addr × V))}
    (hci : css[i]? = some ci) (hcj : css[j]? = some cj) :
    ∃ w' cs', w.assignObject tr i j = .ok w' ∧ w'.Owns (css.set i cs') ∧
      values cs' = values cj := by
  obtain ⟨t, hs, -, -⟩ := h.exists_object hci
  obtain ⟨w₁, cs', hcopy, h₁, hval, hlen₁⟩ := h.copyObject hcj
  have hi : i < css.length := (List.getElem?_eq_some_iff.mp hci).1
  have hlast : (css ++ [cs'])[css.length]? = some cs' := by simp
  obtain ⟨w₂, hswap, h₂, hlen₂⟩ := h₁.swapObjects (by rwa [List.getElem?_append_left hi]) hlast
  have hcss : ((css ++ [cs']).set i cs').set css.length ci = css.set i cs' ++ [ci] := by
    rw [List.set_append_left _ _ hi, List.set_append_right _ _ (by simp)]
    simp
  rw [hcss] at h₂
  obtain ⟨w₃, hdestroy, h₃⟩ := @destroyLast K V tr _ _ _ h₂
  refine ⟨w₃, cs', ?_, h₃, hval⟩
  rw [h.length_eq.symm] at hswap
  simp only [World.assignObject, hs, hcopy, hswap, hdestroy, bind, Except.bind]

end World.Owns

/-! ### Runs -/

/-- Whether there is a bucket. -/
def hasBucket (cs : List (List (Addr × V))) : Bool := decide (0 < cs.length)

/-- Which tables have a bucket after an operation. -/
def Op.primes : Op K V → List Bool → List Bool
  | .construct, p => p ++ [false]
  | .copy j, p => p ++ p[j]?.toList
  | .assign i j, p => p[j]?.elim p (p.set i)
  | .swap i j, p => p[i]?.elim p fun a => p[j]?.elim p fun b => (p.set i b).set j a
  | .clear i, p => p.set i true
  | _, p => p

/-- Which tables have a bucket after some operations: those which were cleared and those which were
copied from, assigned or swapped with such a table. -/
def primed (ops : List (Op K V)) : List Bool := ops.foldl (fun p op => op.primes p) []

variable {tr : Traits K V}

lemma findNode_pos {s : State V} {key : K} {l : Link} (h : findNode tr s key = .ok l) :
    0 < s.table.bucket.length := by
  rw [findNode, Except.bind_eq_ok] at h
  obtain ⟨i, hi, -⟩ := h
  rw [hashKey] at hi
  split_ifs at hi with hlen
  exact Nat.pos_of_ne_zero hlen

/-- The table is still a table, and it has a bucket if and only if it had one. -/
def Keeps (s s' : State V) (cs : List (List (Addr × V))) : Prop :=
  ∃ cs', Updates s s' cs cs' ∧ hasBucket cs' = hasBucket cs

/-- What an operation on one table makes of its chains: it puts a cell where its key is found, or it
takes some cells out, and then the table may grow. -/
inductive Edit (tr : Traits K V) (cs : List (List (Addr × V))) : List (List (Addr × V)) → Prop
  | keep : Edit tr cs cs
  | add {pl : Place V} {v : V} (hpl : pl.Finds tr (tr.getKey v) cs) (a : Addr) (avg size : Nat) :
      Edit tr cs (sized tr avg size (pl.add (a, v)))
  | remove (hlen : 0 < cs.length) (gone : List Addr) (avg size : Nat) :
      Edit tr cs (sized tr avg size (without gone cs))

/-- The table is still a table, and its chains were edited. -/
def Edits (tr : Traits K V) (s s' : State V) (cs : List (List (Addr × V))) : Prop :=
  ∃ cs', Updates s s' cs cs' ∧ Edit tr cs cs'

lemma Edit.hasBucket_eq {cs cs' : List (List (Addr × V))} (h : Edit tr cs cs') :
    hasBucket cs' = hasBucket cs := by
  have hpos : ∀ {cs cs' : List (List (Addr × V))}, 0 < cs.length → 0 < cs'.length →
      hasBucket cs' = hasBucket cs := by
    intro cs cs' h h'
    rw [hasBucket, hasBucket, decide_eq_true h, decide_eq_true h']
  cases h with
  | keep => rfl
  | @add pl v hpl a avg size =>
    have hcs := hpl.chains_eq
    subst hcs
    apply hpos
    · simp [Place.chains, Place.fill]
    · apply length_sized_pos
      simp [Place.add, Place.fill]
  | remove hlen gone avg size =>
    apply hpos hlen
    apply length_sized_pos
    rwa [length_without]

lemma Edits.refl {s : State V} {cs : List (List (Addr × V))} (h : Owns s cs) : Edits tr s s cs :=
  ⟨cs, .refl h, .keep⟩

lemma Edits.keeps {s s' : State V} {cs : List (List (Addr × V))} (h : Edits tr s s' cs) :
    Keeps s s' cs := by
  obtain ⟨cs', hup, hedit⟩ := h
  exact ⟨cs', hup, hedit.hasBucket_eq⟩

lemma Inserted.edits {s s' : State V} {it : Except Fault (Option Addr)} {pl : Place V} {v : V}
    {cs : List (List (Addr × V))} (h : Inserted tr s s' it pl v)
    (hpl : pl.Finds tr (tr.getKey v) cs) : Edits tr s s' cs := by
  have hcs := hpl.chains_eq
  subst hcs
  exact ⟨_, h.updates, .add hpl _ _ _⟩

lemma insertMultiple_edits {s s' : State V} {cs : List (List (Addr × V))} {v : V}
    {it : Except Fault (Option Addr)} (h : Owns s cs)
    (hok : insertMultiple tr s v = .ok (s', it)) : Edits tr s s' cs := by
  have hfind := hok
  rw [insertMultiple, Except.bind_eq_ok] at hfind
  obtain ⟨l, hl, -⟩ := hfind
  obtain ⟨pl, hpl, s₁, it₁, hok₁, hins⟩ :=
    @insertMultiple_eq K V tr s cs h (h.rep.length_eq ▸ findNode_pos hl) v
  rw [hok, Except.ok.injEq, Prod.mk.injEq] at hok₁
  rw [← hok₁.1] at hins
  exact hins.edits hpl

lemma insertUnique_edits {s s' : State V} {cs : List (List (Addr × V))} {v : V}
    {it : Except Fault (Option Addr)} {new : Bool} (h : Owns s cs)
    (hok : insertUnique tr s v = .ok (s', it, new)) : Edits tr s s' cs := by
  have hfind := hok
  rw [insertUnique, Except.bind_eq_ok] at hfind
  obtain ⟨l, hl, -⟩ := hfind
  obtain ⟨pl, hpl, ⟨x, rest, -, hok₁⟩ | ⟨-, s₁, it₁, hok₁, hins⟩⟩ :=
    @insertUnique_eq K V tr s cs h (h.rep.length_eq ▸ findNode_pos hl) v
  · rw [hok, Except.ok.injEq, Prod.mk.injEq] at hok₁
    rw [hok₁.1]
    exact Edits.refl h
  · rw [hok, Except.ok.injEq, Prod.mk.injEq] at hok₁
    rw [← hok₁.1] at hins
    exact hins.edits hpl

lemma erase_edits {s s' : State V} {cs : List (List (Addr × V))} {first last : Option Addr}
    (h : Owns s cs) (hok : erase tr s first last = .ok s') : Edits tr s s' cs := by
  by_cases hne : first = last
  · rw [erase, if_pos hne] at hok
    cases hok
    exact Edits.refl h
  have hfind := hok
  rw [erase, if_neg hne, Except.bind_eq_ok] at hfind
  obtain ⟨n, -, hfind⟩ := hfind
  rw [Except.bind_eq_ok] at hfind
  obtain ⟨hval, -, hfind⟩ := hfind
  rw [Except.bind_eq_ok] at hfind
  obtain ⟨l, hl, -⟩ := hfind
  have hlen : 0 < cs.length := h.rep.length_eq ▸ findNode_pos hl
  obtain rfl | ⟨gone, hup⟩ := erase_updates h hlen hok
  · exact Edits.refl h
  · exact ⟨_, hup, .remove hlen gone _ _⟩

lemma eraseIter_edits {s s' : State V} {cs : List (List (Addr × V))} {it : Option Addr}
    (h : Owns s cs) (hok : eraseIter tr s it = .ok s') : Edits tr s s' cs := by
  rw [eraseIter] at hok
  split_ifs at hok
  · rw [Except.bind_eq_ok] at hok
    obtain ⟨j, -, hok⟩ := hok
    exact erase_edits h hok
  · cases hok
    exact Edits.refl h

lemma eraseKey_edits {s s' : State V} {cs : List (List (Addr × V))} {key : K}
    (h : Owns s cs) (hok : eraseKey tr s key = .ok s') : Edits tr s s' cs := by
  rw [eraseKey, Except.bind_eq_ok] at hok
  obtain ⟨i, -, hok⟩ := hok
  exact eraseIter_edits h hok

/-- A table is changed and keeps its buckets. -/
lemma World.Owns.update_keeps {w : World V} {css : List (List (List (Addr × V)))} (h : w.Owns css)
    {i : Nat} {t : Table} {s' : State V} {cs : List (List (Addr × V))} (hcs : css[i]? = some cs)
    (hkeeps : Keeps ⟨w.mem, t⟩ s' cs) :
    ∃ css', (w.update i s').Owns css' ∧ css'.map hasBucket = css.map hasBucket := by
  obtain ⟨cs', hup, hbucket⟩ := hkeeps
  refine ⟨css.set i cs', h.update hcs hup, ?_⟩
  rw [List.map_set, hbucket]
  apply List.ext_getElem?
  intro k
  by_cases hik : i = k
  · subst hik
    rw [List.getElem?_set_self (by simpa using (List.getElem?_eq_some_iff.mp hcs).1),
      List.getElem?_map, hcs]
    rfl
  · rw [List.getElem?_set_ne hik]

lemma hasBucket_of_values {cs cs' : List (List (Addr × V))} (h : values cs' = values cs) :
    hasBucket cs' = hasBucket cs := by
  have hlen := congrArg List.length h
  rw [values, values, List.length_map, List.length_map] at hlen
  rw [hasBucket, hasBucket, hlen]

/-! ### What an operation does to the chains -/

/-- The table which an operation edits. -/
def Op.edited : Op K V → Option Nat
  | .insertUnique i _ => some i
  | .insertMultiple i _ => some i
  | .eraseRange i _ _ => some i
  | .eraseIter i _ => some i
  | .eraseKey i _ => some i
  | _ => none

namespace World.Owns

variable {w w' : World V} {css : List (List (List (Addr × V)))} {i j : Nat} {r : Result}

lemma exec_copy (h : w.Owns css) (hexec : w.exec tr (.copy j) = .ok (w', r)) :
    ∃ cs cs', css[j]? = some cs ∧ w'.Owns (css ++ [cs']) ∧ values cs' = values cs := by
  simp only [World.exec, Except.bind_eq_ok, Except.pure_eq_ok, Prod.mk.injEq] at hexec
  obtain ⟨w₁, hcopy, rfl, -⟩ := hexec
  have hobj := hcopy
  rw [World.copyObject, Except.bind_eq_ok] at hobj
  obtain ⟨s, hs, -⟩ := hobj
  obtain ⟨t, cs, -, -, hcs, -⟩ := h.object hs
  obtain ⟨w₂, cs', hcopy', h', hval, -⟩ := h.copyObject hcs
  rw [hcopy, Except.ok.injEq] at hcopy'
  exact ⟨cs, cs', hcs, hcopy' ▸ h', hval⟩

lemma exec_assign (h : w.Owns css) (hexec : w.exec tr (.assign i j) = .ok (w', r)) :
    ∃ cs cs', css[j]? = some cs ∧ w'.Owns (css.set i cs') ∧ values cs' = values cs := by
  simp only [World.exec, Except.bind_eq_ok, Except.pure_eq_ok, Prod.mk.injEq] at hexec
  obtain ⟨w₁, hassign, rfl, -⟩ := hexec
  have hobj := hassign
  simp only [World.assignObject, World.copyObject, Except.bind_eq_ok] at hobj
  obtain ⟨s, hs, w₂, ⟨s', hs', -⟩, -⟩ := hobj
  obtain ⟨-, ci, -, -, hci, -⟩ := h.object hs
  obtain ⟨-, cj, -, -, hcj, -⟩ := h.object hs'
  obtain ⟨w₃, cs', hassign', h', hval⟩ := @World.Owns.assignObject K V tr _ _ h i j ci cj hci hcj
  rw [hassign, Except.ok.injEq] at hassign'
  exact ⟨cj, cs', hcj, hassign' ▸ h', hval⟩

lemma exec_swap (h : w.Owns css) (hexec : w.exec tr (.swap i j) = .ok (w', r)) :
    ∃ ci cj, css[i]? = some ci ∧ css[j]? = some cj ∧ w'.Owns ((css.set i cj).set j ci) := by
  simp only [World.exec, Except.bind_eq_ok, Except.pure_eq_ok, Prod.mk.injEq] at hexec
  obtain ⟨w₁, hswap, rfl, -⟩ := hexec
  have hobj := hswap
  simp only [World.swapObjects, Except.bind_eq_ok] at hobj
  obtain ⟨s, hs, s', hs', -⟩ := hobj
  obtain ⟨-, ci, -, -, hci, -⟩ := h.object hs
  obtain ⟨-, cj, -, -, hcj, -⟩ := h.object hs'
  obtain ⟨w₂, hswap', h', -⟩ := h.swapObjects hci hcj
  rw [hswap, Except.ok.injEq] at hswap'
  exact ⟨ci, cj, hci, hcj, hswap' ▸ h'⟩

lemma exec_clear (h : w.Owns css) (hexec : w.exec tr (.clear i) = .ok (w', r)) :
    w'.Owns (css.set i [[]]) := by
  simp only [World.exec, Except.bind_eq_ok, Except.pure_eq_ok, Prod.mk.injEq] at hexec
  obtain ⟨s, hs, s', hclear, rfl, -⟩ := hexec
  obtain ⟨t, cs, rfl, -, hcs, howns⟩ := h.object hs
  obtain ⟨s₁, hclear', hup⟩ := @clear_eq K V tr _ cs howns.rep
  rw [hclear, Except.ok.injEq] at hclear'
  exact h.update hcs (hclear' ▸ hup)

lemma exec_edits {op : Op K V} (h : w.Owns css) (hop : op.edited = some i)
    (hexec : w.exec tr op = .ok (w', r)) : ∃ t s' cs, css[i]? = some cs ∧ w' = w.update i s' ∧
      Edits tr ⟨w.mem, t⟩ s' cs := by
  cases op with
  | insertUnique i v =>
    cases hop
    simp only [World.exec, Except.bind_eq_ok, Except.pure_eq_ok, Prod.mk.injEq] at hexec
    obtain ⟨s, hs, ⟨s', it, new⟩, hinsert, rfl, -⟩ := hexec
    obtain ⟨t, cs, rfl, -, hcs, howns⟩ := h.object hs
    exact ⟨t, s', cs, hcs, rfl, insertUnique_edits howns hinsert⟩
  | insertMultiple i v =>
    cases hop
    simp only [World.exec, Except.bind_eq_ok, Except.pure_eq_ok, Prod.mk.injEq] at hexec
    obtain ⟨s, hs, ⟨s', it⟩, hinsert, rfl, -⟩ := hexec
    obtain ⟨t, cs, rfl, -, hcs, howns⟩ := h.object hs
    exact ⟨t, s', cs, hcs, rfl, insertMultiple_edits howns hinsert⟩
  | eraseRange i first last =>
    cases hop
    simp only [World.exec, Except.bind_eq_ok, Except.pure_eq_ok, Prod.mk.injEq] at hexec
    obtain ⟨s, hs, s', herase, rfl, -⟩ := hexec
    obtain ⟨t, cs, rfl, -, hcs, howns⟩ := h.object hs
    exact ⟨t, s', cs, hcs, rfl, erase_edits howns herase⟩
  | eraseIter i it =>
    cases hop
    simp only [World.exec, Except.bind_eq_ok, Except.pure_eq_ok, Prod.mk.injEq] at hexec
    obtain ⟨s, hs, s', herase, rfl, -⟩ := hexec
    obtain ⟨t, cs, rfl, -, hcs, howns⟩ := h.object hs
    exact ⟨t, s', cs, hcs, rfl, eraseIter_edits howns herase⟩
  | eraseKey i key =>
    cases hop
    simp only [World.exec, Except.bind_eq_ok, Except.pure_eq_ok, Prod.mk.injEq] at hexec
    obtain ⟨s, hs, s', herase, rfl, -⟩ := hexec
    obtain ⟨t, cs, rfl, -, hcs, howns⟩ := h.object hs
    exact ⟨t, s', cs, hcs, rfl, eraseKey_edits howns herase⟩
  | _ => cases hop

end World.Owns

/-- What one operation preserves. -/
lemma World.Owns.exec {w w' : World V} {css : List (List (List (Addr × V)))} {op : Op K V}
    {r : Result} (h : w.Owns css) (hexec : w.exec tr op = .ok (w', r)) :
    ∃ css', w'.Owns css' ∧ css'.map hasBucket = op.primes (css.map hasBucket) := by
  have hedited : ∀ i, op.edited = some i →
      ∃ css', w'.Owns css' ∧ css'.map hasBucket = css.map hasBucket := by
    intro i hop
    obtain ⟨t, s', cs, hcs, rfl, hedits⟩ := h.exec_edits hop hexec
    exact h.update_keeps hcs hedits.keeps
  cases op with
  | construct =>
    cases hexec
    exact ⟨css ++ [[]], h.construct, by rw [List.map_append]; rfl⟩
  | copy j =>
    obtain ⟨cs, cs', hcs, h', hval⟩ := h.exec_copy hexec
    refine ⟨css ++ [cs'], h', ?_⟩
    rw [List.map_append, Op.primes, List.getElem?_map, hcs, List.map_singleton,
      hasBucket_of_values hval]
    rfl
  | assign i j =>
    obtain ⟨cs, cs', hcs, h', hval⟩ := h.exec_assign hexec
    refine ⟨css.set i cs', h', ?_⟩
    rw [List.map_set, Op.primes, List.getElem?_map, hcs, hasBucket_of_values hval]
    rfl
  | swap i j =>
    obtain ⟨ci, cj, hci, hcj, h'⟩ := h.exec_swap hexec
    refine ⟨_, h', ?_⟩
    rw [List.map_set, List.map_set, Op.primes, List.getElem?_map, hci, List.getElem?_map, hcj]
    rfl
  | insertUnique i v => exact hedited i rfl
  | insertMultiple i v => exact hedited i rfl
  | find i key =>
    simp only [World.exec, Except.bind_eq_ok, Except.pure_eq_ok, Prod.mk.injEq] at hexec
    obtain ⟨s, -, it, -, rfl, -⟩ := hexec
    exact ⟨css, h, rfl⟩
  | equalRange i key =>
    simp only [World.exec, Except.bind_eq_ok, Except.pure_eq_ok, Prod.mk.injEq] at hexec
    obtain ⟨s, -, range, -, rfl, -⟩ := hexec
    exact ⟨css, h, rfl⟩
  | eraseRange i first last => exact hedited i rfl
  | eraseIter i it => exact hedited i rfl
  | eraseKey i key => exact hedited i rfl
  | clear i =>
    refine ⟨css.set i [[]], h.exec_clear hexec, ?_⟩
    rw [List.map_set]
    rfl

/-- In every run each table owns its chains. -/
lemma Run.owns {ops : List (Op K V)} {w : World V} (h : Run tr ops w) :
    ∃ css, w.Owns css ∧ css.map hasBucket = primed ops := by
  induction h with
  | start => exact ⟨[], .empty, rfl⟩
  | @step ops w w' op r _ hexec ih =>
    obtain ⟨css, howns, hprimed⟩ := ih
    obtain ⟨css', howns', hprimed'⟩ := howns.exec hexec
    refine ⟨css', howns', ?_⟩
    rw [hprimed', hprimed, primed, primed, List.foldl_append]
    rfl

/-- The tables which exist have a bucket just when `primed` says so. -/
lemma Run.primed_object {ops : List (Op K V)} {w : World V} (h : Run tr ops w) (i : Nat) :
    (∃ t, w.object i = .ok ⟨w.mem, t⟩ ∧ (primed ops)[i]? = some (decide (0 < t.bucket.length))) ∨
      (w.object i = .error .noObject ∧ (primed ops)[i]? = none) := by
  obtain ⟨css, howns, hprimed⟩ := h.owns
  rw [← hprimed, List.getElem?_map]
  cases hcs : css[i]? with
  | none =>
    have hlen : w.objects.length ≤ i := by
      rw [howns.length_eq]
      exact List.getElem?_eq_none_iff.mp hcs
    refine Or.inr ⟨?_, rfl⟩
    rw [World.object, List.getElem?_eq_none hlen]
  | some cs =>
    obtain ⟨t, ht, -, hown⟩ := howns.exists_object hcs
    refine Or.inl ⟨t, ht, ?_⟩
    have hlen : t.bucket.length = cs.length := hown.rep.length_eq
    rw [hlen]
    rfl

end HashToolbox

end Utilmm
