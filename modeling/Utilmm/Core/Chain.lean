import Mathlib.Tactic

/-!
# Linked nodes in memory

The nodes of singly linked lists live in a memory of cells, which are allocated one after the other
and never used again once they are freed. `Seg m p l q` says that following the links from `p`
visits the cells `l` and then arrives at `q`.
-/

universe u

/-- The address of a node. -/
abbrev Addr := Nat

/-- A node of a linked list. -/
structure Node (V : Type u) where
  /-- The value stored. -/
  val : V
  /-- The next node, if any. -/
  next : Option Addr
deriving DecidableEq

/-- A memory: what has been allocated at each address, `none` where it was freed. -/
structure Memory (V : Type u) where
  /-- The cells, by address. -/
  cells : List (Option (Node V))
deriving DecidableEq

namespace Memory

variable {V : Type u}

/-- The memory in which nothing was allocated. -/
def empty : Memory V := ⟨[]⟩

/-- The number of addresses used so far. -/
def size (m : Memory V) : Nat := m.cells.length

/-- The node at an address. -/
def node (m : Memory V) (a : Addr) : Option (Node V) := m.cells[a]?.join

/-- A new node, whose address is the size of the memory. -/
def alloc (m : Memory V) (n : Node V) : Memory V := ⟨m.cells ++ [some n]⟩

/-- Overwrite the node at an address. -/
def write (m : Memory V) (a : Addr) (n : Node V) : Memory V := ⟨m.cells.set a (some n)⟩

/-- Free the node at an address. -/
def free (m : Memory V) (a : Addr) : Memory V := ⟨m.cells.set a none⟩

@[simp] lemma size_alloc (m : Memory V) (n : Node V) : (m.alloc n).size = m.size + 1 := by
  simp [size, alloc]

@[simp] lemma size_write (m : Memory V) (a : Addr) (n : Node V) : (m.write a n).size = m.size := by
  simp [size, write]

@[simp] lemma size_free (m : Memory V) (a : Addr) : (m.free a).size = m.size := by
  simp [size, free]

lemma lt_size_of_node {m : Memory V} {a : Addr} {n : Node V} (h : m.node a = some n) :
    a < m.size := by
  rw [node, Option.join_eq_some_iff, List.getElem?_eq_some_iff] at h
  obtain ⟨ha, -⟩ := h
  exact ha

lemma node_alloc_self (m : Memory V) (n : Node V) : (m.alloc n).node m.size = some n := by
  simp [node, alloc, size]

lemma node_alloc_of_lt {m : Memory V} {a : Addr} (n : Node V) (h : a < m.size) :
    (m.alloc n).node a = m.node a := by
  rw [node, alloc, List.getElem?_append_left h]
  rfl

lemma node_write_self {m : Memory V} {a : Addr} (n : Node V) (h : a < m.size) :
    (m.write a n).node a = some n := by
  rw [node, write, List.getElem?_set_self h]
  rfl

lemma node_write_of_ne {m : Memory V} {a b : Addr} (n : Node V) (h : a ≠ b) :
    (m.write a n).node b = m.node b := by
  rw [node, write, List.getElem?_set_ne h]
  rfl

lemma node_free_of_ne {m : Memory V} {a b : Addr} (h : a ≠ b) :
    (m.free a).node b = m.node b := by
  rw [node, free, List.getElem?_set_ne h]
  rfl

/-- From `m` to `m'` only the nodes at the addresses `l` and new ones have changed. -/
structure Frame (m m' : Memory V) (l : List Addr) : Prop where
  size_le : m.size ≤ m'.size
  node_eq : ∀ {a : Addr}, a < m.size → a ∉ l → m'.node a = m.node a

lemma Frame.refl (m : Memory V) (l : List Addr) : Frame m m l := ⟨le_rfl, fun _ _ => rfl⟩

lemma Frame.trans {m₁ m₂ m₃ : Memory V} {l l' : List Addr} (h : Frame m₁ m₂ l)
    (h' : Frame m₂ m₃ l') (hl : ∀ a ∈ l', a ∈ l ∨ m₁.size ≤ a) : Frame m₁ m₃ l := by
  refine ⟨h.size_le.trans h'.size_le, fun {a} ha hal => ?_⟩
  rw [h'.node_eq (ha.trans_le h.size_le), h.node_eq ha hal]
  intro hal'
  rcases hl a hal' with h₁ | h₁
  · exact hal h₁
  · exact not_lt.mpr h₁ ha

/-! ### The nodes which are there -/

/-- The addresses which are allocated and not freed. -/
def live (m : Memory V) : Finset Addr := (Finset.range m.size).filter fun a => (m.node a).isSome

variable {m m' : Memory V} {a : Addr} {n n' : Node V}

lemma mem_live : a ∈ m.live ↔ ∃ n, m.node a = some n := by
  rw [live, Finset.mem_filter, Finset.mem_range, Option.isSome_iff_exists]
  exact and_iff_right_of_imp fun ⟨_, hn⟩ => lt_size_of_node hn

@[simp] lemma live_empty : (empty : Memory V).live = ∅ := rfl

lemma node_size (m : Memory V) : m.node m.size = none := by
  rw [node, size, List.getElem?_eq_none le_rfl]
  rfl

lemma node_free_self (m : Memory V) (a : Addr) : (m.free a).node a = none := by
  rw [node, free, List.getElem?_set, if_pos rfl]
  split_ifs <;> rfl

lemma card_live_alloc (m : Memory V) (n : Node V) : (m.alloc n).live.card = m.live.card + 1 := by
  have hlive : (m.alloc n).live = insert m.size m.live := by
    ext b
    rw [Finset.mem_insert, mem_live, mem_live]
    by_cases hb : b < m.size
    · rw [node_alloc_of_lt n hb, or_iff_right hb.ne]
    · constructor
      · rintro ⟨n', hn'⟩
        have hlt := lt_size_of_node hn'
        rw [size_alloc] at hlt
        exact Or.inl (le_antisymm (Nat.lt_succ_iff.mp hlt) (not_lt.mp hb))
      · rintro (rfl | ⟨n', hn'⟩)
        · exact ⟨n, node_alloc_self m n⟩
        · exact absurd (lt_size_of_node hn') hb
  rw [hlive, Finset.card_insert_of_notMem]
  rw [mem_live, node_size]
  exact fun ⟨_, h⟩ => by cases h

lemma live_write (h : m.node a = some n) (n' : Node V) : (m.write a n').live = m.live := by
  ext b
  rw [mem_live, mem_live]
  by_cases hab : a = b
  · subst hab
    rw [node_write_self n' (lt_size_of_node h), h]
    exact ⟨fun _ => ⟨n, rfl⟩, fun _ => ⟨n', rfl⟩⟩
  · rw [node_write_of_ne n' hab]

lemma card_live_free (h : m.node a = some n) : (m.free a).live.card + 1 = m.live.card := by
  have hlive : (m.free a).live = m.live.erase a := by
    ext b
    rw [Finset.mem_erase, mem_live, mem_live]
    by_cases hab : a = b
    · subst hab
      rw [node_free_self]
      exact ⟨fun ⟨_, h⟩ => (by cases h), fun h => absurd rfl h.1⟩
    · rw [node_free_of_ne hab]
      exact (and_iff_right (Ne.symm hab)).symm
  rw [hlive, Finset.card_erase_add_one (mem_live.mpr ⟨n, h⟩)]

/-- Nodes go away from the given addresses only. -/
lemma Frame.card_live_le {l : List Addr} (h : Frame m m' l) :
    m.live.card ≤ m'.live.card + l.length := by
  have hsub : m.live ⊆ m'.live ∪ l.toFinset := by
    intro a ha
    obtain ⟨n, hn⟩ := mem_live.mp ha
    rw [Finset.mem_union, List.mem_toFinset, mem_live]
    by_cases hal : a ∈ l
    · exact Or.inr hal
    · exact Or.inl ⟨n, by rw [h.node_eq (lt_size_of_node hn) hal, hn]⟩
  calc m.live.card ≤ (m'.live ∪ l.toFinset).card := Finset.card_le_card hsub
    _ ≤ m'.live.card + l.toFinset.card := Finset.card_union_le _ _
    _ ≤ m'.live.card + l.length := Nat.add_le_add_left (List.toFinset_card_le l) _

end Memory

/-! ### Segments -/

/-- Following the links from `p` visits the cells `l` and arrives at `q`. -/
def Seg {V : Type u} (m : Memory V) : Option Addr → List (Addr × V) → Option Addr → Prop
  | p, [], q => p = q
  | p, (a, v) :: l, q => ∃ r, p = some a ∧ m.node a = some ⟨v, r⟩ ∧ Seg m r l q

namespace Seg

variable {V : Type u} {m m' : Memory V} {p q r : Option Addr} {a : Addr} {v : V}
  {l l₁ l₂ : List (Addr × V)}

@[simp] lemma nil_iff : Seg m p [] q ↔ p = q := Iff.rfl

lemma cons_iff : Seg m p ((a, v) :: l) q ↔ ∃ r, p = some a ∧ m.node a = some ⟨v, r⟩ ∧ Seg m r l q :=
  Iff.rfl

lemma append_iff : Seg m p (l₁ ++ l₂) q ↔ ∃ r, Seg m p l₁ r ∧ Seg m r l₂ q := by
  induction l₁ generalizing p with
  | nil => simp
  | cons x l₁ ih =>
    obtain ⟨a, v⟩ := x
    simp only [List.cons_append, cons_iff, ih]
    constructor
    · rintro ⟨r, hp, hn, r', h₁, h₂⟩
      exact ⟨r', ⟨r, hp, hn, h₁⟩, h₂⟩
    · rintro ⟨r', ⟨r, hp, hn, h₁⟩, h₂⟩
      exact ⟨r, hp, hn, r', h₁, h₂⟩

/-- Only the cells of a segment matter. -/
lemma congr (h : Seg m p l q) (hm : ∀ a ∈ l.map Prod.fst, m'.node a = m.node a) :
    Seg m' p l q := by
  induction l generalizing p with
  | nil => exact h
  | cons x l ih =>
    obtain ⟨a, v⟩ := x
    obtain ⟨r, hp, hn, h⟩ := h
    refine ⟨r, hp, ?_, ih h fun b hb => hm b (List.mem_cons_of_mem _ hb)⟩
    rw [hm a (by simp), hn]

/-- A null-terminated segment starts at its first cell. -/
lemma start_eq (h : Seg m p l none) : p = l.head?.map Prod.fst := by
  cases l with
  | nil => exact h
  | cons x l =>
    obtain ⟨r, hp, -, -⟩ := h
    exact hp

lemma node_of_mem {x : Addr × V} (h : Seg m p l q) (hx : x ∈ l) :
    ∃ r, m.node x.1 = some ⟨x.2, r⟩ := by
  induction l generalizing p with
  | nil => cases hx
  | cons y l ih =>
    obtain ⟨r, -, hn, h⟩ := h
    rcases List.mem_cons.mp hx with rfl | hx
    · exact ⟨r, hn⟩
    · exact ih h hx

/-- A cell links to the one behind it. -/
lemma node_append (h : Seg m p (l₁ ++ (a, v) :: l₂) none) :
    m.node a = some ⟨v, l₂.head?.map Prod.fst⟩ := by
  obtain ⟨q, -, r, -, hn, hr⟩ := append_iff.mp h
  rw [hn, hr.start_eq]

/-- No cell of a null-terminated segment is followed by its first cell. -/
lemma next_of_mem {x : Addr × V} {n : Node V} (h : Seg m p l none) (hx : x ∈ l)
    (hn : m.node x.1 = some n) : n.next = none ∨ ∃ y ∈ l.tail, n.next = some y.1 := by
  induction l generalizing p with
  | nil => cases hx
  | cons y l ih =>
    obtain ⟨r, -, hy, h⟩ := h
    rcases List.mem_cons.mp hx with rfl | hx
    · rw [hy, Option.some.injEq] at hn
      subst hn
      rw [h.start_eq]
      cases l with
      | nil => exact Or.inl rfl
      | cons z l => exact Or.inr ⟨z, List.mem_cons_self, rfl⟩
    · cases ih h hx with
      | inl hnone => exact Or.inl hnone
      | inr hsome =>
        obtain ⟨z, hz, hnext⟩ := hsome
        exact Or.inr ⟨z, List.mem_of_mem_tail hz, hnext⟩

/-- The cells of a null-terminated segment are determined by its start. -/
lemma unique (h₁ : Seg m p l₁ none) (h₂ : Seg m p l₂ none) : l₁ = l₂ := by
  induction l₁ generalizing p l₂ with
  | nil =>
    cases l₂ with
    | nil => rfl
    | cons y l₂ =>
      obtain ⟨r, hp, -, -⟩ := h₂
      rw [nil_iff.mp h₁] at hp
      cases hp
  | cons x l₁ ih =>
    obtain ⟨a, v⟩ := x
    obtain ⟨r, rfl, hn, h₁⟩ := h₁
    cases l₂ with
    | nil => cases nil_iff.mp h₂
    | cons y l₂ =>
      obtain ⟨b, w⟩ := y
      obtain ⟨r', hp, hn', h₂⟩ := h₂
      cases hp
      rw [hn] at hn'
      cases hn'
      rw [ih h₁ h₂]

lemma addr_lt_size (h : Seg m p l q) (ha : a ∈ l.map Prod.fst) : a < m.size := by
  obtain ⟨x, hx, rfl⟩ := List.mem_map.mp ha
  obtain ⟨r, hn⟩ := h.node_of_mem hx
  exact Memory.lt_size_of_node hn

/-- The link out of the last cell can be redirected. -/
lemma relink (h : Seg m p (l ++ [(a, v)]) r) (ha : a ∉ l.map Prod.fst) :
    Seg (m.write a ⟨v, q⟩) p (l ++ [(a, v)]) q := by
  rw [append_iff] at h ⊢
  obtain ⟨s, h₁, r', hs, hn, -⟩ := h
  refine ⟨s, h₁.congr fun b hb => ?_, q, hs, ?_, rfl⟩
  · apply Memory.node_write_of_ne
    rintro rfl
    exact ha hb
  · exact Memory.node_write_self _ (Memory.lt_size_of_node hn)

/-- The cells with another value at an address. -/
def setVal (a : Addr) (v : V) (l : List (Addr × V)) : List (Addr × V) :=
  l.map fun x => if x.1 = a then (a, v) else x

lemma map_fst_setVal (a : Addr) (v : V) (l : List (Addr × V)) :
    (setVal a v l).map Prod.fst = l.map Prod.fst := by
  rw [setVal, List.map_map]
  refine List.map_congr_left fun x _ => ?_
  by_cases hx : x.1 = a <;> simp [hx]

/-- The value of a node can be written. -/
lemma write_val {v' : V} (h : Seg m p l q) (hn : m.node a = some ⟨v, r⟩) :
    Seg (m.write a ⟨v', r⟩) p (setVal a v' l) q := by
  induction l generalizing p with
  | nil => exact h
  | cons x l ih =>
    obtain ⟨b, w⟩ := x
    obtain ⟨r', hp, hb, h⟩ := h
    rw [setVal, List.map_cons]
    by_cases hba : b = a
    · subst hba
      rw [hn, Option.some.injEq, Node.mk.injEq] at hb
      rw [if_pos rfl]
      exact ⟨r, hp, Memory.node_write_self _ (Memory.lt_size_of_node hn), hb.2 ▸ ih h⟩
    · rw [if_neg hba]
      exact ⟨r', hp, (Memory.node_write_of_ne _ (Ne.symm hba)).trans hb, ih h⟩

end Seg

/-- There are not more cells than addresses. -/
lemma length_le_of_nodup {l : List Addr} {n : Nat} (h : l.Nodup) (hlt : ∀ a ∈ l, a < n) :
    l.length ≤ n := by
  have hsub : l ⊆ List.range n := fun a ha => List.mem_range.mpr (hlt a ha)
  simpa using (List.subperm_of_subset h hsub).length_le
