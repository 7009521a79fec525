import Utilmm.ConfigFile.Scan
import Utilmm.ConfigFile.ValueLists
import Utilmm.Core.Forest
import Utilmm.Core.Runs

/-!
# The lifetime of `config_set`s

A `config_set` deletes its children. Clients make sets and files, put sets into others and delete
what they have. An object is named by its place in the order in which the objects are made, as in the
reader; its name is not used again when it is gone. Memory does not run out.
-/

namespace Utilmm

namespace ConfigSet

/-- `m_values.clear()` -/
def clearValues (s : ConfigSet) : ConfigSet := { s with values := ∅ }

/-- `m_children.erase(m_children.begin())` -/
def eraseFirst (s : ConfigSet) : ConfigSet :=
  { s with children := ⟨s.children.entries.tail, s.children.sorted.tail⟩ }

/-- The pointers in `m_children`. -/
def pointers (s : ConfigSet) : List SetId := s.children.entries.map Prod.snd

@[simp] lemma pointers_new (parent : Option SetId) : (new parent).pointers = [] := rfl

@[simp] lemma pointers_clearValues (s : ConfigSet) : s.clearValues.pointers = s.pointers := rfl

@[simp] lemma pointers_erase (s : ConfigSet) (name : Str) : (s.erase name).pointers = s.pointers :=
  rfl

@[simp] lemma pointers_insert (s : ConfigSet) (name value : Str) :
    (s.insert name value).pointers = s.pointers := rfl

@[simp] lemma pointers_eraseFirst (s : ConfigSet) : s.eraseFirst.pointers = s.pointers.tail :=
  List.map_tail

@[simp] lemma pointers_insertList (s : ConfigSet) (name : Str) (values : List Str) :
    (s.insertList name values).pointers = s.pointers := by
  induction values generalizing s with
  | nil => rfl
  | cons value values ih => exact ih (s.insert name value)

@[simp] lemma pointers_set (s : ConfigSet) (name value : Str) :
    (s.set name value).pointers = s.pointers := rfl

@[simp] lemma pointers_setList (s : ConfigSet) (name : Str) (values : List Str) :
    (s.setList name values).pointers = s.pointers :=
  pointers_insertList (s.erase name) name values

lemma perm_pointers_insertChild (s : ConfigSet) (name : Str) (child : SetId) :
    (child :: s.pointers).Perm (s.insertChild name child).pointers :=
  ((Multimap.perm_insertEntry (name, child) s.children.entries).map Prod.snd).symm

end ConfigSet

namespace ConfigFile.Lifetime

/-! ### The objects -/

/-- The objects which have been made, and those which have been deleted. -/
structure Store where
  sets : List ConfigSet
  freed : List SetId

inductive Fault
  /-- An object was used or deleted which is not there. -/
  | dead (id : SetId)
  /-- The destructors do not come to an end. -/
  | endless
  deriving DecidableEq, Repr

namespace Store

def get? (s : Store) (id : SetId) : Option ConfigSet := if id ∈ s.freed then none else s.sets[id]?

/-- What an object deletes. -/
def heap (s : Store) (id : SetId) : Option (List SetId) := (s.get? id).map ConfigSet.pointers

/-- `new config_set(parent)` -/
def make (s : Store) (parent : Option SetId) : Store :=
  { s with sets := s.sets ++ [ConfigSet.new parent] }

def modify (s : Store) (id : SetId) (f : ConfigSet → ConfigSet) : Except Fault Store :=
  match s.get? id with
  | none => .error (.dead id)
  | some _ => .ok { s with sets := s.sets.modify id f }

/-- Give back the memory of an object. -/
def free (s : Store) (id : SetId) : Except Fault Store :=
  match s.get? id with
  | none => .error (.dead id)
  | some _ => .ok { s with freed := id :: s.freed }

/-- The loop of `clear`, with the destructors of the children. -/
def clearChildren : Nat → Store → SetId → Except Fault Store
  | 0, _, _ => .error .endless
  | fuel + 1, s, id =>
    match s.get? id with
    | none => .error (.dead id)
    | some set =>
      match set.pointers with
      | [] => .ok s
      | child :: _ => do
        -- the destructor of the child is its `clear`
        let s ← s.modify child ConfigSet.clearValues
        let s ← clearChildren fuel s child
        let s ← s.free child
        let s ← s.modify id ConfigSet.eraseFirst
        clearChildren fuel s id

/-- `clear`. Each object is deleted in a round of its own. -/
def clear (s : Store) (id : SetId) : Except Fault Store := do
  let s ← s.modify id ConfigSet.clearValues
  clearChildren (s.sets.length + 1) s id

/-- `delete`, with the destructor. -/
def delete (s : Store) (id : SetId) : Except Fault Store := do
  let s ← s.clear id
  s.free id

end Store

/-! ### Files -/

namespace Store

/-- `read` on an open file, into the set `root`. -/
def scan (s : Store) (root : SetId) (text : Str) : Store × Except ReadError Unit :=
  let (r, result) := scanLoop (text.length + 2) ⟨text, false, false⟩ 1 ⟨s.sets, root, .normal⟩
  ({ s with sets := r.sets }, (result.bind (finish · r)).map fun _ => ())

/-- `config_file::read` -/
def read (s : Store) (root : SetId) (files : Str → Option Str) (name : Str) :
    Except Fault (Store × Except ReadError Unit) := do
  let s ← s.clear root
  match files name with
  | none => return (s, .error (.notFound name))
  | some text => return s.scan root text

/-- `new config_file(name)`. If `read` throws, the constructor clears the file, and the destructor of
the base class runs before the memory is given back. -/
def openFile (s : Store) (files : Str → Option Str) (name : Str) :
    Except Fault (Store × Option SetId) := do
  let root := s.sets.length
  let (s, result) ← (s.make none).read root files name
  match result with
  | .ok () => return (s, some root)
  | .error _ =>
    let s ← s.clear root
    let s ← s.delete root
    return (s, none)

end Store

/-! ### Clients -/

/-- The objects, and those which the clients have to delete. -/
structure State where
  store : Store
  roots : List SetId

def new : State := ⟨⟨[], []⟩, []⟩

inductive Op
  /-- `new config_set(parent)` -/
  | make (parent : Option SetId)
  /-- `new config_file(name)`, with the files that can be opened -/
  | openFile (files : Str → Option Str) (name : Str)
  /-- `insert`, `set` or `erase` -/
  | mutate (id : SetId) (m : ConfigSet.Mutation)
  /-- `delete` -/
  | delete (id : SetId)

namespace State

def exec (s : State) : Op → Except Fault State
  | .make parent => .ok ⟨s.store.make parent, s.store.sets.length :: s.roots⟩
  | .openFile files name => do
    let (store, root) ← s.store.openFile files name
    return ⟨store, root.toList ++ s.roots⟩
  | .mutate id m => do
    let store ← s.store.modify id (·.mutate m)
    return ⟨store, s.roots.diff m.addedChildren⟩
  | .delete id => do
    let store ← s.store.delete id
    return ⟨store, s.roots.erase id⟩

/-- A client uses what is there, gives away and deletes what it has, and puts no set into itself. -/
def Legal (s : State) : Op → Prop
  | .make _ | .openFile _ _ => True
  | .mutate id m => (s.store.get? id).isSome ∧
    ∀ child ∈ m.addedChildren, child ∈ s.roots ∧ ¬ Forest.Reaches s.store.heap child id
  | .delete id => id ∈ s.roots

/-- The pointers in the sets which are there. -/
def pointers (s : State) : List SetId :=
  ((List.range s.store.sets.length).filterMap s.store.get?).flatMap ConfigSet.pointers

/-- Each object has one owner, a client or a set, and the clients can reach it. -/
def Accounted (s : State) : Prop :=
  ∀ id, (s.roots ++ s.pointers).count id = (if (s.store.get? id).isSome then 1 else 0) ∧
    ((s.store.get? id).isSome → ∃ root ∈ s.roots, Forest.Reaches s.store.heap root id)

end State

def machine : Machine State Op Fault where
  legal := State.Legal
  step := State.exec

/-! ### Single changes -/

namespace Store

variable {s : Store} {id : SetId} {set : ConfigSet}

/-- Only objects which have been made have been deleted. -/
def WellFormed (s : Store) : Prop := ∀ id ∈ s.freed, id < s.sets.length

lemma lt_length_of_get? (h : s.get? id = some set) : id < s.sets.length := by
  rw [get?] at h
  split_ifs at h
  exact (List.getElem?_eq_some_iff.mp h).1

lemma heap_eq_of_get? (h : s.get? id = some set) : s.heap id = some set.pointers := by
  rw [heap, h, Option.map_some]

lemma exists_get?_of_heap {cs : List SetId} (h : s.heap id = some cs) :
    ∃ set, s.get? id = some set ∧ set.pointers = cs := Option.map_eq_some_iff.mp h

lemma heap_congr {s' : Store} (h : s'.get? id = s.get? id) : s'.heap id = s.heap id := by
  rw [heap, heap, h]

lemma get?_of_length_le (h : s.sets.length ≤ id) : s.get? id = none := by
  rw [get?, List.getElem?_eq_none h, ite_self]

lemma get?_make_self (hs : s.WellFormed) (parent : Option SetId) :
    (s.make parent).get? s.sets.length = some (ConfigSet.new parent) := by
  have hnot : s.sets.length ∉ s.freed := fun hmem => (hs _ hmem).false
  simp [get?, make, hnot]

lemma get?_make_of_ne (parent : Option SetId) (h : id ≠ s.sets.length) :
    (s.make parent).get? id = s.get? id := by
  have hget : (s.sets ++ [ConfigSet.new parent])[id]? = s.sets[id]? := by
    rcases h.lt_or_gt with hlt | hgt
    · exact List.getElem?_append_left hlt
    · rw [List.getElem?_eq_none hgt.le, List.getElem?_eq_none]
      rw [List.length_append]
      exact hgt
  simp only [get?, make, hget]

lemma WellFormed.make (hs : s.WellFormed) (parent : Option SetId) : (s.make parent).WellFormed := by
  intro id hid
  rw [Store.make, List.length_append]
  exact (hs id hid).trans (Nat.lt_succ_self _)

lemma covers_make {roots : List SetId} (hs : s.WellFormed) (h : Forest.Covers s.heap roots)
    (parent : Option SetId) : Forest.Covers (s.make parent).heap (s.sets.length :: roots) := by
  refine h.create ?_ (heap_eq_of_get? (get?_make_self hs parent))
    fun id hid => heap_congr (get?_make_of_ne parent hid)
  rw [heap, get?_of_length_le (le_refl _), Option.map_none]

/-- The store without the objects of `gone`, and with another object in the place of `id`. -/
structure Becomes (s s' : Store) (id : SetId) (new : Option ConfigSet) (gone : Multiset SetId) :
    Prop where
  wellFormed : s'.WellFormed
  get?_self : s'.get? id = new
  get?_of_mem : ∀ x ∈ gone, s'.get? x = none
  get?_of_ne : ∀ x, x ≠ id → x ∉ gone → s'.get? x = s.get? x

lemma exists_modify (hs : s.WellFormed) (h : s.get? id = some set) (f : ConfigSet → ConfigSet) :
    ∃ s', s.modify id f = .ok s' ∧ s.Becomes s' id (some (f set)) 0 := by
  refine ⟨{ s with sets := s.sets.modify id f }, by rw [modify, h], fun x hx => ?_, ?_, by simp,
    fun x hx _ => ?_⟩
  · simpa using hs x hx
  · rw [get?] at h ⊢
    split_ifs at h ⊢ with hfreed
    rw [List.getElem?_modify_eq, h]
    rfl
  · simp only [get?]
    rw [List.getElem?_modify_ne _ _ hx.symm]

lemma exists_free (hs : s.WellFormed) (h : s.get? id = some set) :
    ∃ s', s.free id = .ok s' ∧ s.Becomes s' id none 0 := by
  refine ⟨{ s with freed := id :: s.freed }, by rw [free, h], fun x hx => ?_, by simp [get?],
    by simp, fun x hx _ => ?_⟩
  · rcases List.mem_cons.mp hx with rfl | hx
    · exact lt_length_of_get? (s := s) h
    · exact hs x hx
  · simp [get?, hx]

lemma children_eq_empty (h : set.pointers = []) : { set with children := ∅ } = set := by
  obtain ⟨parent, values, children⟩ := set
  have hentries : children.entries = [] := List.map_eq_nil_iff.mp h
  have hchildren : children = ∅ := Multimap.ext hentries
  rw [hchildren]

/-- The loop of `clear` deletes what is below an object, each object once. -/
lemma exists_clearChildren {below : Multiset SetId} {fuel : Nat} (hs : s.WellFormed)
    (h : s.get? id = some set) (hforest : Forest s.heap set.pointers below)
    (hnodup : (id ::ₘ below).Nodup) (hfuel : below.card < fuel) :
    ∃ s', clearChildren fuel s id = .ok s' ∧
      s.Becomes s' id (some { set with children := ∅ }) below := by
  induction fuel generalizing s id set below with
  | zero => exact absurd hfuel (Nat.not_lt_zero _)
  | succ fuel ih =>
    cases hpointers : set.pointers with
    | nil =>
      rw [hpointers] at hforest
      cases hforest
      refine ⟨s, by simp only [clearChildren, h, hpointers], hs, ?_, by simp, fun _ _ _ => rfl⟩
      rw [h, children_eq_empty hpointers]
    | cons child rest =>
      rw [hpointers] at hforest
      cases hforest with
      | @cons _ _ cs below₁ below₂ hchild hbelow₁ hbelow₂ =>
        rw [Multiset.nodup_cons, Multiset.nodup_cons, Multiset.nodup_add] at hnodup
        obtain ⟨hid, hchild', hnodup₁, hnodup₂, hapart⟩ := hnodup
        rw [Multiset.mem_cons, Multiset.mem_add, not_or, not_or] at hid
        rw [Multiset.mem_add, not_or] at hchild'
        obtain ⟨hidchild, hid₁, hid₂⟩ := hid
        rw [Multiset.card_cons, Multiset.card_add] at hfuel
        obtain ⟨childSet, hget, rfl⟩ := exists_get?_of_heap hchild
        -- the destructor of the first child
        obtain ⟨s₁, hs₁, h₁⟩ := exists_modify hs hget ConfigSet.clearValues
        have hheap₁ : ∀ x ∈ below₁, s₁.heap x = s.heap x := by
          intro x hx
          exact heap_congr (h₁.get?_of_ne x (fun heq => hchild'.1 (heq ▸ hx)) (by simp))
        obtain ⟨s₂, hs₂, h₂⟩ := ih h₁.wellFormed h₁.get?_self
          (hbelow₁.congr hheap₁) (Multiset.nodup_cons.mpr ⟨hchild'.1, hnodup₁⟩) (by omega)
        obtain ⟨s₃, hs₃, h₃⟩ := exists_free h₂.wellFormed h₂.get?_self
        have hframe₃ : ∀ x, x ≠ child → x ∉ below₁ → s₃.get? x = s.get? x := by
          intro x hx hx₁
          rw [h₃.get?_of_ne x hx (by simp), h₂.get?_of_ne x hx hx₁, h₁.get?_of_ne x hx (by simp)]
        -- its entry goes, and the loop goes on
        obtain ⟨s₄, hs₄, h₄⟩ := exists_modify h₃.wellFormed
          ((hframe₃ id hidchild hid₁).trans h) ConfigSet.eraseFirst
        have hframe₄ : ∀ x, x ≠ id → x ≠ child → x ∉ below₁ → s₄.get? x = s.get? x := by
          intro x hx hxchild hx₁
          rw [h₄.get?_of_ne x hx (by simp), hframe₃ x hxchild hx₁]
        have hrest : Forest s₄.heap set.eraseFirst.pointers below₂ := by
          rw [ConfigSet.pointers_eraseFirst, hpointers, List.tail_cons]
          refine hbelow₂.congr fun x hx => heap_congr (hframe₄ x ?_ ?_ ?_)
          · exact fun heq => hid₂ (heq ▸ hx)
          · exact fun heq => hchild'.2 (heq ▸ hx)
          · exact fun hx₁ => Multiset.disjoint_left.mp hapart hx₁ hx
        obtain ⟨s₅, hs₅, h₅⟩ := ih h₄.wellFormed h₄.get?_self hrest
          (Multiset.nodup_cons.mpr ⟨hid₂, hnodup₂⟩) (by omega)
        refine ⟨s₅, ?_, h₅.wellFormed, h₅.get?_self, fun x hx => ?_, fun x hx hgone => ?_⟩
        · simp only [clearChildren, h, hpointers, hs₁, hs₂, hs₃, hs₄, Except.ok_bind]
          exact hs₅
        · by_cases hx₂ : x ∈ below₂
          · exact h₅.get?_of_mem x hx₂
          · have hx' : x = child ∨ x ∈ below₁ := by simpa [hx₂] using hx
            have hne : x ≠ id := by
              rintro rfl
              rcases hx' with heq | hx₁
              · exact hidchild heq
              · exact hid₁ hx₁
            rw [h₅.get?_of_ne x hne hx₂, h₄.get?_of_ne x hne (by simp)]
            by_cases hxchild : x = child
            · rw [hxchild, h₃.get?_self]
            · rw [h₃.get?_of_ne x hxchild (by simp)]
              exact h₂.get?_of_mem x (hx'.resolve_left hxchild)
        · simp only [Multiset.mem_cons, Multiset.mem_add, not_or] at hgone
          rw [h₅.get?_of_ne x hx hgone.2.2, hframe₄ x hx hgone.1 hgone.2.1]

lemma card_le_length {below : Multiset SetId} {rs : List SetId} (hforest : Forest s.heap rs below)
    (hnodup : below.Nodup) : below.card ≤ s.sets.length := by
  have hsub : below ⊆ Multiset.range s.sets.length := by
    intro x hx
    obtain ⟨cs, hcs⟩ := Option.isSome_iff_exists.mp (hforest.isSome_of_mem hx)
    obtain ⟨set, hget, -⟩ := exists_get?_of_heap hcs
    exact Multiset.mem_range.mpr (lt_length_of_get? hget)
  have hle := Multiset.card_le_card ((Multiset.le_iff_subset hnodup).mpr hsub)
  rwa [Multiset.card_range] at hle

lemma exists_clear {below : Multiset SetId} (hs : s.WellFormed) (h : s.get? id = some set)
    (hforest : Forest s.heap set.pointers below) (hnodup : (id ::ₘ below).Nodup) :
    ∃ s', s.clear id = .ok s' ∧ s.Becomes s' id (some ⟨set.parent, ∅, ∅⟩) below := by
  obtain ⟨s₁, hs₁, h₁⟩ := exists_modify hs h ConfigSet.clearValues
  have hid := (Multiset.nodup_cons.mp hnodup).1
  have hforest₁ : Forest s₁.heap set.clearValues.pointers below :=
    hforest.congr fun x hx => heap_congr (h₁.get?_of_ne x (fun heq => hid (heq ▸ hx)) (by simp))
  have hcard := card_le_length hforest₁ (Multiset.nodup_cons.mp hnodup).2
  obtain ⟨s₂, hs₂, h₂⟩ := exists_clearChildren h₁.wellFormed h₁.get?_self hforest₁ hnodup
    (Nat.lt_succ_of_le hcard)
  refine ⟨s₂, by rw [clear, hs₁]; exact hs₂, h₂.wellFormed, h₂.get?_self, h₂.get?_of_mem,
    fun x hx hgone => ?_⟩
  rw [h₂.get?_of_ne x hx hgone, h₁.get?_of_ne x hx (by simp)]

/-- `delete` takes an object and what is below it, and nothing else. -/
lemma exists_delete {below : Multiset SetId} (hs : s.WellFormed)
    (hforest : Forest s.heap [id] below) (hnodup : below.Nodup) :
    ∃ s', s.delete id = .ok s' ∧ s'.WellFormed ∧ (∀ x ∈ below, s'.get? x = none) ∧
      ∀ x ∉ below, s'.get? x = s.get? x := by
  cases hforest with
  | cons hr hbelow hrest =>
    cases hrest
    rw [add_zero] at hnodup ⊢
    obtain ⟨set, hget, rfl⟩ := exists_get?_of_heap hr
    obtain ⟨s₁, hs₁, h₁⟩ := exists_clear hs hget hbelow hnodup
    obtain ⟨s₂, hs₂, h₂⟩ := exists_free h₁.wellFormed h₁.get?_self
    refine ⟨s₂, by rw [delete, hs₁]; exact hs₂, h₂.wellFormed, fun x hx => ?_, fun x hx => ?_⟩
    · by_cases heq : x = id
      · rw [heq, h₂.get?_self]
      · rw [h₂.get?_of_ne x heq (by simp)]
        exact h₁.get?_of_mem x ((Multiset.mem_cons.mp hx).resolve_left heq)
    · rw [Multiset.mem_cons, not_or] at hx
      rw [h₂.get?_of_ne x hx.1 (by simp), h₁.get?_of_ne x hx.1 hx.2]

end Store

/-! ### Files -/

namespace Store

/-- The store with the objects of a reader behind its own. -/
def load (s : Store) (r : Reader) : Store := { s with sets := (r.shift s.sets).sets }

/-- The objects of a reader belong to the file, the first of them. -/
structure Reading (s : Store) (roots : List SetId) (r : Reader) : Prop where
  curSet_lt : r.curSet < r.sets.length
  parent_lt : ∀ p, some p ∈ r.sets.map ConfigSet.parent → p < r.sets.length
  covers : Forest.Covers (s.load r).heap (s.sets.length :: roots)

variable {s : Store} {roots : List SetId} {r r' : Reader}

lemma WellFormed.load (hs : s.WellFormed) : (s.load r).WellFormed := by
  intro id hid
  rw [Store.load, Reader.length_shift]
  exact (hs id hid).trans_le (Nat.le_add_right _ _)

lemma get?_load (hs : s.WellFormed) (id : SetId) :
    (s.load r).get? (s.sets.length + id) = r.sets[id]?.map (·.shift s.sets.length) := by
  rw [get?, if_neg, load, Reader.getElem?_shift]
  intro hmem
  have hlt : s.sets.length + id < s.sets.length := hs _ hmem
  omega

lemma get?_load_of_lt {id : SetId} (h : id < s.sets.length) : (s.load r).get? id = s.get? id := by
  rw [get?, load, Reader.getElem?_shift_of_lt h, get?]

/-- A section is opened: a new object goes into the current one. -/
lemma covers_enter (hs : s.WellFormed) (h : s.Reading roots r) (key : Str) (mode : Mode) :
    Forest.Covers (s.load (r.enter key mode)).heap (s.sets.length :: roots) := by
  have hcur : s.sets.length + r.curSet < (s.load r).sets.length := by
    rw [load, Reader.length_shift]
    exact Nat.add_lt_add_left h.curSet_lt _
  obtain ⟨set, hset⟩ : ∃ set, (s.load r).get? (s.sets.length + r.curSet) = some set := by
    rw [get?_load hs, List.getElem?_eq_getElem h.curSet_lt]
    exact ⟨_, rfl⟩
  have hcovers := covers_make hs.load h.covers (some (s.sets.length + r.curSet))
  have hset' := (get?_make_of_ne (some (s.sets.length + r.curSet)) hcur.ne).trans hset
  have hsets : (s.load (r.enter key mode)).sets =
      (s.load r).sets.modify (s.sets.length + r.curSet)
        (·.insertChild key (s.load r).sets.length) ++
        [ConfigSet.new (some (s.sets.length + r.curSet))] := by
    rw [load, Reader.shift_enter]
    rfl
  have hcurrent : (s.load (r.enter key mode)).get? (s.sets.length + r.curSet) =
      some (set.insertChild key (s.load r).sets.length) := by
    have hfreed : s.sets.length + r.curSet ∉ s.freed := by
      intro hmem
      have hlt : s.sets.length + r.curSet < s.sets.length := hs _ hmem
      omega
    have hplain : (s.load r).sets[s.sets.length + r.curSet]? = some set := by
      rwa [get?, load, if_neg hfreed] at hset
    rw [get?, load, if_neg hfreed, ← load, hsets,
      List.getElem?_append_left (by simpa using hcur), List.getElem?_modify_eq, hplain]
    rfl
  refine hcovers.adopt (heap_eq_of_get? hset') (fun hreaches => ?_) (heap_eq_of_get? hcurrent)
    (set.perm_pointers_insertChild key _) fun id hid => heap_congr ?_
  · exact hcur.ne (hreaches.eq_of_nil (heap_eq_of_get? (get?_make_self hs.load _)))
  · have hget : (s.load (r.enter key mode)).sets[id]? =
        ((s.load r).make (some (s.sets.length + r.curSet))).sets[id]? := by
      rw [hsets, make, List.getElem?_append, List.getElem?_append, List.length_modify,
        List.getElem?_modify_ne _ _ hid.symm]
    simp only [get?, hget]
    rfl

/-- The attributes do not matter. -/
lemma heap_insert (hs : s.WellFormed) (key value : Str) :
    (s.load (r.insert key value)).heap = (s.load r).heap := by
  funext id
  rcases Nat.lt_or_ge id s.sets.length with hlt | hge
  · exact heap_congr ((get?_load_of_lt hlt).trans (get?_load_of_lt hlt).symm)
  · obtain ⟨i, rfl⟩ := Nat.exists_eq_add_of_le hge
    rw [heap, heap, get?_load hs, get?_load hs, Reader.insert, List.getElem?_modify]
    cases r.sets[i]? with
    | none => rfl
    | some set =>
      simp only [Option.map_eq_map, Option.map_some]
      split_ifs <;> rfl

lemma map_parent_modify {f : ConfigSet → ConfigSet} (h : ∀ set, (f set).parent = set.parent)
    (sets : List ConfigSet) (id : SetId) :
    (sets.modify id f).map ConfigSet.parent = sets.map ConfigSet.parent := by
  refine List.ext_getElem? fun i => ?_
  rw [List.getElem?_map, List.getElem?_map, List.getElem?_modify]
  cases sets[i]? with
  | none => rfl
  | some set =>
    simp only [Option.map_eq_map, Option.map_some]
    split_ifs
    · rw [h]
    · rfl

namespace Reading

lemma start (hs : s.WellFormed) (hcovers : Forest.Covers s.heap roots) :
    s.Reading roots .start where
  curSet_lt := Nat.zero_lt_one
  parent_lt := by simp [Reader.start, ConfigSet.new]
  covers := covers_make hs hcovers none

lemma step (hs : s.WellFormed) (h : s.Reading roots r) (hreads : Reads r r') :
    s.Reading roots r' := by
  cases hreads with
  | mode mode => exact ⟨h.curSet_lt, h.parent_lt, h.covers⟩
  | enter key mode =>
    have hparents : (r.sets.modify r.curSet (·.insertChild key r.sets.length)).map ConfigSet.parent =
        r.sets.map ConfigSet.parent :=
      map_parent_modify (f := (·.insertChild key r.sets.length)) (fun _ => rfl) _ _
    refine ⟨by simp [Reader.enter], fun p hp => ?_, covers_enter hs h key mode⟩
    rw [Reader.enter, List.length_append, List.length_modify, List.length_singleton]
    rw [Reader.enter, List.map_append, hparents, List.mem_append] at hp
    rcases hp with hp | hp
    · exact (h.parent_lt p hp).trans (Nat.lt_succ_self _)
    · obtain rfl : p = r.curSet := by simpa [ConfigSet.new] using hp
      exact h.curSet_lt.trans (Nat.lt_succ_self _)
  | insert key value =>
    have hlength : (r.insert key value).sets.length = r.sets.length := List.length_modify ..
    have hparents : (r.insert key value).sets.map ConfigSet.parent = r.sets.map ConfigSet.parent :=
      map_parent_modify (f := (·.insert key value)) (fun _ => rfl) _ _
    have hcovers := h.covers
    rw [← heap_insert hs key value] at hcovers
    exact ⟨hlength ▸ h.curSet_lt, fun p hp => hlength ▸ h.parent_lt p (hparents ▸ hp), hcovers⟩
  | @close p hp =>
    obtain ⟨set, hset, hparent⟩ := Option.bind_eq_some_iff.mp hp
    have hmem : some p ∈ r.sets.map ConfigSet.parent :=
      List.mem_map.mpr ⟨set, List.mem_of_getElem? hset, hparent⟩
    exact ⟨h.parent_lt p hmem, h.parent_lt, h.covers⟩

end Reading

/-- What there is when a file has been read, or when the reader has stopped. -/
lemma reading_reached (hs : s.WellFormed) (hcovers : Forest.Covers s.heap roots) (text : Str) :
    s.Reading roots (reached text) :=
  scanLoop_invariant (fun _ _ h hreads => h.step hs hreads) (Reading.start hs hcovers) _ _ _

/-- Reading into a new object is reading, behind the objects which are there. -/
lemma scan_make (s : Store) (text : Str) : (s.make none).scan s.sets.length text =
    (s.load (reached text), (readText text).map fun _ => ()) := by
  have hstart :
      (⟨(s.make none).sets, s.sets.length, .normal⟩ : Reader) = Reader.start.shift s.sets :=
    rfl
  rw [scan, hstart, scanLoop_shift, readText, readLoop_eq_scanLoop, ← reached]
  cases (scanLoop (text.length + 2) ⟨text, false, false⟩ 1 .start).2 with
  | error e => rfl
  | ok n =>
    have hfinish := finish_shift s.sets n (reached text)
    exact congrArg (Prod.mk (s.load (reached text))) hfinish

lemma clear_make (hs : s.WellFormed) : (s.make none).clear s.sets.length = .ok (s.make none) := by
  have hget := get?_make_self hs none
  have hsets :
      (s.make none).sets.modify s.sets.length ConfigSet.clearValues = (s.make none).sets := by
    refine List.ext_getElem? fun i => ?_
    rw [List.getElem?_modify]
    by_cases hi : s.sets.length = i
    · subst hi
      simp [make, ConfigSet.new, ConfigSet.clearValues]
    · simp [hi]
  have hmodify : (s.make none).modify s.sets.length ConfigSet.clearValues = .ok (s.make none) := by
    simp only [modify, hget, hsets]
  simp only [clear, hmodify, Except.ok_bind, clearChildren, hget, ConfigSet.pointers_new]

/-- The destructors of a file whose constructor throws. -/
lemma exists_clear_delete {below : Multiset SetId} {id : SetId} (hs : s.WellFormed)
    (hforest : Forest s.heap [id] below) (hnodup : below.Nodup) :
    ∃ s' s'', s.clear id = .ok s' ∧ s'.delete id = .ok s'' ∧ s''.WellFormed ∧
      (∀ x ∈ below, s''.get? x = none) ∧ ∀ x ∉ below, s''.get? x = s.get? x := by
  cases hforest with
  | cons hr hbelow hrest =>
    cases hrest
    rw [add_zero] at hnodup ⊢
    obtain ⟨set, hget, rfl⟩ := exists_get?_of_heap hr
    obtain ⟨s₁, hs₁, h₁⟩ := exists_clear hs hget hbelow hnodup
    have hforest₁ : Forest s₁.heap [id] (id ::ₘ 0) :=
      .single (heap_eq_of_get? h₁.get?_self) .nil
    obtain ⟨s₂, hs₂, hs₂', hgone, hsame⟩ :=
      exists_delete h₁.wellFormed hforest₁ (Multiset.nodup_singleton id)
    refine ⟨s₁, s₂, hs₁, hs₂, hs₂', fun x hx => ?_, fun x hx => ?_⟩
    · by_cases heq : x = id
      · exact hgone x (by simp [heq])
      · rw [hsame x (by simpa using heq)]
        exact h₁.get?_of_mem x ((Multiset.mem_cons.mp hx).resolve_left heq)
    · rw [Multiset.mem_cons, not_or] at hx
      rw [hsame x (by simpa using hx.1), h₁.get?_of_ne x hx.1 hx.2]

/-- A file which cannot be read leaves nothing behind. What is read belongs to the new file. -/
lemma exists_openFile (hs : s.WellFormed) (hcovers : Forest.Covers s.heap roots)
    (files : Str → Option Str) (name : Str) :
    ∃ s' root, s.openFile files name = .ok (s', root) ∧ s'.WellFormed ∧
      Forest.Covers s'.heap (root.toList ++ roots) ∧
      match ConfigFile.read files name with
      | .ok sets => root = some s.sets.length ∧
        s' = { s with sets := s.sets ++ sets.map (·.shift s.sets.length) }
      | .error _ => root = none ∧ ∀ id, s'.get? id = s.get? id := by
  -- what is in memory when `read` returns, and how it returns
  obtain ⟨r, result, hread, hreading, hresult⟩ : ∃ r result,
      (s.make none).read s.sets.length files name = .ok (s.load r, result) ∧ s.Reading roots r ∧
      result = (ConfigFile.read files name).map (fun _ => ()) ∧
      ∀ sets, ConfigFile.read files name = .ok sets → r.sets = sets := by
    rw [read, clear_make hs, Except.ok_bind, ConfigFile.read]
    cases files name with
    | none => exact ⟨.start, _, rfl, .start hs hcovers, rfl, by simp⟩
    | some text =>
      refine ⟨reached text, _, ?_, reading_reached hs hcovers text, rfl, fun sets => sets_reached⟩
      exact congrArg Except.ok (scan_make s text)
  have hbelow : ∀ id, (s.heap id).isSome → (s.load r).heap id = s.heap id := by
    intro id hid
    obtain ⟨cs, hcs⟩ := Option.isSome_iff_exists.mp hid
    obtain ⟨set, hget, -⟩ := exists_get?_of_heap hcs
    exact heap_congr (get?_load_of_lt (lt_length_of_get? hget))
  cases hfile : ConfigFile.read files name with
  | ok sets =>
    rw [hfile] at hresult
    refine ⟨s.load r, some s.sets.length, ?_, hs.load, hreading.covers, rfl, ?_⟩
    · rw [openFile, hread, hresult.1]
      rfl
    · rw [load, Reader.shift, hresult.2 sets rfl]
  | error e =>
    rw [hfile] at hresult
    obtain ⟨below, htree, hnodup, -⟩ := hreading.covers.exists_tree
    obtain ⟨s₁, s₂, hs₁, hs₂, hs₂', hgone, hsame⟩ := exists_clear_delete hs.load htree hnodup
    have hnew := hreading.covers.mem_iff_of_subheap hcovers htree hbelow
    refine ⟨s₂, none, ?_, hs₂', ?_, rfl, fun id => ?_⟩
    · rw [openFile, hread, hresult.1]
      simp only [Except.map, Except.ok_bind, hs₁, hs₂]
      rfl
    · refine hreading.covers.discard htree (fun id hid => ?_) fun id hid => heap_congr (hsame id hid)
      rw [heap, hgone id hid, Option.map_none]
    · by_cases hid : id ∈ below
      · rw [hgone id hid]
        exact (Option.map_eq_none_iff.mp ((hnew id).mp hid).2).symm
      · rw [hsame id hid]
        rcases Nat.lt_or_ge id s.sets.length with hlt | hge
        · exact get?_load_of_lt hlt
        · have hnone : s.get? id = none := get?_of_length_le hge
          have hheap : s.heap id = none := by rw [heap, hnone, Option.map_none]
          rw [hnone, ← Option.not_isSome_iff_eq_none]
          intro hsome
          refine hid ((hnew id).mpr ⟨?_, hheap⟩)
          rwa [heap, Option.isSome_map]

end Store

/-! ### Steps and runs -/

namespace State

variable {s s' : State}

/-- The objects are the trees of what the clients have. -/
structure Sound (s : State) : Prop where
  wellFormed : s.store.WellFormed
  covers : Forest.Covers s.store.heap s.roots

/-- What a call does to the objects. A file is behind the objects which were there, or there is
nothing of it, and what is deleted goes with everything below it, and with nothing else. -/
def Does (s : State) : Op → State → Prop
  | .openFile files name, s' =>
    match ConfigFile.read files name with
    | .ok sets => s'.roots = s.store.sets.length :: s.roots ∧
      s'.store = ⟨s.store.sets ++ sets.map (·.shift s.store.sets.length), s.store.freed⟩
    | .error _ => s'.roots = s.roots ∧ ∀ id, s'.store.get? id = s.store.get? id
  | .delete id, s' => ∀ x, (Forest.Reaches s.store.heap id x → s'.store.get? x = none) ∧
    (¬ Forest.Reaches s.store.heap id x → s'.store.get? x = s.store.get? x)
  | _, _ => True

namespace Sound

lemma new : Sound new := ⟨by simp [Store.WellFormed, Lifetime.new], .empty⟩

/-- A call which changes an object. -/
lemma mutate (h : s.Sound) {id : SetId} {m : ConfigSet.Mutation}
    (hlegal : s.Legal (.mutate id m)) : ∃ store, s.store.modify id (·.mutate m) = .ok store ∧
      Sound ⟨store, s.roots.diff m.addedChildren⟩ := by
  obtain ⟨hid, hchildren⟩ := hlegal
  obtain ⟨set, hget⟩ := Option.isSome_iff_exists.mp hid
  obtain ⟨store, hstore, hbecomes⟩ := Store.exists_modify h.wellFormed hget (·.mutate m)
  have hframe : ∀ x, x ≠ id → store.heap x = s.store.heap x :=
    fun x hx => Store.heap_congr (hbecomes.get?_of_ne x hx (by simp))
  refine ⟨store, hstore, hbecomes.wellFormed, ?_⟩
  cases hm : m.addedChildren with
  | nil =>
    have hpointers : (set.mutate m).pointers = set.pointers := by
      cases m <;> simp_all [ConfigSet.mutate, ConfigSet.Mutation.addedChildren]
    have hheap : store.heap = s.store.heap := by
      funext x
      by_cases heq : x = id
      · rw [heq, Store.heap_eq_of_get? hbecomes.get?_self, Store.heap_eq_of_get? hget, hpointers]
      · exact hframe x heq
    exact hheap ▸ h.covers
  | cons child children =>
    obtain ⟨name, rfl⟩ : ∃ name, m = .insertChild name child := by
      cases m <;> simp_all [ConfigSet.Mutation.addedChildren]
    obtain rfl : [] = children := (List.cons_eq_cons.mp hm).2
    obtain ⟨hchild, hreaches⟩ := hchildren child (by simp [hm])
    have hdiff : s.roots.diff [child] = s.roots.erase child := by
      rw [List.diff_cons, List.diff_nil]
    exact hdiff ▸ (h.covers.perm (List.perm_cons_erase hchild)).adopt (Store.heap_eq_of_get? hget)
      hreaches
      (Store.heap_eq_of_get? hbecomes.get?_self) (set.perm_pointers_insertChild name child) hframe

lemma delete (h : s.Sound) {id : SetId} (hid : id ∈ s.roots) :
    ∃ store, s.store.delete id = .ok store ∧ Sound ⟨store, s.roots.erase id⟩ ∧
      ∀ x, (Forest.Reaches s.store.heap id x → store.get? x = none) ∧
        (¬ Forest.Reaches s.store.heap id x → store.get? x = s.store.get? x) := by
  have hcovers := h.covers.perm (List.perm_cons_erase hid)
  obtain ⟨below, htree, hnodup, hbelow⟩ := hcovers.exists_tree
  obtain ⟨store, hstore, hwellFormed, hgone, hsame⟩ :=
    Store.exists_delete h.wellFormed htree hnodup
  refine ⟨store, hstore, ⟨hwellFormed, ?_⟩, fun x => ⟨fun hx => ?_, fun hx => ?_⟩⟩
  · refine hcovers.discard htree (fun x hx => ?_) fun x hx => Store.heap_congr (hsame x hx)
    rw [Store.heap, hgone x hx, Option.map_none]
  · exact hgone x ((hbelow x).mpr hx)
  · exact hsame x fun hmem => hx ((hbelow x).mp hmem)

/-- No call fails. -/
lemma exec (h : s.Sound) {op : Op} (hlegal : s.Legal op) :
    ∃ s', s.exec op = .ok s' ∧ s.Does op s' ∧ s'.Sound := by
  cases op with
  | make parent =>
    exact ⟨_, rfl, trivial, h.wellFormed.make parent, Store.covers_make h.wellFormed h.covers parent⟩
  | openFile files name =>
    obtain ⟨store, root, hopen, hwellFormed, hcovers, hresult⟩ :=
      Store.exists_openFile h.wellFormed h.covers files name
    refine ⟨⟨store, root.toList ++ s.roots⟩, by rw [State.exec, hopen]; rfl, ?_,
      hwellFormed, hcovers⟩
    rw [Does]
    cases hread : ConfigFile.read files name with
    | ok sets =>
      rw [hread] at hresult
      obtain ⟨rfl, rfl⟩ := hresult
      exact ⟨rfl, rfl⟩
    | error e =>
      rw [hread] at hresult
      obtain ⟨rfl, hsame⟩ := hresult
      exact ⟨rfl, hsame⟩
  | mutate id m =>
    obtain ⟨store, hstore, hsound⟩ := h.mutate hlegal
    exact ⟨_, by rw [State.exec, hstore]; rfl, trivial, hsound⟩
  | delete id =>
    obtain ⟨store, hstore, hsound, hdoes⟩ := h.delete hlegal
    exact ⟨⟨store, s.roots.erase id⟩, by rw [State.exec, hstore]; rfl, hdoes, hsound⟩

end Sound

/-- The pointers are those of the objects which are there. -/
lemma coe_pointers (s : State) : (s.pointers : Multiset SetId) =
    Multiset.bind ((List.range s.store.sets.length).filter fun id => (s.store.get? id).isSome)
      (Forest.owned s.store.heap) := by
  have hlist : ∀ ids : List SetId, (ids.filterMap s.store.get?).flatMap ConfigSet.pointers =
      (ids.filter fun id => (s.store.get? id).isSome).flatMap fun id =>
        (s.store.heap id).getD [] := by
    intro ids
    induction ids with
    | nil => rfl
    | cons id ids ih =>
      cases hget : s.store.get? id with
      | none => simp [hget, ih]
      | some set => simp [hget, ih, Store.heap]
  rw [pointers, hlist, ← Multiset.coe_bind]
  rfl

lemma Sound.accounted (h : s.Sound) : s.Accounted := by
  have hisSome : ∀ id, (s.store.heap id).isSome = (s.store.get? id).isSome := by
    intro id
    rw [Store.heap, Option.isSome_map]
  intro id
  refine ⟨?_, fun hid => h.covers.exists_reaches ((hisSome id).trans hid)⟩
  have hnodup : Multiset.Nodup (((List.range s.store.sets.length).filter fun id =>
      (s.store.get? id).isSome : List SetId) : Multiset SetId) :=
    Multiset.coe_nodup.mpr (List.nodup_range.filter _)
  have hcount := h.covers.count_eq hnodup (fun x => ?_) id
  · rw [← coe_pointers, Multiset.coe_count, hisSome] at hcount
    rw [List.count_append]
    exact hcount
  · rw [hisSome, Multiset.mem_coe, List.mem_filter, and_iff_right_of_imp]
    intro hx
    obtain ⟨set, hget⟩ := Option.isSome_iff_exists.mp hx
    exact List.mem_range.mpr (Store.lt_length_of_get? hget)

end State

/-- A configuration tree is deleted once. In every run in which clients give a set away only once
and put none into itself, each set has one owner, nothing is used or deleted after it is gone, a
file which cannot be read leaves nothing behind, and to delete something is to delete the sets which
it leads to. So nothing is left when the clients have nothing to delete. -/
theorem deleted_once (ops : List Op) (hlegal : machine.Legal new ops) :
    machine.Holds State.Accounted new ops ∧ machine.Follows State.Does new ops ∧
      ∀ s, ops.foldlM machine.step new = .ok s → s.roots = [] → ∀ id, s.store.get? id = none := by
  have hholds : machine.Holds State.Sound new ops :=
    Machine.Holds.of_invariant (C := fun _ _ => True) (I := State.Sound) (fun _ h => h)
      (fun s op h hop _ => by
        obtain ⟨s', hs', -, hsound⟩ := h.exec hop
        exact ⟨s', hs', hsound⟩) .new hlegal (.of_forall fun _ _ => trivial)
  refine ⟨hholds.imp fun s h => h.accounted, ?_, fun s hs hroots id => ?_⟩
  · exact Machine.Follows.of_invariant (I := State.Sound) (fun s op h hop => h.exec hop) .new hlegal
  · have hcovers := (hholds.result hs).covers
    rw [hroots] at hcovers
    exact Option.map_eq_none_iff.mp (hcovers.eq_none id)

/-- A file with a section, a file which is not understood, and a set which gets a child. -/
def lifetimeRun : List Op :=
  [.openFile (fun _ => some "a\n\x7b\n\x7d".toList) [],
    .openFile (fun _ => some "a\n\x7b".toList) [], .make none, .make none,
    .mutate 4 (.insertChild [] 5), .delete 0, .delete 4]

/-- After the two files. -/
def readState : State where
  store := ⟨[⟨none, ∅, (∅ : Multimap Str SetId).insert ['a'] 1⟩, ⟨some 0, ∅, ∅⟩, ⟨none, ∅, ∅⟩,
    ⟨some 2, ∅, ∅⟩], [2, 3]⟩
  roots := [0]

/-- After the child is inserted. -/
def insertedState : State where
  store := ⟨[⟨none, ∅, (∅ : Multimap Str SetId).insert ['a'] 1⟩, ⟨some 0, ∅, ∅⟩, ⟨none, ∅, ∅⟩,
    ⟨some 2, ∅, ∅⟩, ⟨none, ∅, (∅ : Multimap Str SetId).insert [] 5⟩, ⟨none, ∅, ∅⟩], [2, 3]⟩
  roots := [4, 0]

theorem deleted_once_lifetimeRun : machine.Holds State.Accounted new lifetimeRun ∧
    machine.Follows State.Does new lifetimeRun ∧
    ∀ s, lifetimeRun.foldlM machine.step new = .ok s → s.roots = [] →
      ∀ id, s.store.get? id = none := by
  refine deleted_once lifetimeRun (.cons trivial rfl (.cons trivial
    (rfl : machine.step _ _ = .ok readState) (.cons trivial rfl (.cons trivial rfl (.cons
      ⟨rfl, fun child hchild => ?_⟩ (rfl : machine.step _ _ = .ok insertedState)
        (.cons ?_ rfl (.cons ?_ rfl trivial)))))))
  · rw [List.mem_singleton.mp hchild]
    exact ⟨.head _, fun hreaches => by simpa using hreaches.eq_of_nil rfl⟩
  · exact List.mem_cons_of_mem _ (.head _)
  · exact .head _

end ConfigFile.Lifetime

end Utilmm
