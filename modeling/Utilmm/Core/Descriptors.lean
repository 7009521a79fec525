import Mathlib.Tactic

/-!
# Descriptor tables

A descriptor table maps small numbers to open descriptors. A number is used again once its
descriptor is closed, so every descriptor has an identity of its own, and an owner who has to close
it: the object under study or its user. The identities that the object closes are recorded.

`Owns t held` says that the object has kept to the rules so far: it has closed every descriptor of
its own exactly once, but for those under the numbers `held`, and none of the user.
-/

namespace Utilmm

/-- Who has to close a descriptor. -/
inductive Owner where
  | object
  | user
deriving DecidableEq

structure Descriptor (F : Type*) where
  id : Nat
  file : F
deriving DecidableEq

structure Descriptors (F : Type*) where
  slots : List (Option (Descriptor F))
  /-- The owners of all descriptors so far, by identity. -/
  owners : List Owner
  /-- What each close of the object has closed; `none` if it failed. -/
  closes : List (Option Nat)
deriving DecidableEq

namespace Descriptors

variable {F : Type*}

/-- A table of the given size without open descriptors. -/
def empty (size : Nat) : Descriptors F := ⟨List.replicate size none, [], []⟩

/-- The descriptor under a number. -/
def get (t : Descriptors F) (fd : Nat) : Option (Descriptor F) := t.slots[fd]?.join

/-- The lowest number that is free. -/
def freeSlot (t : Descriptors F) : Option Nat := t.slots.findIdx? Option.isNone

/-- A new descriptor. -/
def put (t : Descriptors F) (fd : Nat) (owner : Owner) (file : F) : Descriptors F :=
  { t with slots := t.slots.set fd (some ⟨t.owners.length, file⟩), owners := t.owners ++ [owner] }

/-- The object closes a number. -/
def close (t : Descriptors F) (fd : Nat) : Descriptors F :=
  match t.get fd with
  | none => { t with closes := t.closes ++ [none] }
  | some d => { t with slots := t.slots.set fd none, closes := t.closes ++ [some d.id] }

/-- The user closes a number. -/
def userClose (t : Descriptors F) (fd : Nat) : Descriptors F :=
  { t with slots := t.slots.set fd none }

/-- The owner of the descriptor under a number. -/
def ownerOf (t : Descriptors F) (fd : Nat) : Option Owner :=
  (t.get fd).bind fun d => t.owners[d.id]?

/-- The user gives a descriptor to the object. -/
def handOver (t : Descriptors F) (fd : Nat) : Descriptors F :=
  match t.get fd with
  | none => t
  | some d => { t with owners := t.owners.set d.id .object }

variable {t : Descriptors F} {fd fd' : Nat} {d : Descriptor F} {owner : Owner} {file : F}

/-! ### Lookup -/

@[simp] lemma get_empty (size fd : Nat) : (empty size : Descriptors F).get fd = none := by
  cases h : (List.replicate size (none : Option (Descriptor F)))[fd]? with
  | none => simp [get, empty, h]
  | some d =>
    have hmem := List.eq_of_mem_replicate (List.mem_of_getElem? h)
    simp [get, empty, h, hmem]

lemma get_set (slots : List (Option (Descriptor F))) (fd fd' : Nat) (d : Option (Descriptor F))
    (h : fd < slots.length) :
    (slots.set fd d)[fd']?.join = if fd' = fd then d else slots[fd']?.join := by
  by_cases hfd : fd' = fd
  · subst hfd
    simp [List.getElem?_set_self h]
  · rw [if_neg hfd, List.getElem?_set_ne (Ne.symm hfd)]

lemma lt_length_of_get (h : t.get fd = some d) : fd < t.slots.length := by
  by_contra hlt
  rw [get, List.getElem?_eq_none (by omega)] at h
  cases h

lemma get_of_freeSlot (h : t.freeSlot = some fd) : t.get fd = none ∧ fd < t.slots.length := by
  obtain ⟨hlt, hnone, -⟩ := List.findIdx?_eq_some_iff_getElem.mp h
  refine ⟨?_, hlt⟩
  rw [get, List.getElem?_eq_getElem hlt, Option.isNone_iff_eq_none.mp hnone]
  rfl

/-- The numbers below the lowest free one are taken. -/
lemma get_ne_none_of_lt (h : t.freeSlot = some fd) (hlt : fd' < fd) : t.get fd' ≠ none := by
  obtain ⟨hlen, -, hbelow⟩ := List.findIdx?_eq_some_iff_getElem.mp h
  intro hnone
  refine hbelow fd' hlt (Option.isNone_iff_eq_none.mpr ?_)
  rw [get, List.getElem?_eq_getElem (hlt.trans hlen)] at hnone
  exact hnone

lemma get_put (owner : Owner) (file : F) (hfree : t.freeSlot = some fd) (fd' : Nat) :
    (t.put fd owner file).get fd'
      = if fd' = fd then some ⟨t.owners.length, file⟩ else t.get fd' :=
  get_set t.slots fd fd' _ (get_of_freeSlot hfree).2

lemma get_userClose (h : t.get fd = some d) (fd' : Nat) :
    (t.userClose fd).get fd' = if fd' = fd then none else t.get fd' :=
  get_set t.slots fd fd' none (lt_length_of_get h)

/-- A closed number has no descriptor, and the others keep theirs. -/
lemma get_close (t : Descriptors F) (fd fd' : Nat) :
    (t.close fd).get fd' = if fd' = fd then none else t.get fd' := by
  cases h : t.get fd with
  | none =>
    have hclose : (t.close fd).get fd' = t.get fd' := by rw [close, h]; rfl
    rw [hclose]
    split_ifs with hfd
    · rw [hfd, h]
    · rfl
  | some d =>
    have hclose : (t.close fd).get fd' = (t.slots.set fd none)[fd']?.join := by rw [close, h]; rfl
    rw [hclose, get_set t.slots fd fd' none (lt_length_of_get h)]
    rfl

@[simp] lemma get_handOver (t : Descriptors F) (fd fd' : Nat) :
    (t.handOver fd).get fd' = t.get fd' := by
  rw [handOver]
  split <;> rfl

@[simp] lemma freeSlot_handOver (t : Descriptors F) (fd : Nat) :
    (t.handOver fd).freeSlot = t.freeSlot := by
  rw [handOver]
  split <;> rfl

/-- What is not the user's cannot be given away. -/
lemma handOver_of_ne (h : t.ownerOf fd ≠ some .user) : t.handOver fd = t := by
  rw [handOver]
  cases hd : t.get fd with
  | none => rfl
  | some d =>
    have howner : t.owners[d.id]? ≠ some .user := by
      rw [ownerOf, hd] at h
      exact h
    have hset : t.owners.set d.id .object = t.owners := by
      refine List.ext_getElem? fun id => ?_
      by_cases hid : d.id = id
      · subst hid
        cases hget : t.owners[d.id]? with
        | none => simp [List.getElem?_eq_none_iff.mp hget]
        | some owner =>
          rw [List.getElem?_set_self (List.getElem?_eq_some_iff.mp hget).1]
          cases owner with
          | object => rfl
          | user => exact absurd hget howner
      · rw [List.getElem?_set_ne hid]
    simp only [hset]

/-- Each close is recorded, also if it fails. -/
lemma closes_close (t : Descriptors F) (fd : Nat) :
    (t.close fd).closes = t.closes ++ [(t.get fd).map Descriptor.id] := by
  rw [close]
  split <;> simp_all

@[simp] lemma owners_close (t : Descriptors F) (fd : Nat) : (t.close fd).owners = t.owners := by
  rw [close]
  split <;> rfl

/-! ### Room -/

/-- How many numbers are free. -/
def free (t : Descriptors F) : Nat := t.slots.countP Option.isNone

lemma freeSlot_eq_none_iff : t.freeSlot = none ↔ t.free = 0 := by
  rw [freeSlot, List.findIdx?_eq_none_iff, free, List.countP_eq_zero]
  simp only [Bool.not_eq_true]

lemma countP_isNone_set {slots : List (Option (Descriptor F))} {x : Option (Descriptor F)}
    (h : slots[fd]? = some x) (y : Option (Descriptor F)) :
    (slots.set fd y).countP Option.isNone + (if x.isNone then 1 else 0) =
      slots.countP Option.isNone + if y.isNone then 1 else 0 := by
  obtain ⟨hlt, rfl⟩ := List.getElem?_eq_some_iff.mp h
  have hpos : slots[fd].isNone = true → 0 < slots.countP Option.isNone := fun hnone =>
    List.countP_pos_iff.mpr ⟨_, List.getElem_mem hlt, hnone⟩
  rw [List.countP_set hlt]
  split_ifs with hx hy <;> simp_all

lemma free_put (h : t.freeSlot = some fd) (owner : Owner) (file : F) :
    (t.put fd owner file).free + 1 = t.free := by
  obtain ⟨hlt, hnone, -⟩ := List.findIdx?_eq_some_iff_getElem.mp h
  have hset := countP_isNone_set (List.getElem?_eq_getElem hlt)
    (some ⟨t.owners.length, file⟩ : Option (Descriptor F))
  simpa [free, put, hnone] using hset

lemma free_close (h : t.get fd = some d) : (t.close fd).free = t.free + 1 := by
  have hget : t.slots[fd]? = some (some d) := Option.join_eq_some_iff.mp h
  have hset := countP_isNone_set hget (none : Option (Descriptor F))
  simpa [free, close, h] using hset

/-! ### Ownership -/

/-- The object has closed its descriptors exactly once, but for those under the numbers `held`,
and no others. -/
structure Owns (t : Descriptors F) (held : List Nat) : Prop where
  nodup : held.Nodup
  isOpen : ∀ fd ∈ held, ∃ d, t.get fd = some d
  held_iff : ∀ fd d, t.get fd = some d → (fd ∈ held ↔ t.owners[d.id]? = some .object)
  id_lt : ∀ fd d, t.get fd = some d → d.id < t.owners.length
  id_inj : ∀ fd fd' d d', t.get fd = some d → t.get fd' = some d' → d.id = d'.id → fd = fd'
  unclosed : ∀ fd d, t.get fd = some d → some d.id ∉ t.closes
  closes_lt : ∀ id, some id ∈ t.closes → id < t.owners.length
  closed : ∀ id, t.owners[id]? = some .object →
    (∃ fd d, t.get fd = some d ∧ d.id = id) ∨ t.closes.count (some id) = 1
  spared : ∀ id, t.owners[id]? = some .user → some id ∉ t.closes
  valid : none ∉ t.closes

namespace Owns

variable {held held' : List Nat}

lemma empty (size : Nat) : Owns (Descriptors.empty size : Descriptors F) [] where
  nodup := List.nodup_nil
  isOpen := by simp
  held_iff := by simp
  id_lt := by simp
  id_inj := by simp
  unclosed := by simp
  closes_lt := by simp [Descriptors.empty]
  closed := by simp [Descriptors.empty]
  spared := by simp [Descriptors.empty]
  valid := by simp [Descriptors.empty]

lemma perm (h : Owns t held) (hperm : held.Perm held') : Owns t held' where
  nodup := hperm.nodup_iff.mp h.nodup
  isOpen fd hfd := h.isOpen fd (hperm.mem_iff.mpr hfd)
  held_iff fd d hget := hperm.mem_iff.symm.trans (h.held_iff fd d hget)
  id_lt := h.id_lt
  id_inj := h.id_inj
  unclosed := h.unclosed
  closes_lt := h.closes_lt
  closed := h.closed
  spared := h.spared
  valid := h.valid

/-- A number that is free is not held. -/
lemma not_mem (h : Owns t held) (hget : t.get fd = none) : fd ∉ held := by
  intro hfd
  obtain ⟨d, hd⟩ := h.isOpen fd hfd
  rw [hget] at hd
  cases hd

lemma mem_iff (h : Owns t held) (hget : t.get fd = some d) :
    fd ∈ held ↔ t.ownerOf fd = some .object := by
  rw [h.held_iff fd d hget, ownerOf, hget]
  rfl

/-- A descriptor of the object is closed or still there, if the table keeps what it has. -/
lemma closed_of_keep {t' : Descriptors F} {id : Nat} (h : Owns t held)
    (hid : t.owners[id]? = some .object)
    (hkeep : ∀ fd d, t.get fd = some d → d.id = id → t'.get fd = some d) :
    (∃ fd d, t'.get fd = some d ∧ d.id = id) ∨ t.closes.count (some id) = 1 :=
  (h.closed id hid).imp_left fun ⟨fd, d, hd, hdid⟩ => ⟨fd, d, hkeep fd d hd hdid, hdid⟩

/-- What the object opens is its own, and what the user opens is not. -/
lemma put (h : Owns t held) (hfree : t.freeSlot = some fd) (owner : Owner) (file : F) :
    Owns (t.put fd owner file) (if owner = .object then fd :: held else held) := by
  have hnone := (get_of_freeSlot hfree).1
  have hget := get_put owner file hfree
  have howners : (t.put fd owner file).owners = t.owners ++ [owner] := rfl
  -- the identities so far keep their owners
  have hold : ∀ id < t.owners.length, (t.owners ++ [owner])[id]? = t.owners[id]? :=
    fun id hid => List.getElem?_append_left hid
  have hmem : ∀ fd', fd' ∈ (if owner = .object then fd :: held else held) ↔
      fd' = fd ∧ owner = .object ∨ fd' ∈ held := by
    intro fd'
    split_ifs with ho <;> simp [ho]
  constructor
  case nodup =>
    split_ifs
    · exact List.nodup_cons.mpr ⟨h.not_mem hnone, h.nodup⟩
    · exact h.nodup
  case isOpen =>
    intro fd' hfd'
    rw [hget]
    split_ifs with hfd
    · exact ⟨_, rfl⟩
    · exact h.isOpen fd' (((hmem fd').mp hfd').resolve_left fun hnew => hfd hnew.1)
  case held_iff =>
    intro fd' d hd
    rw [hget] at hd
    rw [hmem, howners]
    split_ifs at hd with hfd
    · cases hd
      simp [hfd, h.not_mem hnone]
    · rw [hold d.id (h.id_lt fd' d hd), ← h.held_iff fd' d hd]
      simp [hfd]
  case id_lt =>
    intro fd' d hd
    rw [hget] at hd
    rw [howners, List.length_append, List.length_singleton]
    split_ifs at hd
    · cases hd
      exact Nat.lt_succ_self _
    · exact (h.id_lt fd' d hd).trans (Nat.lt_succ_self _)
  case id_inj =>
    intro fd₁ fd₂ d₁ d₂ hd₁ hd₂ hid
    rw [hget] at hd₁ hd₂
    split_ifs at hd₁ hd₂ with h₁ h₂ h₂
    · rw [h₁, h₂]
    · cases hd₁
      exact absurd (h.id_lt fd₂ d₂ hd₂) (by simp [← hid])
    · cases hd₂
      exact absurd (h.id_lt fd₁ d₁ hd₁) (by simp [hid])
    · exact h.id_inj fd₁ fd₂ d₁ d₂ hd₁ hd₂ hid
  case unclosed =>
    intro fd' d hd hclosed
    rw [hget] at hd
    split_ifs at hd
    · cases hd
      exact absurd (h.closes_lt _ hclosed) (lt_irrefl _)
    · exact h.unclosed fd' d hd hclosed
  case closes_lt =>
    intro id hid
    rw [howners, List.length_append]
    exact Nat.lt_add_right _ (h.closes_lt id hid)
  case closed =>
    intro id hid
    rcases Nat.lt_or_ge id t.owners.length with hlt | hge
    · rw [howners, hold id hlt] at hid
      refine h.closed_of_keep hid fun fd' d hd _ => ?_
      rw [hget, if_neg, hd]
      rintro rfl
      rw [hnone] at hd
      cases hd
    · have hlt := (List.getElem?_eq_some_iff.mp hid).1
      rw [howners, List.length_append, List.length_singleton] at hlt
      exact Or.inl ⟨fd, ⟨t.owners.length, file⟩, by rw [hget, if_pos rfl],
        show t.owners.length = id by omega⟩
  case spared =>
    intro id hid hclosed
    rw [howners, hold id (h.closes_lt id hclosed)] at hid
    exact h.spared id hid hclosed
  case valid => exact h.valid

/-- The object closes a descriptor that it holds. -/
lemma close (h : Owns t (fd :: held)) : Owns (t.close fd) held := by
  obtain ⟨hnot, hnodup⟩ := List.nodup_cons.mp h.nodup
  obtain ⟨d, hd⟩ := h.isOpen fd List.mem_cons_self
  have howner : t.owners[d.id]? = some .object := (h.held_iff fd d hd).mp List.mem_cons_self
  have hget := get_close t fd
  have hcloses : (t.close fd).closes = t.closes ++ [some d.id] := by
    rw [closes_close, hd]
    rfl
  have hkeep : ∀ {fd' d'}, (t.close fd).get fd' = some d' → fd' ≠ fd ∧ t.get fd' = some d' := by
    intro fd' d' hd'
    rw [hget] at hd'
    split_ifs at hd' with hfd
    exact ⟨hfd, hd'⟩
  constructor
  case nodup => exact hnodup
  case isOpen =>
    intro fd' hfd'
    obtain ⟨d', hd'⟩ := h.isOpen fd' (List.mem_cons_of_mem _ hfd')
    exact ⟨d', by rw [hget, if_neg (ne_of_mem_of_not_mem hfd' hnot), hd']⟩
  case held_iff =>
    intro fd' d' hd'
    obtain ⟨hne, hd'⟩ := hkeep hd'
    rw [owners_close, ← h.held_iff fd' d' hd', List.mem_cons, or_iff_right hne]
  case id_lt =>
    intro fd' d' hd'
    rw [owners_close]
    exact h.id_lt fd' d' (hkeep hd').2
  case id_inj =>
    intro fd₁ fd₂ d₁ d₂ hd₁ hd₂
    exact h.id_inj fd₁ fd₂ d₁ d₂ (hkeep hd₁).2 (hkeep hd₂).2
  case unclosed =>
    intro fd' d' hd' hclosed
    obtain ⟨hne, hd'⟩ := hkeep hd'
    rw [hcloses, List.mem_append, List.mem_singleton, Option.some_inj] at hclosed
    rcases hclosed with hclosed | hid
    · exact h.unclosed fd' d' hd' hclosed
    · exact hne (h.id_inj fd' fd d' d hd' hd hid)
  case closes_lt =>
    intro id hid
    rw [hcloses, List.mem_append, List.mem_singleton, Option.some_inj] at hid
    rw [owners_close]
    rcases hid with hid | rfl
    · exact h.closes_lt id hid
    · exact h.id_lt fd d hd
  case closed =>
    intro id hid
    rw [owners_close] at hid
    by_cases hdid : d.id = id
    · subst hdid
      right
      rw [hcloses, List.count_append, List.count_eq_zero.mpr (h.unclosed fd d hd)]
      simp
    · have hcount : (t.close fd).closes.count (some id) = t.closes.count (some id) := by
        simp [hcloses, List.count_append, hdid]
      rw [hcount]
      refine h.closed_of_keep hid fun fd' d' hd' hid' => ?_
      rw [hget, if_neg, hd']
      rintro rfl
      rw [hd] at hd'
      cases hd'
      exact hdid hid'
  case spared =>
    intro id hid hclosed
    rw [owners_close] at hid
    rw [hcloses, List.mem_append, List.mem_singleton, Option.some_inj] at hclosed
    rcases hclosed with hclosed | rfl
    · exact h.spared id hid hclosed
    · rw [howner] at hid
      cases hid
  case valid =>
    rw [hcloses]
    simpa using h.valid

/-- The user gives one of its descriptors to the object. -/
lemma handOver (h : Owns t held) (huser : t.ownerOf fd = some .user) :
    Owns (t.handOver fd) (fd :: held) := by
  obtain ⟨d, hd, howner⟩ := Option.bind_eq_some_iff.mp huser
  have howners : (t.handOver fd).owners = t.owners.set d.id .object := by
    rw [Descriptors.handOver, hd]
  have hcloses : (t.handOver fd).closes = t.closes := by
    rw [Descriptors.handOver, hd]
  have hlt : d.id < t.owners.length := h.id_lt fd d hd
  constructor
  case nodup =>
    refine List.nodup_cons.mpr ⟨fun hmem => ?_, h.nodup⟩
    rw [h.held_iff fd d hd, howner] at hmem
    cases hmem
  case isOpen =>
    intro fd' hfd'
    rw [get_handOver]
    rcases List.mem_cons.mp hfd' with rfl | hfd'
    · exact ⟨d, hd⟩
    · exact h.isOpen fd' hfd'
  case held_iff =>
    intro fd' d' hd'
    rw [get_handOver] at hd'
    rw [howners, List.mem_cons, h.held_iff fd' d' hd']
    by_cases hid : d'.id = d.id
    · rw [hid, List.getElem?_set_self hlt]
      simp [h.id_inj fd' fd d' d hd' hd hid]
    · rw [List.getElem?_set_ne (Ne.symm hid)]
      refine or_iff_right ?_
      rintro rfl
      rw [hd] at hd'
      cases hd'
      exact hid rfl
  case id_lt =>
    intro fd' d' hd'
    rw [get_handOver] at hd'
    rw [howners, List.length_set]
    exact h.id_lt fd' d' hd'
  case id_inj => simpa only [get_handOver] using h.id_inj
  case unclosed => simpa only [get_handOver, hcloses] using h.unclosed
  case closes_lt => simpa only [hcloses, howners, List.length_set] using h.closes_lt
  case closed =>
    intro id hid
    simp only [get_handOver, hcloses]
    by_cases hdid : d.id = id
    · exact Or.inl ⟨fd, d, hd, hdid⟩
    · rw [howners, List.getElem?_set_ne hdid] at hid
      exact h.closed id hid
  case spared =>
    intro id hid
    rw [hcloses]
    by_cases hdid : d.id = id
    · subst hdid
      rw [howners, List.getElem?_set_self hlt] at hid
      cases hid
    · rw [howners, List.getElem?_set_ne hdid] at hid
      exact h.spared id hid
  case valid => rw [hcloses]; exact h.valid

/-- The user closes one of its descriptors. -/
lemma userClose (h : Owns t held) (huser : t.ownerOf fd = some .user) :
    Owns (t.userClose fd) held := by
  obtain ⟨d, hd, howner⟩ := Option.bind_eq_some_iff.mp huser
  have hget := get_userClose hd
  have hnot : fd ∉ held := by
    rw [h.held_iff fd d hd, howner]
    simp
  have hkeep : ∀ {fd' d'}, (t.userClose fd).get fd' = some d' → t.get fd' = some d' := by
    intro fd' d' hd'
    rw [hget] at hd'
    split_ifs at hd'
    exact hd'
  constructor
  case nodup => exact h.nodup
  case isOpen =>
    intro fd' hfd'
    rw [hget, if_neg (ne_of_mem_of_not_mem hfd' hnot)]
    exact h.isOpen fd' hfd'
  case held_iff => exact fun fd' d' hd' => h.held_iff fd' d' (hkeep hd')
  case id_lt => exact fun fd' d' hd' => h.id_lt fd' d' (hkeep hd')
  case id_inj =>
    exact fun fd₁ fd₂ d₁ d₂ hd₁ hd₂ => h.id_inj fd₁ fd₂ d₁ d₂ (hkeep hd₁) (hkeep hd₂)
  case unclosed => exact fun fd' d' hd' => h.unclosed fd' d' (hkeep hd')
  case closes_lt => exact h.closes_lt
  case closed =>
    intro id hid
    refine h.closed_of_keep hid fun fd' d' hd' hid' => ?_
    rw [hget, if_neg, hd']
    rintro rfl
    rw [hd] at hd'
    cases hd'
    rw [← hid'] at hid
    exact absurd (howner.symm.trans hid) (by simp)
  case spared => exact h.spared
  case valid => exact h.valid

/-- An open number is held, or it is the user's. -/
lemma user_or_mem (h : Owns t held) (hd : t.get fd = some d) :
    t.ownerOf fd = some .user ∨ fd ∈ held := by
  obtain ⟨owner, howner⟩ : ∃ owner, t.owners[d.id]? = some owner :=
    ⟨_, List.getElem?_eq_getElem (h.id_lt fd d hd)⟩
  rw [h.mem_iff hd, ownerOf, hd, Option.bind_some, howner]
  cases owner with
  | object => exact Or.inr rfl
  | user => exact Or.inl rfl

/-- An object that holds nothing has closed everything of its own exactly once. -/
lemma count_closes (h : Owns t []) {id : Nat} (hid : t.owners[id]? = some .object) :
    t.closes.count (some id) = 1 := by
  refine (h.closed id hid).resolve_left ?_
  rintro ⟨fd, d, hd, rfl⟩
  exact List.not_mem_nil ((h.held_iff fd d hd).mpr hid)

end Owns

end Descriptors

end Utilmm
