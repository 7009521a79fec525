import Utilmm.Core.Except
import Utilmm.Core.Ledger
import Utilmm.Core.Runs
import Utilmm.Text

/-!
# Plugins

A `dll` opens its library at every access to a symbol, and the pointer which it returns closes the
library when the last of its copies goes away. Every object of a plugin has such a copy as its member
`m_dll`, so that the code of its class is there as long as the object. The destructor of the object
belongs to that code, and it goes on after `m_dll` is destroyed.
-/

namespace Utilmm.Plugin

/-- The control block of shared pointers to a symbol. Their deleter is `dlclose` of the library. -/
structure Block where
  library : Str
  uses : Nat
  deriving DecidableEq, Repr

inductive Fault
  /-- The code of a library was executed after the library was closed for the last time. -/
  | unmapped
  deriving DecidableEq, Repr

/-- The libraries of a process. -/
structure Linker where
  /-- How often each library is open. -/
  opened : Str → Nat
  blocks : List Block

/-- What the system answers when a symbol is looked up. -/
inductive Lookup
  /-- `dlopen` returns zero. -/
  | noLibrary
  /-- `dlsym` fails with the text of `dlerror`. -/
  | noSymbol (error : Str)
  | found
  deriving DecidableEq, Repr

/-- An exception, and whether its class is one of the library. -/
structure Thrown where
  what : Str
  ofLibrary : Bool
  deriving DecidableEq, Repr

namespace Linker

def dlopen (l : Linker) (name : Str) : Linker :=
  { l with opened := Function.update l.opened name (l.opened name + 1) }

def dlclose (l : Linker) (name : Str) : Linker :=
  { l with opened := Function.update l.opened name (l.opened name - 1) }

/-- The library of a pointer with control block `b`. -/
def library (l : Linker) (b : Nat) : Option Str := l.blocks[b]?.map Block.library

/-- The number of pointers which share control block `b`. -/
def uses (l : Linker) (b : Nat) : Nat := l.blocks[b]?.elim 0 Block.uses

/-- Code of a library is called or returned to. -/
def enter (l : Linker) (name : Str) : Except Fault Unit :=
  if 0 < l.opened name then .ok () else .error .unmapped

/-- Code of the library of control block `b` is called. -/
def use (l : Linker) (b : Nat) : Except Fault Unit :=
  match l.library b with
  | none => .error .unmapped
  | some name => l.enter name

/-- A new control block whose pointer closes the library. -/
def sharedPtr (l : Linker) (name : Str) : Linker := { l with blocks := l.blocks ++ [⟨name, 1⟩] }

/-- The counter of control block `b` is set. -/
def setUses (l : Linker) (b n : Nat) : Linker :=
  { l with blocks := l.blocks.modify b fun block => { block with uses := n } }

/-- A pointer with control block `b` is copied. -/
def share (l : Linker) (b : Nat) : Linker := l.setUses b (l.uses b + 1)

/-- A pointer with control block `b` is destroyed. -/
def drop (l : Linker) (b : Nat) : Linker :=
  let l' := l.setUses b (l.uses b - 1)
  if l.uses b = 1 then (l.library b).elim l' l'.dlclose else l'

/-- `dll::get`, which returns the control block of its result. -/
def get (l : Linker) (name : Str) : Lookup → Except Str Nat × Linker
  | .noLibrary => (.error "Could not open DLL".toList, l)
  -- nothing closes the library
  | .noSymbol error => (.error error, l.dlopen name)
  | .found => (.ok l.blocks.length, (l.dlopen name).sharedPtr name)

/-- `get_abstract_factory`, where `plugins` is what `boost_exported_plugins_list` returns: the names
of the classes with the base for which each was exported. -/
def getAbstractFactory (l : Linker) (name base klass : Str) (lookup : Lookup)
    (plugins : List (Str × Str)) : Except Str Nat × Linker :=
  match l.get name lookup with
  | (.error what, l) => (.error what, l)
  | (.ok f, l) =>
    match plugins.lookup klass with
    | none => (.error "Class of the specified name is not found".toList, l.drop f)
    | some exported =>
      if exported = base then (.ok f, l)
      else (.error "Can't cast to the right factor type\n".toList, l.drop f)

/-- `plugin_factory_item::create` and `concrete_factory_item::create`, where the constructor of the
class may throw. It returns the control block of `m_dll`. -/
def create (l : Linker) (name base klass : Str) (lookup : Lookup) (plugins : List (Str × Str))
    (thrown : Option Thrown) : Except Fault (Except Thrown Nat × Linker) :=
  match l.getAbstractFactory name base klass lookup plugins with
  | (.error what, l) => .ok (.error ⟨what, false⟩, l)
  | (.ok second, l) => do
    let l := l.share second
    l.enter name
    match thrown with
    | none => return (.ok second, l.drop second)
    | some e =>
      -- `m_dll` is destroyed, and then `r`
      let l := (l.drop second).drop second
      -- the caller destroys the exception
      if e.ofLibrary then l.enter name
      return (.error e, l)

/-- The destructor of a plugin with `m_dll` in its control block `b`. -/
def destruct (l : Linker) (b : Nat) : Except Fault Linker :=
  match l.library b with
  | none => .error .unmapped
  | some name => do
    l.enter name
    let l := l.drop b
    -- back in `~plugin_wrapper`
    l.enter name
    return l

/-- The class is found in the library. -/
def Offers (base klass : Str) (lookup : Lookup) (plugins : List (Str × Str)) : Prop :=
  lookup = .found ∧ plugins.lookup klass = some base

/-- An exception of the library comes out of the constructor. -/
def Escapes (base klass : Str) (lookup : Lookup) (plugins : List (Str × Str))
    (thrown : Option Thrown) : Prop :=
  Offers base klass lookup plugins ∧ ∃ e, thrown = some e ∧ e.ofLibrary = true

/-- One of the pointers `held` refers to the library, or a symbol was not found in it. -/
def Refers (l : Linker) (held : Multiset Nat) (lost : Multiset Str) (name : Str) : Prop :=
  (∃ b ∈ held, l.library b = some name) ∨ name ∈ lost

/-- The libraries of the control blocks in use. -/
def inUse (l : Linker) : Multiset Str :=
  l.blocks.filterMap fun block => if 0 < block.uses then some block.library else none

end Linker

/-! ### Programs -/

/-- A program which has pointers to symbols and objects of plugins. -/
structure State where
  linker : Linker
  /-- The control block of each pointer, `none` once the pointer is destroyed. -/
  handles : List (Option Nat)
  /-- The control block of `m_dll` of each object, `none` once the object is deleted. -/
  objects : List (Option Nat)
  /-- The libraries in which symbols were not found. -/
  lost : List Str

def State.start : State := ⟨⟨fun _ => 0, []⟩, [], [], []⟩

inductive Op
  /-- `dll::get` -/
  | get (name : Str) (lookup : Lookup)
  /-- A pointer to a symbol is copied. -/
  | copy (i : Nat)
  /-- A symbol is used. -/
  | useSymbol (i : Nat)
  /-- A pointer to a symbol is destroyed. -/
  | drop (i : Nat)
  /-- `plugin_factory::create` -/
  | create (name base klass : Str) (lookup : Lookup) (plugins : List (Str × Str))
      (thrown : Option Thrown)
  /-- A method of a plugin is called. -/
  | callMethod (i : Nat)
  /-- A plugin is deleted. -/
  | delete (i : Nat)
  deriving DecidableEq, Repr

namespace State

def handle (s : State) (i : Nat) : Option Nat := s.handles[i]?.join

def object (s : State) (i : Nat) : Option Nat := s.objects[i]?.join

/-- The library which `dll::get` leaves open. -/
def leftOpen (name : Str) : Lookup → List Str
  | .noSymbol _ => [name]
  | _ => []

def exec (s : State) : Op → Except Fault State
  | .get name lookup =>
    let (res, linker) := s.linker.get name lookup
    .ok { s with
      linker
      handles := s.handles ++ (res.toOption.map some).toList
      lost := leftOpen name lookup ++ s.lost }
  | .copy i =>
    match s.handle i with
    | none => .ok s
    | some b => .ok { s with linker := s.linker.share b, handles := s.handles ++ [some b] }
  | .useSymbol i =>
    match s.handle i with
    | none => .ok s
    | some b => do
      s.linker.use b
      return s
  | .drop i =>
    match s.handle i with
    | none => .ok s
    | some b => .ok { s with linker := s.linker.drop b, handles := s.handles.set i none }
  | .create name base klass lookup plugins thrown => do
    let (res, linker) ← s.linker.create name base klass lookup plugins thrown
    return { s with
      linker
      objects := s.objects ++ (res.toOption.map some).toList
      lost := leftOpen name lookup ++ s.lost }
  | .callMethod i =>
    match s.object i with
    | none => .ok s
    | some b => do
      s.linker.use b
      return s
  | .delete i =>
    match s.object i with
    | none => .ok s
    | some b => do
      let linker ← s.linker.destruct b
      return { s with linker, objects := s.objects.set i none }

/-- The pointers and the objects are there. -/
def Legal (s : State) : Op → Prop
  | .copy i | .useSymbol i | .drop i => (s.handle i).isSome
  | .callMethod i | .delete i => (s.object i).isSome
  | _ => True

/-- The pointers of the program and of its objects. -/
def held (s : State) : Multiset Nat := s.handles.filterMap id + s.objects.filterMap id

/-- A pointer or an object refers to the library, or a symbol was not found in it. -/
def Refers (s : State) (name : Str) : Prop := s.linker.Refers s.held s.lost name

/-- A library is open as long as something refers to it. -/
def Tracks (s : State) : Prop := ∀ name, 0 < s.linker.opened name ↔ s.Refers name

/-- Something else refers to the library of an object which is deleted, and of an object whose
constructor throws an exception of the library. -/
def Shared (s : State) : Op → Prop
  | .create name base klass lookup plugins thrown =>
    Linker.Escapes base klass lookup plugins thrown → s.Refers name
  | .delete i => ∀ b name, s.object i = some b → s.linker.library b = some name →
    { s with objects := s.objects.set i none }.Refers name
  | _ => True

end State

def machine : Machine State Op Fault where
  legal := State.Legal
  step := State.exec

/-! ### Control blocks -/

open Ledger

namespace Linker

variable {l : Linker} {held : Multiset Nat} {lost : Multiset Str} {b : Nat} {name : Str}
  {block : Block}

/-- The pointers `held` share the control blocks, and each library is open once for each control
block in use and once for each symbol which was not found. -/
structure Accounts (l : Linker) (held : Multiset Nat) (lost : Multiset Str) : Prop where
  uses : Balanced l.uses held
  opened : Balanced l.opened (l.inUse + lost)

lemma uses_eq (hb : l.blocks[b]? = some block) : l.uses b = block.uses := by
  rw [uses, hb, Option.elim_some]

lemma library_eq (hb : l.blocks[b]? = some block) : l.library b = some block.library := by
  rw [library, hb, Option.map_some]

lemma exists_block (h : Balanced l.uses held) (hb : b ∈ held) :
    ∃ block, l.blocks[b]? = some block ∧ 0 < block.uses := by
  have hpos := h.pos_iff.mpr hb
  cases hblock : l.blocks[b]? with
  | none => simp [uses, hblock] at hpos
  | some block => exact ⟨block, rfl, by rwa [uses_eq hblock] at hpos⟩

lemma setUses_eq (hb : l.blocks[b]? = some block) (n : Nat) :
    (l.setUses b n).blocks = l.blocks.set b { block with uses := n } := by
  rw [setUses, List.modify_eq_set_getElem?, hb]
  rfl

/-- The counters after one of them changes. -/
lemma uses_setUses (hb : l.blocks[b]? = some block) (n : Nat) :
    (l.setUses b n).uses = Function.update l.uses b n := by
  have hlt := (List.getElem?_eq_some_iff.mp hb).1
  funext b'
  by_cases heq : b' = b
  · subst heq
    rw [Function.update_self, uses, setUses_eq hb, List.getElem?_set_self hlt, Option.elim_some]
  · rw [Function.update_of_ne heq, uses, setUses_eq hb, List.getElem?_set_ne (Ne.symm heq), uses]

/-- The libraries of the other control blocks. -/
def others (l : Linker) (b : Nat) : Multiset Str :=
  (l.blocks.eraseIdx b).filterMap fun block => if 0 < block.uses then some block.library else none

lemma inUse_eq (hb : l.blocks[b]? = some block) : l.inUse
    = (if 0 < block.uses then {block.library} else 0) + l.others b := by
  rw [inUse, filterMap_eq hb, others]
  split_ifs <;> rfl

lemma inUse_setUses (hb : l.blocks[b]? = some block) (n : Nat) :
    (l.setUses b n).inUse = (if 0 < n then {block.library} else 0) + l.others b := by
  rw [inUse, setUses_eq hb, filterMap_set (List.getElem?_eq_some_iff.mp hb).1, others]
  split_ifs <;> rfl

/-! The control blocks keep their libraries. -/

@[simp] lemma library_setUses (b n b' : Nat) : (l.setUses b n).library b' = l.library b' := by
  have hsame (block : Block) : Block.library (if b = b' then { block with uses := n } else block)
      = block.library := by
    split_ifs <;> rfl
  cases hblock : l.blocks[b']? with
  | none => simp [library, setUses, List.getElem?_modify, hblock]
  | some block => simp [library, setUses, List.getElem?_modify, hblock, hsame]

@[simp] lemma library_share (b b' : Nat) : (l.share b).library b' = l.library b' :=
  library_setUses ..

@[simp] lemma library_drop (b b' : Nat) : (l.drop b).library b' = l.library b' := by
  rw [drop]
  split_ifs
  · cases l.library b <;> exact library_setUses ..
  · exact library_setUses ..

lemma library_sharedPtr (hb : l.library b = some name) (name' : Str) :
    (l.sharedPtr name').library b = some name := by
  have hlt : b < l.blocks.length := by
    by_contra hle
    simp [library, List.getElem?_eq_none (not_lt.mp hle)] at hb
  rw [library, sharedPtr, List.getElem?_append_left hlt]
  exact hb

lemma library_sharedPtr_self : (l.sharedPtr name).library l.blocks.length = some name := by
  simp [library, sharedPtr]

/-- What is in use is what the pointers refer to. -/
lemma mem_inUse_iff (h : Balanced l.uses held) :
    name ∈ l.inUse ↔ ∃ b ∈ held, l.library b = some name := by
  rw [inUse, Multiset.mem_coe, List.mem_filterMap]
  constructor
  · rintro ⟨block, hmem, hname⟩
    obtain ⟨b, hb⟩ := List.mem_iff_getElem?.mp hmem
    split_ifs at hname with hpos
    exact ⟨b, h.pos_iff.mp (by rwa [uses_eq hb]), (library_eq hb).trans hname⟩
  · rintro ⟨b, hb, hname⟩
    obtain ⟨block, hblock, hpos⟩ := exists_block h hb
    refine ⟨block, List.mem_of_getElem? hblock, ?_⟩
    rw [if_pos hpos, ← library_eq hblock, hname]

/-- The pointers which were there refer to the same libraries. -/
def Extends (l l' : Linker) : Prop := ∀ b name, l.library b = some name → l'.library b = some name

namespace Accounts

/-- A library is open as long as something refers to it. -/
lemma opened_iff (h : l.Accounts held lost) :
    0 < l.opened name ↔ l.Refers held lost name := by
  rw [Refers, h.opened.pos_iff, Multiset.mem_add, mem_inUse_iff h.uses]

/-- A symbol was not found. -/
lemma dlopen (h : l.Accounts held lost) (name : Str) :
    (l.dlopen name).Accounts held (name ::ₘ lost) where
  uses := h.uses
  opened := by
    have hopened := h.opened.acquire name
    rwa [← Multiset.add_cons] at hopened

/-- A symbol was found. -/
lemma found (h : l.Accounts held lost) (name : Str) :
    ((l.dlopen name).sharedPtr name).Accounts (l.blocks.length ::ₘ held) lost where
  uses := by
    have hnew : l.uses l.blocks.length = 0 := by simp [Linker.uses]
    have huses : ((l.dlopen name).sharedPtr name).uses
        = Function.update l.uses l.blocks.length (l.uses l.blocks.length + 1) := by
      rw [hnew]
      funext b
      by_cases heq : b = l.blocks.length
      · subst heq
        simp [Linker.uses, sharedPtr, Linker.dlopen]
      · rw [Function.update_of_ne heq]
        simp only [Linker.uses, sharedPtr, Linker.dlopen, List.getElem?_append]
        split_ifs with hlt
        · rfl
        · rw [List.getElem?_eq_none (by simp; omega), List.getElem?_eq_none (by omega)]
    rw [huses]
    exact h.uses.acquire _
  opened := by
    have huse : ((l.dlopen name).sharedPtr name).inUse = name ::ₘ l.inUse := by
      simp [inUse, sharedPtr, Linker.dlopen]
    rw [huse, Multiset.cons_add]
    exact h.opened.acquire name

/-- A pointer is copied. -/
lemma share (h : l.Accounts held lost) (hb : b ∈ held) :
    (l.share b).Accounts (b ::ₘ held) lost := by
  obtain ⟨block, hblock, hpos⟩ := exists_block h.uses hb
  constructor
  · rw [Linker.share, uses_setUses hblock]
    exact h.uses.acquire b
  · rw [Linker.share, inUse_setUses hblock, if_pos (Nat.succ_pos _)]
    have hopened := h.opened
    rwa [inUse_eq hblock, if_pos hpos] at hopened

/-- A pointer is destroyed. -/
lemma drop (h : l.Accounts (b ::ₘ held) lost) : (l.drop b).Accounts held lost := by
  obtain ⟨block, hblock, hpos⟩ := exists_block h.uses (Multiset.mem_cons_self b held)
  have huses : Balanced (l.setUses b (l.uses b - 1)).uses held := by
    rw [uses_setUses hblock]
    exact h.uses.release
  have hopened := h.opened
  rw [inUse_eq hblock, if_pos hpos] at hopened
  have huse := inUse_setUses hblock (l.uses b - 1)
  rw [Linker.drop]
  split_ifs with hone
  · -- the last pointer closes the library
    rw [library_eq hblock, Option.elim_some]
    refine ⟨huses, ?_⟩
    show Balanced _ ((l.setUses b (l.uses b - 1)).inUse + lost)
    rw [huse, hone, if_neg (Nat.lt_irrefl 0), zero_add]
    rw [Multiset.singleton_add, Multiset.cons_add] at hopened
    exact hopened.release
  · refine ⟨huses, ?_⟩
    rw [huse, if_pos]
    · exact hopened
    · rw [uses_eq hblock] at hone ⊢
      omega

/-- A library to which something refers can be entered. -/
lemma enter_eq_ok (h : l.Accounts held lost)
    (hname : l.Refers held lost name) : l.enter name = .ok () :=
  if_pos (h.opened_iff.mpr hname)

lemma enter_eq_error (h : l.Accounts held lost)
    (hname : ¬ l.Refers held lost name) : l.enter name = .error .unmapped :=
  if_neg (mt h.opened_iff.mp hname)

lemma exists_library (h : l.Accounts held lost) (hb : b ∈ held) :
    ∃ name, l.library b = some name := by
  obtain ⟨block, hblock, -⟩ := exists_block h.uses hb
  exact ⟨block.library, library_eq hblock⟩

lemma use_eq (h : l.Accounts held lost) (hb : b ∈ held) : l.use b = .ok () := by
  obtain ⟨name, hname⟩ := h.exists_library hb
  simp only [Linker.use, hname]
  exact h.enter_eq_ok (.inl ⟨b, hb, hname⟩)

lemma refers_iff (h : l.Accounts held lost) {l' : Linker} (hext : l.Extends l') (name : Str) :
    l'.Refers held lost name ↔ l.Refers held lost name := by
  refine or_congr_left ⟨?_, ?_⟩
  · rintro ⟨b, hb, hname⟩
    obtain ⟨name', hname'⟩ := h.exists_library hb
    rw [hext b name' hname'] at hname
    exact ⟨b, hb, hname'.trans hname⟩
  · rintro ⟨b, hb, hname⟩
    exact ⟨b, hb, hext b name hname⟩

end Accounts

/-! ### The functions of the library -/

variable {l' : Linker} {base klass : Str} {lookup : Lookup} {plugins : List (Str × Str)}

/-- A function which looks a symbol up leaves `res`. If it `succeeds`, there is a pointer more. -/
structure Leaves {ε : Type} (l : Linker) (held : Multiset Nat) (lost : Multiset Str) (name : Str)
    (lookup : Lookup) (succeeds : Prop) (res : Except ε Nat × Linker) : Prop where
  extend : l.Extends res.2
  accounts : res.2.Accounts (res.1.toOption.toList + held) (State.leftOpen name lookup + lost)
  library : ∀ b, res.1 = .ok b → res.2.library b = some name
  isOk_iff : res.1.isOk = true ↔ succeeds

/-- What is left of a symbol which was found. -/
lemma accounts_ok_iff {ε : Type} : l.Accounts ((Except.ok b : Except ε Nat).toOption.toList + held)
    (State.leftOpen name .found + lost) ↔ l.Accounts (b ::ₘ held) lost := by
  show l.Accounts ({b} + held) (0 + lost) ↔ _
  rw [zero_add, Multiset.singleton_add]

lemma accounts_error_iff {ε : Type} {e : ε} :
    l.Accounts ((Except.error e : Except ε Nat).toOption.toList + held)
      (State.leftOpen name .found + lost) ↔ l.Accounts held lost := by
  show l.Accounts (0 + held) (0 + lost) ↔ _
  rw [zero_add, zero_add]

lemma leaves_get (h : l.Accounts held lost) (name : Str) (lookup : Lookup) :
    l.Leaves held lost name lookup (lookup = .found) (l.get name lookup) := by
  cases lookup with
  | noLibrary =>
    refine ⟨fun _ _ => id, ?_, by simp [get], by simp [get, Except.isOk, Except.toBool]⟩
    show l.Accounts (0 + held) (0 + lost)
    rwa [zero_add, zero_add]
  | noSymbol error =>
    refine ⟨fun _ _ => id, ?_, by simp [get], by simp [get, Except.isOk, Except.toBool]⟩
    show (l.dlopen name).Accounts (0 + held) ({name} + lost)
    rw [zero_add, Multiset.singleton_add]
    exact h.dlopen name
  | found =>
    refine ⟨fun b name' hb => library_sharedPtr hb name, ?_, ?_, by
      simp [get, Except.isOk, Except.toBool]⟩
    · exact accounts_ok_iff.mpr (h.found name)
    · rintro b ⟨rfl⟩
      exact library_sharedPtr_self

/-- A pointer which was found is destroyed again. -/
lemma Leaves.drop {ε ε' : Type} {b : Nat} {succeeds succeeds' : Prop}
    (h : l.Leaves held lost name .found succeeds ((.ok b : Except ε Nat), l')) (e : ε')
    (hnot : ¬ succeeds') :
    l.Leaves held lost name .found succeeds' ((.error e : Except ε' Nat), l'.drop b) where
  extend b' name' hb := (library_drop b b').trans (h.extend b' name' hb)
  accounts := accounts_error_iff.mpr (accounts_ok_iff.mp h.accounts).drop
  library b hb := by cases hb
  isOk_iff := by simpa [Except.isOk, Except.toBool] using hnot

lemma leaves_getAbstractFactory (h : l.Accounts held lost) (name base klass : Str)
    (lookup : Lookup) (plugins : List (Str × Str)) :
    l.Leaves held lost name lookup (Offers base klass lookup plugins)
      (l.getAbstractFactory name base klass lookup plugins) := by
  have hget := leaves_get h name lookup
  rw [getAbstractFactory]
  rcases hres : l.get name lookup with ⟨res, l'⟩
  rw [hres] at hget
  cases res with
  | error what =>
    have hfound : lookup ≠ .found := fun heq => by
      simpa [Except.isOk, Except.toBool] using hget.isOk_iff.mpr heq
    refine ⟨hget.extend, hget.accounts, hget.library, ?_⟩
    simp [Except.isOk, Except.toBool, Offers, hfound]
  | ok f =>
    obtain rfl : lookup = .found := hget.isOk_iff.mp rfl
    cases hklass : plugins.lookup klass with
    | none => exact hget.drop _ (by simp [Offers, hklass])
    | some exported =>
      simp only
      split_ifs with hbase
      · refine ⟨hget.extend, hget.accounts, hget.library, ?_⟩
        simp [Except.isOk, Except.toBool, Offers, hklass, hbase]
      · exact hget.drop _ (by simp [Offers, hklass, hbase])

lemma create_eq (h : l.Accounts held lost) (name base klass : Str) (lookup : Lookup)
    (plugins : List (Str × Str)) (thrown : Option Thrown) :
    (l.create name base klass lookup plugins thrown = .error .unmapped ∧
        Escapes base klass lookup plugins thrown ∧ ¬ l.Refers held lost name) ∨
      ∃ res, l.create name base klass lookup plugins thrown = .ok res ∧
        l.Leaves held lost name lookup (Offers base klass lookup plugins ∧ thrown = none) res ∧
        (Escapes base klass lookup plugins thrown → l.Refers held lost name) := by
  have hfactory := leaves_getAbstractFactory h name base klass lookup plugins
  rw [create]
  rcases hres : l.getAbstractFactory name base klass lookup plugins with ⟨res, l'⟩
  rw [hres] at hfactory
  cases res with
  | error what =>
    have hnot : ¬ Offers base klass lookup plugins := fun hoffers => by
      simpa [Except.isOk, Except.toBool] using hfactory.isOk_iff.mpr hoffers
    refine .inr ⟨_, rfl, ⟨hfactory.extend, hfactory.accounts, ?_, ?_⟩, fun hesc =>
      absurd hesc.1 hnot⟩
    · rintro b ⟨⟩
    · simp [Except.isOk, Except.toBool, hnot]
  | ok second =>
    have hoffers : Offers base klass lookup plugins := hfactory.isOk_iff.mp rfl
    obtain rfl := hoffers.1
    have hsecond : l'.Accounts (second ::ₘ held) lost := accounts_ok_iff.mp hfactory.accounts
    have hlibrary : l'.library second = some name := hfactory.library second rfl
    have hshare := hsecond.share (Multiset.mem_cons_self second held)
    have henter : (l'.share second).enter name = .ok () :=
      hshare.enter_eq_ok (.inl ⟨second, Multiset.mem_cons_self .., by rw [library_share, hlibrary]⟩)
    simp only [henter, Except.ok_bind]
    have hext : l.Extends ((l'.share second).drop second) := fun b name' hb => by
      rw [library_drop, library_share, hfactory.extend b name' hb]
    cases thrown with
    | none =>
      refine .inr ⟨_, rfl, ⟨hext, accounts_ok_iff.mpr hshare.drop, ?_, ?_⟩, fun hesc => ?_⟩
      · rintro b ⟨rfl⟩
        rw [library_drop, library_share, hlibrary]
      · simp [Except.isOk, Except.toBool, hoffers]
      · obtain ⟨-, e, he, -⟩ := hesc
        cases he
    | some e =>
      -- nothing is left of the object and of the pointers to its factory
      have hgone : (((l'.share second).drop second).drop second).Accounts held lost :=
        hshare.drop.drop
      have hext' : l.Extends (((l'.share second).drop second).drop second) := fun b name' hb => by
        rw [library_drop, hext b name' hb]
      have hleaves : l.Leaves held lost name .found
          (Offers base klass .found plugins ∧ some e = none)
          ((.error e : Except Thrown Nat), ((l'.share second).drop second).drop second) := by
        refine ⟨hext', accounts_error_iff.mpr hgone, ?_, ?_⟩
        · rintro b ⟨⟩
        · simp [Except.isOk, Except.toBool]
      have hrefers := h.refers_iff hext' name
      by_cases hname : l.Refers held lost name
      · refine .inr ⟨_, ?_, hleaves, fun _ => hname⟩
        have hback := hgone.enter_eq_ok (hrefers.mpr hname)
        simp only [hback]
        split_ifs <;> rfl
      · have hback := hgone.enter_eq_error (mt hrefers.mp hname)
        simp only [hback]
        by_cases hown : e.ofLibrary = true
        · exact .inl ⟨by rw [if_pos hown]; rfl, ⟨hoffers, e, rfl, hown⟩, hname⟩
        · refine .inr ⟨_, by rw [if_neg hown]; rfl, hleaves, ?_⟩
          rintro ⟨-, e', ⟨rfl⟩, hown'⟩
          exact absurd hown' hown

/-- The destructor of a plugin needs something else which refers to its library. -/
lemma destruct_eq (h : l.Accounts (b ::ₘ held) lost) (hname : l.library b = some name) :
    (l.destruct b = .error .unmapped ∧ ¬ l.Refers held lost name) ∨
      l.destruct b = .ok (l.drop b) ∧ l.Refers held lost name := by
  have henter : l.enter name = .ok () :=
    h.enter_eq_ok (.inl ⟨b, Multiset.mem_cons_self b held, hname⟩)
  have hrefers : (l.drop b).Refers held lost name ↔ l.Refers held lost name := by
    simp only [Refers, library_drop]
  simp only [destruct, hname, henter, Except.ok_bind]
  by_cases hother : l.Refers held lost name
  · rw [h.drop.enter_eq_ok (hrefers.mpr hother)]
    exact .inr ⟨rfl, hother⟩
  · rw [h.drop.enter_eq_error (mt hrefers.mp hother)]
    exact .inl ⟨rfl, hother⟩

end Linker

/-! ### Runs -/

/-- The pointers and the objects of the program are those which share the control blocks. -/
def State.Sound (s : State) : Prop := s.linker.Accounts s.held s.lost

namespace State.Sound

variable {s : State} {i b : Nat}

lemma start : Sound .start := ⟨Balanced.empty, Balanced.empty⟩

lemma tracks (h : s.Sound) : s.Tracks := fun _ => Linker.Accounts.opened_iff h

lemma held_handle (hi : s.handle i = some b) :
    s.held = b ::ₘ held { s with handles := s.handles.set i none } := by
  have hget : s.handles[i]? = some (some b) := Option.join_eq_some_iff.mp hi
  rw [held, held, filterMap_eq hget, filterMap_set (List.getElem?_eq_some_iff.mp hget).1]
  simp

lemma held_object (hi : s.object i = some b) :
    s.held = b ::ₘ held { s with objects := s.objects.set i none } := by
  have hget : s.objects[i]? = some (some b) := Option.join_eq_some_iff.mp hi
  rw [held, held, filterMap_eq hget, filterMap_set (List.getElem?_eq_some_iff.mp hget).1]
  simp

lemma mem_held_handle (hi : s.handle i = some b) : b ∈ s.held :=
  held_handle hi ▸ Multiset.mem_cons_self ..

lemma mem_held_object (hi : s.object i = some b) : b ∈ s.held :=
  held_object hi ▸ Multiset.mem_cons_self ..

lemma accounts_handle (h : s.Sound) (hi : s.handle i = some b) :
    s.linker.Accounts (b ::ₘ held { s with handles := s.handles.set i none }) s.lost := by
  rw [← held_handle hi]
  exact h

lemma accounts_object (h : s.Sound) (hi : s.object i = some b) :
    s.linker.Accounts (b ::ₘ held { s with objects := s.objects.set i none }) s.lost := by
  rw [← held_object hi]
  exact h

lemma held_append_handles (o : Option Nat) :
    held { s with handles := s.handles ++ (o.map some).toList } = o.toList + s.held := by
  rw [held, held, List.filterMap_append, ← Multiset.coe_add, add_assoc, add_left_comm]
  cases o <;> rfl

lemma held_append_objects (o : Option Nat) :
    held { s with objects := s.objects ++ (o.map some).toList } = o.toList + s.held := by
  rw [held, held, List.filterMap_append, ← Multiset.coe_add, ← add_assoc, add_comm]
  cases o <;> rfl

/-- A step fails if it returns into a library to which nothing else refers. -/
lemma exec (h : s.Sound) {op : Op} (hop : s.Legal op) :
    (s.exec op = .error .unmapped ∧ ¬ s.Shared op) ∨
      ∃ s', s.exec op = .ok s' ∧ s'.Sound ∧ s.Shared op := by
  cases op with
  | get name lookup =>
    have haccounts := (Linker.leaves_get h name lookup).accounts
    refine .inr ⟨_, rfl, ?_, trivial⟩
    rwa [← held_append_handles, Multiset.coe_add] at haccounts
  | copy i =>
    obtain ⟨b, hi⟩ := Option.isSome_iff_exists.mp hop
    have haccounts := Linker.Accounts.share h (mem_held_handle hi)
    refine .inr ⟨{ s with linker := s.linker.share b, handles := s.handles ++ [some b] }, ?_, ?_,
      trivial⟩
    · simp only [State.exec, hi]
    · rwa [← Multiset.singleton_add, ← Multiset.coe_singleton, ← Option.toList_some,
        ← held_append_handles] at haccounts
  | useSymbol i =>
    obtain ⟨b, hi⟩ := Option.isSome_iff_exists.mp hop
    refine .inr ⟨s, ?_, h, trivial⟩
    simp only [State.exec, hi, Linker.Accounts.use_eq h (mem_held_handle hi)]
    rfl
  | drop i =>
    obtain ⟨b, hi⟩ := Option.isSome_iff_exists.mp hop
    refine .inr ⟨{ s with linker := s.linker.drop b, handles := s.handles.set i none }, ?_,
      (h.accounts_handle hi).drop, trivial⟩
    simp only [State.exec, hi]
  | create name base klass lookup plugins thrown =>
    obtain ⟨hfault, hescapes, hrefers⟩ | ⟨⟨res, l'⟩, hok, hleaves, hrefers⟩ :=
      Linker.create_eq h name base klass lookup plugins thrown
    · refine .inl ⟨?_, fun hshared => hrefers (hshared hescapes)⟩
      simp only [State.exec, hfault]
      rfl
    · refine .inr ⟨_, by simp only [State.exec, hok]; rfl, ?_, hrefers⟩
      have haccounts := hleaves.accounts
      rwa [← held_append_objects, Multiset.coe_add] at haccounts
  | callMethod i =>
    obtain ⟨b, hi⟩ := Option.isSome_iff_exists.mp hop
    refine .inr ⟨s, ?_, h, trivial⟩
    simp only [State.exec, hi, Linker.Accounts.use_eq h (mem_held_object hi)]
    rfl
  | delete i =>
    obtain ⟨b, hi⟩ := Option.isSome_iff_exists.mp hop
    have haccounts := h.accounts_object hi
    obtain ⟨name, hname⟩ := haccounts.exists_library (Multiset.mem_cons_self b _)
    obtain ⟨hfault, hrefers⟩ | ⟨hok, hrefers⟩ := Linker.destruct_eq haccounts hname
    · refine .inl ⟨?_, fun hshared => hrefers (hshared b name hi hname)⟩
      simp only [State.exec, hi, hfault]
      rfl
    · refine .inr ⟨{ s with linker := s.linker.drop b, objects := s.objects.set i none },
        by simp only [State.exec, hi, hok]; rfl, haccounts.drop, ?_⟩
      rintro b' name' hi' hname'
      obtain rfl : b = b' := Option.some.inj (hi.symm.trans hi')
      obtain rfl : name = name' := Option.some.inj (hname.symm.trans hname')
      exact hrefers

end State.Sound

/-- A program never gets into code which is gone exactly if something else refers to the library of
each object which it deletes, and of each object whose constructor throws an exception of the
library. A library is then open as long as something refers to it. -/
theorem never_unmapped (ops : List Op) (hlegal : machine.Legal State.start ops) :
    machine.Holds State.Tracks State.start ops ↔ machine.Meets State.Shared State.start ops := by
  refine Machine.holds_iff_meets (fun s (h : s.Sound) => h.tracks) ?_ ?_ State.Sound.start hlegal
  · intro s op h hop hshared
    obtain ⟨-, hnot⟩ | ⟨s', hs', h', -⟩ := h.exec hop
    · exact absurd hshared hnot
    · exact ⟨s', hs', h'⟩
  · intro s op s' h hop hshared hs'
    obtain ⟨hfault, -⟩ | ⟨-, -, -, hshared'⟩ := h.exec hop
    · rw [show machine.step s op = .error .unmapped from hfault] at hs'
      cases hs'
    · exact absurd hshared' hshared

/-- Two objects of one class, and a lookup that fails, so that both objects can be deleted. -/
def pluginRun : List Op :=
  let create := .create ['l'] ['B'] ['C'] .found [(['C'], ['B'])] none
  [create, create, .delete 1, .get ['l'] (.noSymbol []), .callMethod 0, .delete 0]

theorem never_unmapped_pluginRun : machine.Holds State.Tracks State.start pluginRun := by
  refine (never_unmapped pluginRun ?_).mpr ?_
  · exact .cons trivial rfl (.cons trivial rfl (.cons rfl rfl (.cons trivial rfl (.cons rfl rfl
      (.cons rfl rfl trivial)))))
  · refine .cons ?_ rfl (.cons ?_ rfl (.cons ?_ rfl (.cons trivial rfl (.cons trivial rfl
      (.cons ?_ rfl trivial)))))
    · rintro ⟨-, e, ⟨⟩, -⟩
    · rintro ⟨-, e, ⟨⟩, -⟩
    · rintro b name ⟨rfl⟩ ⟨rfl⟩
      exact .inl ⟨0, by decide, rfl⟩
    · rintro b name ⟨rfl⟩ ⟨rfl⟩
      exact .inr (List.mem_singleton_self _)

end Utilmm.Plugin
