import Utilmm.Hash.Table
import Utilmm.Smart.Pointer

/-!
# Smart pointers over the hash map

The memory of the smart pointers as it is: the class `uniq_memory` over the table of
`hash/bits/table.tcc`. A cell is a node of the table, and its counter is in the value of the node.
-/

namespace Utilmm.Smart

namespace OverTable

open HashToolbox (Table Traits deref insertUnique eraseIter clear)

/-- The raw pointer which an operation passes to the manager, null or not. -/
def raw {Ty : Type} : Op Ty → Option Nat
  | .construct ptr => ptr
  | .reset _ ptr => ptr
  | _ => none

inductive Fault
  /-- A raw value was used or deleted after it was deleted. -/
  | deadValue
  /-- A pointer object was used which is not there. -/
  | deadPointer
  | table (fault : HashToolbox.Fault)
  deriving DecidableEq

structure World (Ty : Type) where
  /-- The values which are allocated. -/
  heap : Nat → Option Ty
  nextAddress : Nat
  /-- `the_mem`, in the memory of its nodes. -/
  theMem : HashToolbox.State (Nat × Nat)
  /-- The pointer objects, with their pointees; `none` after the destruction. -/
  pointers : List (Option (Option Addr))
  /-- The raw pointers which were deleted. -/
  deleted : List Nat

/-- The `hash_map` with `hash_ptr` and `eq_ptr`. Only values which are there are asked for their
hash. -/
def memTraits {Ty : Type} (hash : Ty → Nat) (equal : Ty → Ty → Bool) (heap : Nat → Option Ty) :
    Traits Nat (Nat × Nat) :=
  ⟨Prod.fst, fun ptr => (heap ptr).elim 0 hash, Smart.World.eqPtr equal heap⟩

/-- A table with `n` empty buckets. The constructor makes none, and `clear` leaves one. -/
def emptyTable (n : Nat) : Table := { Table.new with bucket := List.replicate n none, version := n }

namespace World

variable {Ty : Type}

/-- A program which has made no pointer yet. -/
def empty (fresh : Table) : World Ty := ⟨fun _ => none, 0, ⟨Memory.empty, fresh⟩, [], []⟩

/-- `delete ptr`. -/
def delete (w : World Ty) (ptr : Nat) : Except Fault (World Ty) :=
  if (w.heap ptr).isSome then
    .ok { w with heap := Function.update w.heap ptr none, deleted := w.deleted ++ [ptr] }
  else .error .deadValue

/-- The node of an iterator. -/
def node (w : World Ty) (c : Option Addr) : Except Fault (Node (Nat × Nat)) :=
  (deref w.theMem.mem c).mapError .table

/-- Write the counter of a node. -/
def putSecond (w : World Ty) (a : Addr) (n : Node (Nat × Nat)) (second : Nat) : World Ty :=
  { w with theMem := { w.theMem with
      mem := w.theMem.mem.write a { n with val := (n.val.1, second) } } }

/-! ### `ref_count::manager` and `pointer`, where a null cell is `none` -/

/-- `manager::assign`. -/
def assign (w : World Ty) (c : Option Addr) : Except Fault (World Ty) :=
  match c with
  | none => .ok w
  | some a => do
    let n ← w.node (some a)
    return w.putSecond a n (n.val.2 + 1)

/-- The pointee of a pointer object. -/
def pointee (w : World Ty) (this : Nat) : Except Fault (Option Addr) :=
  match w.pointers[this]? with
  | some (some pointee) => .ok pointee
  | _ => .error .deadPointer

def putPointee (w : World Ty) (this : Nat) (pointee : Option (Option Addr)) : World Ty :=
  { w with pointers := w.pointers.set this pointee }

/-- A new pointer object. -/
def push (w : World Ty) (pointee : Option Addr) : World Ty :=
  { w with pointers := w.pointers ++ [some pointee] }

/-- `pointer::pointer` with another pointer. -/
def copy (w : World Ty) (other : Nat) : Except Fault (World Ty) := do
  let c ← w.pointee other
  let w ← w.assign c
  return w.push c

/-- `pointer::swap`. -/
def swap (w : World Ty) (this other : Nat) : Except Fault (World Ty) := do
  let c ← w.pointee this
  let c' ← w.pointee other
  return (w.putPointee this (some c')).putPointee other (some c)

/-- `new Ty(value)`. -/
def alloc (w : World Ty) (value : Ty) : World Ty :=
  { w with
    heap := Function.update w.heap w.nextAddress (some value)
    nextAddress := w.nextAddress + 1 }

section

variable (hash : Ty → Nat) (equal : Ty → Ty → Bool)

/-- `uniq_memory::create`. -/
def create (w : World Ty) (ptr : Nat) : Except Fault (Option Addr × World Ty) :=
  if (w.heap ptr).isNone then .error .deadValue
  else do
    let (theMem, it, inserted) ←
      (insertUnique (memTraits hash equal w.heap) w.theMem (ptr, 0)).mapError .table
    let c ← it.mapError .table
    let w := { w with theMem }
    if inserted then return (c, w)
    else
      let n ← w.node c
      if n.val.1 ≠ ptr then
        let w ← w.delete ptr
        return (c, w)
      else return (c, w)

/-- `uniq_memory::destroy`. -/
def destroy (w : World Ty) (a : Addr) : Except Fault (World Ty) := do
  let n ← w.node (some a)
  let theMem ← (eraseIter (memTraits hash equal w.heap) w.theMem (some a)).mapError .table
  { w with theMem }.delete n.val.1

/-- `manager::manage`. -/
def manage (w : World Ty) (ptr : Option Nat) : Except Fault (Option Addr × World Ty) :=
  match ptr with
  | none => .ok (none, w)
  | some ptr => do
    let (c, w) ← w.create hash equal ptr
    let w ← w.assign c
    return (c, w)

/-- `manager::release`. -/
def release (w : World Ty) (c : Option Addr) : Except Fault (World Ty) :=
  match c with
  | none => .ok w
  | some a => do
    let n ← w.node (some a)
    let w := w.putSecond a n (n.val.2 - 1)
    if n.val.2 ≤ 1 then w.destroy hash equal a else return w

/-- `pointer::pointer` with a raw pointer. -/
def construct (w : World Ty) (ptr : Option Nat) : Except Fault (World Ty) := do
  let (c, w) ← w.manage hash equal ptr
  return w.push c

/-- `pointer::reset`. -/
def reset (w : World Ty) (this : Nat) (ptr : Option Nat) : Except Fault (World Ty) := do
  let tmp ← w.pointee this
  let (c, w) ← w.manage hash equal ptr
  let w ← w.assign c
  let w := w.putPointee this (some c)
  w.release hash equal tmp

variable (fresh : Table)

/-- `pointer::~pointer`. The manager is destroyed with the last pointer, and its table with it; the
next manager has a table `fresh`. -/
def destroyPointer (w : World Ty) (this : Nat) : Except Fault (World Ty) := do
  let w ← w.reset hash equal this none
  let w := w.putPointee this none
  if w.pointers.all Option.isNone then
    let theMem ← (clear (memTraits hash equal w.heap) w.theMem).mapError .table
    return { w with theMem := ⟨theMem.mem, fresh⟩ }
  else return w

/-- `pointer::operator=`. -/
def assignPointer (w : World Ty) (this other : Nat) : Except Fault (World Ty) := do
  let tmp := w.pointers.length
  let w ← w.copy other
  let w ← w.swap this tmp
  w.destroyPointer hash equal fresh tmp

def exec (w : World Ty) : Op Ty → Except Fault (World Ty)
  | .alloc value => .ok (w.alloc value)
  | .construct ptr => w.construct hash equal ptr
  | .copy other => w.copy other
  | .assign this other => w.assignPointer hash equal fresh this other
  | .swap this other => w.swap this other
  | .reset this ptr => w.reset hash equal this ptr
  | .destroy this => w.destroyPointer hash equal fresh this

end

end World

end OverTable

end Utilmm.Smart
