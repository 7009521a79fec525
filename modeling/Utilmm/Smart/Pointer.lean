import Mathlib.Tactic
import Utilmm.Core.Except
import Utilmm.Core.Runs

/-!
# Smart pointers to unique values

The pointers of one type share a manager, which counts the pointers to each cell of its memory.
The memory is a hash map of raw pointers up to the equality of their values; it is taken here as
the list of its cells. Addresses, iterators and pointer objects are numbers which are not used
again, and a fault is an access to a value or to a cell which is not there.
-/

namespace Utilmm.Smart

/-- A cell of the hash map: the raw pointer and its reference counter. -/
structure Cell where
  id : Nat
  first : Nat
  second : Nat
  deriving DecidableEq, Repr

inductive Fault
  /-- A raw value was used or deleted after it was deleted. -/
  | deadValue
  /-- A cell was used after it was erased. -/
  | deadCell
  /-- A pointer object was used which is not there. -/
  | deadPointer
  deriving DecidableEq, Repr

structure World (Ty : Type) where
  /-- The values which are allocated. -/
  heap : Nat → Option Ty
  nextAddress : Nat
  /-- The cells of the memory. -/
  cells : List Cell
  nextCell : Nat
  /-- The pointer objects, with their pointees; `none` after the destruction. -/
  pointers : List (Option (Option Nat))
  /-- The raw pointers which were deleted. -/
  deleted : List Nat
  /-- The raw pointers which were in the memory when the manager was destroyed. -/
  dropped : List Nat

/-- What the program does with the pointers. -/
inductive Op (Ty : Type)
  | alloc (value : Ty)
  | construct (ptr : Option Nat)
  | copy (other : Nat)
  | assign (this other : Nat)
  | swap (this other : Nat)
  | reset (this : Nat) (ptr : Option Nat)
  | destroy (this : Nat)
  deriving DecidableEq, Repr

namespace World

variable {Ty : Type}

def empty : World Ty := ⟨fun _ => none, 0, [], 0, [], [], []⟩

/-! ### `uniq_memory` -/

/-- `eq_ptr`. -/
def eqPtr (equal : Ty → Ty → Bool) (heap : Nat → Option Ty) (a b : Nat) : Bool :=
  a = b || match heap a, heap b with
    | some x, some y => equal x y
    | _, _ => false

/-- The cell of an iterator. -/
def cell (w : World Ty) (c : Nat) : Except Fault Cell :=
  match w.cells.find? fun cell => cell.id = c with
  | some cell => .ok cell
  | none => .error .deadCell

/-- Write the counter of a cell. -/
def putSecond (w : World Ty) (c second : Nat) : World Ty :=
  { w with cells := w.cells.map fun cell => if cell.id = c then { cell with second } else cell }

/-- `delete ptr`. -/
def delete (w : World Ty) (ptr : Nat) : Except Fault (World Ty) :=
  if (w.heap ptr).isSome then
    .ok { w with heap := Function.update w.heap ptr none, deleted := w.deleted ++ [ptr] }
  else .error .deadValue

/-- `uniq_memory::create`. -/
def create (equal : Ty → Ty → Bool) (w : World Ty) (ptr : Nat) : Except Fault (Nat × World Ty) :=
  match w.cells.find? fun cell => eqPtr equal w.heap cell.first ptr with
  | some cell =>
    if cell.first ≠ ptr then do
      let w ← w.delete ptr
      return (cell.id, w)
    else return (cell.id, w)
  | none =>
    return (w.nextCell,
      { w with cells := w.cells ++ [⟨w.nextCell, ptr, 0⟩], nextCell := w.nextCell + 1 })

/-- `uniq_memory::destroy`. -/
def destroy (w : World Ty) (c : Nat) : Except Fault (World Ty) := do
  let cell ← w.cell c
  { w with cells := w.cells.filter fun cell => cell.id ≠ c }.delete cell.first

/-! ### `ref_count::manager`, where a null cell is `none` -/

/-- `manager::assign`. -/
def assign (w : World Ty) (c : Option Nat) : Except Fault (World Ty) :=
  match c with
  | none => .ok w
  | some c => do
    let cell ← w.cell c
    return w.putSecond c (cell.second + 1)

/-- `manager::manage`. -/
def manage (equal : Ty → Ty → Bool) (w : World Ty) (ptr : Option Nat) :
    Except Fault (Option Nat × World Ty) :=
  match ptr with
  | none => .ok (none, w)
  | some ptr => do
    let (c, w) ← w.create equal ptr
    let w ← w.assign (some c)
    return (some c, w)

/-- `manager::release`. -/
def release (w : World Ty) (c : Option Nat) : Except Fault (World Ty) :=
  match c with
  | none => .ok w
  | some c => do
    let cell ← w.cell c
    let w := w.putSecond c (cell.second - 1)
    if cell.second ≤ 1 then w.destroy c else return w

/-! ### `pointer` -/

/-- The pointee of a pointer object. -/
def pointee (w : World Ty) (this : Nat) : Except Fault (Option Nat) :=
  match w.pointers[this]? with
  | some (some pointee) => .ok pointee
  | _ => .error .deadPointer

def putPointee (w : World Ty) (this : Nat) (pointee : Option (Option Nat)) : World Ty :=
  { w with pointers := w.pointers.set this pointee }

/-- A new pointer object. -/
def push (w : World Ty) (pointee : Option Nat) : World Ty :=
  { w with pointers := w.pointers ++ [some pointee] }

/-- `pointer::pointer` with a raw pointer. -/
def construct (equal : Ty → Ty → Bool) (w : World Ty) (ptr : Option Nat) :
    Except Fault (World Ty) := do
  let (c, w) ← w.manage equal ptr
  return w.push c

/-- `pointer::pointer` with another pointer. -/
def copy (w : World Ty) (other : Nat) : Except Fault (World Ty) := do
  let c ← w.pointee other
  let w ← w.assign c
  return w.push c

/-- `pointer::reset`. -/
def reset (equal : Ty → Ty → Bool) (w : World Ty) (this : Nat) (ptr : Option Nat) :
    Except Fault (World Ty) := do
  let tmp ← w.pointee this
  let (c, w) ← w.manage equal ptr
  let w ← w.assign c
  let w := w.putPointee this (some c)
  w.release tmp

/-- `pointer::swap`. -/
def swap (w : World Ty) (this other : Nat) : Except Fault (World Ty) := do
  let c ← w.pointee this
  let c' ← w.pointee other
  return (w.putPointee this (some c')).putPointee other (some c)

/-- `pointer::~pointer`. The manager is destroyed with the last pointer, and its memory with it. -/
def destroyPointer (equal : Ty → Ty → Bool) (w : World Ty) (this : Nat) :
    Except Fault (World Ty) := do
  let w ← w.reset equal this none
  let w := w.putPointee this none
  return if w.pointers.all Option.isNone then
    { w with cells := [], dropped := w.dropped ++ w.cells.map Cell.first }
  else w

/-- `pointer::operator=`. -/
def assignPointer (equal : Ty → Ty → Bool) (w : World Ty) (this other : Nat) :
    Except Fault (World Ty) := do
  let tmp := w.pointers.length
  let w ← w.copy other
  let w ← w.swap this tmp
  w.destroyPointer equal tmp

/-- `pointer::operator==`. -/
def equalPointer (w : World Ty) (this other : Nat) : Except Fault Bool := do
  let c ← w.pointee this
  let c' ← w.pointee other
  return c = c'

/-! ### Runs -/

/-- `new Ty(value)`. -/
def alloc (w : World Ty) (value : Ty) : World Ty :=
  { w with
    heap := Function.update w.heap w.nextAddress (some value)
    nextAddress := w.nextAddress + 1 }

def exec (equal : Ty → Ty → Bool) (w : World Ty) : Op Ty → Except Fault (World Ty)
  | .alloc value => .ok (w.alloc value)
  | .construct ptr => w.construct equal ptr
  | .copy other => w.copy other
  | .assign this other => w.assignPointer equal this other
  | .swap this other => w.swap this other
  | .reset this ptr => w.reset equal this ptr
  | .destroy this => w.destroyPointer equal this

/-- The pointer object is there. -/
def Live (w : World Ty) (this : Nat) : Prop := ∃ pointee, w.pointers[this]? = some (some pointee)

/-- The raw pointer is null, or its value is there. -/
def Valid (w : World Ty) (ptr : Option Nat) : Prop := ∀ a, ptr = some a → w.heap a ≠ none

/-- The program uses pointer objects and raw pointers which are there. -/
def Legal (w : World Ty) : Op Ty → Prop
  | .alloc _ => True
  | .construct ptr => w.Valid ptr
  | .copy other => w.Live other
  | .assign this other => w.Live this ∧ w.Live other
  | .swap this other => w.Live this ∧ w.Live other
  | .reset this ptr => w.Live this ∧ w.Valid ptr
  | .destroy this => w.Live this

end World

/-- The pointers of one type, with the equality of their values. -/
def machine {Ty : Type} (equal : Ty → Ty → Bool) : Machine (World Ty) (Op Ty) Fault where
  legal := World.Legal
  step := World.exec equal

end Utilmm.Smart
