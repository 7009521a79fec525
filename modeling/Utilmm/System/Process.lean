import Mathlib.Tactic
import Utilmm.Core.Except
import Utilmm.Core.Runs

/-!
# External processes

A process object starts a child, signals it and waits for it. The objects are numbered in the order
of their construction. The kernel knows the children which were not reaped, and each `kill` and
`waitpid` is recorded with its target.
-/

namespace Utilmm.System

/-- The termination of a child, as `WIFEXITED` and `WEXITSTATUS` tell it. -/
inductive Exit
  | exited (code : Nat)
  | signaled
  deriving DecidableEq, Repr

/-- A child which was not reaped. -/
structure Child where
  pid : Nat
  /-- The object which started it, unless the object has detached from it. -/
  owner : Option Nat
  /-- How it exited, if it did. -/
  exit : Option Exit
  deriving DecidableEq, Repr

structure Process where
  running : Bool
  pid : Nat
  normalexit : Bool
  status : Nat
  deriving DecidableEq, Repr

inductive Syscall
  | kill
  | waitpid
  deriving DecidableEq, Repr

/-- A system call which is made for a process object, with its target. -/
structure Call where
  syscall : Syscall
  this : Nat
  pid : Nat
  /-- The target is a child of the object. -/
  own : Bool
  deriving DecidableEq, Repr

inductive Fault
  /-- A process object was used which is not there. -/
  | deadObject
  deriving DecidableEq, Repr

structure World where
  /-- The process objects; `none` after the destruction. -/
  objects : List (Option Process)
  /-- `managed_processes`. -/
  managed : List Nat
  children : List Child
  calls : List Call
  deriving DecidableEq, Repr

/-- What the kernel decides in a `waitpid`: the child which a target of zero stands for, and how a
child exits which is waited for. -/
structure Answer where
  any : Option Nat
  exit : Exit
  deriving DecidableEq, Repr

/-- What `waitpid` returns: `-1`, `0` or a child with its status. -/
inductive Waited
  | error
  | nothing
  | reaped (exit : Exit)
  deriving DecidableEq, Repr

/-- What happens to `fork` and to `chdir` and `execvp` in the child. -/
inductive Launch
  | forkFails
  | execFails (pid : Nat)
  | runs (pid : Nat)
  deriving DecidableEq, Repr

namespace World

def empty : World := ⟨[], [], [], []⟩

/-- The child is one which the object started, and it is neither reaped nor detached. -/
def owns (w : World) (this pid : Nat) : Bool :=
  w.children.any fun child => child.pid = pid ∧ child.owner = some this

def record (w : World) (syscall : Syscall) (this pid : Nat) : World :=
  { w with calls := w.calls ++ [⟨syscall, this, pid, w.owns this pid⟩] }

def object (w : World) (this : Nat) : Except Fault Process :=
  match w.objects[this]? with
  | some (some process) => .ok process
  | _ => .error .deadObject

def put (w : World) (this : Nat) (process : Process) : World :=
  { w with objects := w.objects.set this (some process) }

/-! ### System calls -/

/-- `kill`, which leaves the processes alone: a child exits on its own. -/
def kill (w : World) (this pid : Nat) : World := w.record .kill this pid

/-- `waitpid`, with `WNOHANG` if it does not hang. -/
def waitpid (w : World) (this pid : Nat) (hang : Bool) (answer : Answer) : Waited × World :=
  let w := w.record .waitpid this pid
  let target := if pid = 0 then answer.any else some pid
  match w.children.find? fun child => some child.pid = target with
  | none => (.error, w)
  | some child =>
    let reaped := { w with children := w.children.filter fun child' => child'.pid ≠ child.pid }
    match child.exit, hang with
    | some exit, _ => (.reaped exit, reaped)
    | none, true => (.reaped answer.exit, reaped)
    | none, false => (.nothing, w)

/-- `fork`, where the child is known to the kernel. -/
def fork (w : World) (child : Child) : World := { w with children := w.children ++ [child] }

/-- The object gives its children away. -/
def disown (w : World) (this : Nat) : World :=
  { w with children := w.children.map fun child =>
      if child.owner = some this then { child with owner := none } else child }

/-! ### `process` -/

/-- `register_process`. -/
def register (w : World) (this : Nat) : World := { w with managed := w.managed ++ [this] }

/-- `deregister_process`. -/
def deregister (w : World) (this : Nat) : World :=
  { w with managed := w.managed.filter fun this' => this' ≠ this }

/-- `process::process`. -/
def construct (w : World) : World :=
  World.register { w with objects := w.objects ++ [some ⟨false, 0, true, 0⟩] } w.objects.length

/-- `process::wait(bool)`. -/
def wait (w : World) (this : Nat) (hang : Bool) (answer : Answer) : Except Fault (Bool × World) := do
  let process ← w.object this
  match w.waitpid this process.pid hang answer with
  | (.nothing, w) => return (false, w) -- only if it does not hang
  | (.error, w) => return (true, w.put this { process with running := false })
  | (.reaped (.exited code), w) =>
    return (true, w.put this { process with running := false, normalexit := true, status := code })
  | (.reaped .signaled, w) =>
    return (true, w.put this { process with running := false, normalexit := false, status := 0 })

/-- `process::running`. -/
def running (w : World) (this : Nat) (answer : Answer) : Except Fault (Bool × World) := do
  let process ← w.object this
  if process.running then
    let (_, w) ← w.wait this false answer
    let process ← w.object this
    return (process.running, w)
  else return (false, w)

/-- `process::signal`, where the program has the permission to signal its children. -/
def signal (w : World) (this : Nat) (answer : Answer) : Except Fault World := do
  let (running, w) ← w.running this answer
  if running then
    let process ← w.object this
    return w.kill this process.pid
  else return w

/-- `process::start`. A child which fails exits at once, and the object forgets about it. -/
def start (w : World) (this : Nat) (launch : Launch) (answer : Answer) : Except Fault World := do
  let (running, w) ← w.running this answer
  if running then return w -- `already_running` is thrown
  else
    match launch with
    | .forkFails => return w
    | .execFails pid => return w.fork ⟨pid, none, some (.exited 1)⟩
    | .runs pid =>
      let process ← w.object this
      return (w.fork ⟨pid, some this, none⟩).put this { process with running := true, pid }

/-- `process::detach`. -/
def detach (w : World) (this : Nat) : Except Fault World := do
  let process ← w.object this
  return (w.disown this).put this { process with running := false, pid := 0 }

/-- `process::killall`, for the objects from an iterator on. -/
def killEach (w : World) : List Nat → Except Fault World
  | [] => .ok w
  | this :: managed => do
    let process ← w.object this
    killEach (w.kill this process.pid) managed

/-- `process::killall`. -/
def killall (w : World) : Except Fault World := w.killEach w.managed

/-- `process::~process`. -/
def destroy (w : World) (this : Nat) (answer : Answer) : Except Fault World := do
  let w := w.deregister this
  let process ← w.object this
  let w ← if process.running then do
      let w ← w.signal this answer
      let (_, w) ← w.wait this true answer
      pure w
    else pure w
  return { w with objects := w.objects.set this none }

/-! ### Runs -/

/-- A child exits. -/
def exit (w : World) (pid : Nat) (exit : Exit) : World :=
  { w with children := w.children.map fun child =>
      if child.pid = pid then { child with exit := some exit } else child }

end World

/-- What the program does with the process objects, and the children on their own. -/
inductive Op
  | construct
  | start (this : Nat) (launch : Launch) (answer : Answer)
  | exit (pid : Nat) (exit : Exit)
  | wait (this : Nat) (answer : Answer)
  | running (this : Nat) (answer : Answer)
  | signal (this : Nat) (answer : Answer)
  | detach (this : Nat)
  | killall
  | destroy (this : Nat) (answer : Answer)
  deriving DecidableEq, Repr

namespace World

def exec (w : World) : Op → Except Fault World
  | .construct => .ok w.construct
  | .start this launch answer => w.start this launch answer
  | .exit pid exit => .ok (w.exit pid exit)
  | .wait this answer => return (← w.wait this true answer).2
  | .running this answer => return (← w.running this answer).2
  | .signal this answer => w.signal this answer
  | .detach this => w.detach this
  | .killall => w.killall
  | .destroy this answer => w.destroy this answer

/-- The process object is there. -/
def Live (w : World) (this : Nat) : Prop := ∃ process, w.objects[this]? = some (some process)

/-- `fork` returns the pid of no child which was not reaped. -/
def Fresh (w : World) : Launch → Prop
  | .forkFails => True
  | .execFails pid | .runs pid => 0 < pid ∧ ∀ child ∈ w.children, child.pid ≠ pid

/-- The child is there and runs. -/
def Runs (w : World) (pid : Nat) : Prop :=
  ∃ child ∈ w.children, child.pid = pid ∧ child.exit = none

/-- The program uses process objects which are there, and a child exits once. -/
def Legal (w : World) : Op → Prop
  | .construct | .killall => True
  | .exit pid _ => w.Runs pid
  | .start this launch answer =>
    w.Live this ∧ ∀ w', w.running this answer = .ok (false, w') → w'.Fresh launch
  | .wait this _ | .running this _ | .signal this _ | .detach this | .destroy this _ => w.Live this

end World

/-- The process objects of a program. -/
def machine : Machine World Op Fault where
  legal := World.Legal
  step := World.exec

end Utilmm.System
