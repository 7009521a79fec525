import Utilmm.Core.Descriptors
import Utilmm.System.Process
import Utilmm.Text

/-!
# The redirections of a process object

A process object keeps a descriptor for each output stream which it redirects, in an `auto_close`.
`redirect_to` takes a path, a `FILE*` or a descriptor, and the parent side of `start` closes what
the child has got. A `FILE*` is modelled by the descriptor under it.
-/

namespace Utilmm.System.Redirection

inductive Stream
  | stdout
  | stderr
  deriving DecidableEq, Repr

/-- What a descriptor refers to: a file which was opened by its path, something which the user has
opened, or the pipe of `start`. -/
inductive File
  | path (name : Str)
  | user (n : Nat)
  | pipe
  deriving DecidableEq, Repr

/-- A value for each stream. -/
structure PerStream (α : Type) where
  stdout : α
  stderr : α
  deriving DecidableEq, Repr

/-- `process::get_stream`. -/
def PerStream.get {α : Type} (p : PerStream α) : Stream → α
  | .stdout => p.stdout
  | .stderr => p.stderr

def PerStream.set {α : Type} (p : PerStream α) (stream : Stream) (a : α) : PerStream α :=
  match stream with
  | .stdout => { p with stdout := a }
  | .stderr => { p with stderr := a }

structure State where
  table : Descriptors File
  /-- `m_fileno` of `m_stdout` and `m_stderr`, where `none` is `-1`. -/
  streams : PerStream (Option Nat)
  /-- What was requested last for each stream. -/
  requested : PerStream (Option File)
  alive : Bool
  deriving DecidableEq

inductive Failure
  | unixError
  | alreadyRunning
  deriving DecidableEq, Repr

inductive Fault
  /-- `start` goes on after a `pipe` that failed, with two numbers which nothing has set. -/
  | uninitialized
  deriving DecidableEq, Repr

abbrev Sys (α : Type) := Throwing Failure State α

/-! ### System calls -/

/-- A new descriptor under the lowest free number, or `-1`. -/
def create (file : File) : Sys (Option Nat) := do
  let s ← get
  match s.table.freeSlot with
  | none => return none
  | some fd =>
    modify fun s => { s with table := s.table.put fd .object file }
    return some fd

/-- `open`, which fails for the empty path, and where the file system does not allow it. -/
def openFile (path : Str) (allowed : Bool) : Sys (Option Nat) :=
  if path = [] || !allowed then return none else create (.path path)

def dup (fd : Option Nat) : Sys (Option Nat) := do
  let s ← get
  match fd.bind s.table.get with
  | none => return none
  | some d => create d.file

/-- `close`, and whether it succeeds. -/
def close (fd : Nat) : Sys Bool := do
  let s ← get
  modify fun s => { s with table := s.table.close fd }
  return (s.table.get fd).isSome

def fclose (handle : Nat) : Sys Bool := close handle

/-- `pipe`, with the end to read from and the end to write to; there are both or none. -/
def pipe : Sys (Option (Nat × Nat)) := do
  let s ← get
  let readEnd ← create .pipe
  let writeEnd ← create .pipe
  match readEnd, writeEnd with
  | some readEnd, some writeEnd => return some (readEnd, writeEnd)
  | _, _ => do
    modify fun _ => s
    return none

/-! ### `auto_close` -/

/-- `auto_close::close`, for the `auto_close` of a stream. -/
def closeStream (stream : Stream) : Sys Unit := do
  let s ← get
  match s.streams.get stream with
  | none => return ()
  | some fd => do
    let ok ← close fd
    modify fun s => { s with streams := s.streams.set stream none }
    if ok then return () else throw .unixError

/-- `auto_close::reset`. -/
def reset (stream : Stream) (fileno : Option Nat) : Sys Unit := do
  closeStream stream
  modify fun s => { s with streams := s.streams.set stream fileno }

/-- Statements during which a local `auto_close` has the descriptor. -/
def guarded (fd : Nat) (statements : Sys Unit) : Sys Unit := ExceptT.mk do
  let outcome ← statements.run
  match ← (close fd).run with
  | .ok true => return outcome
  | _ => return .error .unixError

/-! ### `process` -/

/-- `process::redirect_to`, for a descriptor. -/
def redirectTo (stream : Stream) (handle : Option Nat) (closeOnExit : Bool) : Sys Unit :=
  if !closeOnExit then do
    let handle ← dup handle
    if handle = none then throw .unixError else reset stream handle
  else reset stream handle

/-- `process::redirect_to`, for a `FILE*`. -/
def redirectToFile (stream : Stream) (handle : Nat) (closeOnExit : Bool) : Sys Unit := do
  let copy ← dup (some handle)
  redirectTo stream copy closeOnExit
  if closeOnExit then do
    let _ ← fclose handle
    return ()
  else return ()

/-- `process::redirect_to`, for a path. -/
def redirectToPath (stream : Stream) (file : Str) (allowed : Bool) : Sys Unit := do
  let handle ← openFile file allowed
  if handle = none then throw .unixError else redirectTo stream handle true

/-- `process::erase_redirection`. -/
def eraseRedirection (stream : Stream) : Sys Unit := redirectToPath stream [] true

/-- `process::start`, on the parent side. The pipe is there to learn about a failure of `execvp`. -/
def start (running : Bool) (launch : Launch) : Sys Unit :=
  if running then throw .alreadyRunning
  else do
    match ← pipe with
    | none => return () -- see `machine`: there is no telling what is closed
    | some (readEnd, writeEnd) =>
      guarded readEnd do
        guarded writeEnd do
          match launch with
          | .forkFails => throw .unixError
          | .execFails _ | .runs _ =>
            closeStream .stdout
            closeStream .stderr
        match launch with
        | .execFails _ => throw .unixError
        | .forkFails | .runs _ => return ()

namespace State

def new (table : Descriptors File) : State := ⟨table, ⟨none, none⟩, ⟨none, none⟩, true⟩

/-- The destructors of the members, where a throw of the first does not keep the second back. -/
def destroy (s : State) : State :=
  let s := (Throwing.exec (closeStream .stderr) s).2
  let s := (Throwing.exec (closeStream .stdout) s).2
  { s with alive := false }

/-- The file which a number refers to. -/
def fileOf (s : State) (fd : Nat) : Option File := (s.table.get fd).map Descriptor.file

/-- What the stream is redirected to. -/
def target (s : State) (stream : Stream) : Option File := (s.streams.get stream).bind s.fileOf

end State

/-! ### Runs -/

/-- What the program does with a process object, and with descriptors of its own. -/
inductive Action
  | redirectToPath (stream : Stream) (file : Str) (allowed : Bool)
  | redirectToFile (stream : Stream) (handle : Nat) (closeOnExit : Bool)
  | redirectTo (stream : Stream) (handle : Option Nat) (closeOnExit : Bool)
  | eraseRedirection (stream : Stream)
  | start (running : Bool) (launch : Launch)
  | destroy
  | userOpen (n : Nat)
  | userClose (fd : Nat)
  deriving DecidableEq, Repr

namespace State

/-- A request is a call that returns. -/
def request (s : State) (stream : Stream) (file : Option File) (call : Sys Unit) : State :=
  match Throwing.exec call s with
  | (.ok _, s) => { s with requested := s.requested.set stream file }
  | (.error _, s) => s

/-- A descriptor which is passed with `auto_close` belongs to the object from now on. -/
def give (s : State) (fd : Nat) (closeOnExit : Bool) : State :=
  if closeOnExit then { s with table := s.table.handOver fd } else s

/-- Nothing is requested any more. -/
def forget (s : State) : State := { s with requested := ⟨none, none⟩ }

def perform (s : State) : Action → State
  | .redirectToPath stream file allowed =>
    s.request stream (some (.path file)) (redirectToPath stream file allowed)
  | .redirectToFile stream handle closeOnExit =>
    (s.give handle closeOnExit).request stream (s.fileOf handle)
      (redirectToFile stream handle closeOnExit)
  | .redirectTo stream none closeOnExit =>
    s.request stream none (redirectTo stream none closeOnExit)
  | .redirectTo stream (some fd) closeOnExit =>
    (s.give fd closeOnExit).request stream (s.fileOf fd) (redirectTo stream (some fd) closeOnExit)
  | .eraseRedirection stream =>
    let s := (Throwing.exec (Redirection.eraseRedirection stream) s).2
    { s with requested := s.requested.set stream none }
  | .start true launch => (Throwing.exec (start true launch) s).2
  | .start false .forkFails => (Throwing.exec (start false .forkFails) s).2
  | .start false (.execFails pid) => (Throwing.exec (start false (.execFails pid)) s).2.forget
  | .start false (.runs pid) => (Throwing.exec (start false (.runs pid)) s).2.forget
  | .destroy => s.destroy.forget
  | .userOpen n =>
    match s.table.freeSlot with
    | none => s
    | some fd => { s with table := s.table.put fd .user (.user n) }
  | .userClose fd => { s with table := s.table.userClose fd }

/-- There are descriptors for a pipe. -/
def roomForPipe (s : State) : Bool :=
  match (Throwing.exec pipe s).1 with
  | .ok (some _) => true
  | _ => false

/-- The object is there, and the user closes descriptors of its own. -/
def Legal (s : State) : Action → Prop
  | .userOpen _ => True
  | .userClose fd => s.table.ownerOf fd = some .user
  | _ => s.alive

end State

/-- The redirections of a process object in a program. -/
def machine : Machine State Action Fault where
  legal := State.Legal
  step s
    | .start false launch =>
      if s.roomForPipe then .ok (s.perform (.start false launch)) else .error .uninitialized
    | a => .ok (s.perform a)

end Utilmm.System.Redirection
