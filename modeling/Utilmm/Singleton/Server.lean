import Mathlib.Data.List.AList
import Mathlib.Tactic
import Utilmm.Core.Except

/-!
# The singleton server

The server keeps a wrapper for each singleton which has clients. Whoever uses a singleton attaches
to its name and detaches later; the construction and the destruction of a value may do so too,
while the call that caused it is still in progress. Pointers are numbers which are not used again,
and a fault is an access to an object which is not there.
-/

namespace Utilmm.Singleton

variable {Name : Type} [DecidableEq Name]

/-- What a client does, by `wrapper::attach` and `wrapper::detach`. -/
inductive Call (Name : Type)
  | attach (name : Name)
  | detach (name : Name)
  deriving DecidableEq, Repr

namespace Call

def name : Call Name → Name
  | attach name => name
  | detach name => name

/-- The clients which there are after a call. -/
def hold (clients : Multiset Name) : Call Name → Multiset Name
  | attach name => name ::ₘ clients
  | detach name => clients.erase name

/-- The clients which there are after some calls. -/
def holds (clients : Multiset Name) (calls : List (Call Name)) : Multiset Name :=
  calls.foldl hold clients

/-- Only clients detach. -/
def Legal (clients : Multiset Name) : List (Call Name) → Prop
  | [] => True
  | attach name :: calls => Legal (name ::ₘ clients) calls
  | detach name :: calls => name ∈ clients ∧ Legal (clients.erase name) calls

instance (clients : Multiset Name) (calls : List (Call Name)) : Decidable (Legal clients calls) :=
  decLegal clients calls
where
  decLegal : ∀ (clients : Multiset Name) (calls : List (Call Name)),
      Decidable (Legal clients calls)
    | _, [] => isTrue trivial
    | clients, attach name :: calls => decLegal (name ::ₘ clients) calls
    | clients, detach name :: calls =>
      have := decLegal (clients.erase name) calls
      inferInstanceAs (Decidable (name ∈ clients ∧ Legal (clients.erase name) calls))

end Call

/-- The singleton types: what the construction and the destruction of a value call. A value gives
back what it holds, and it uses only types of a lower rank. -/
structure Types (Name : Type) [DecidableEq Name] where
  ctor : Name → List (Call Name)
  dtor : Name → List (Call Name)
  rank : Name → Nat
  rank_lt : ∀ name, ∀ call ∈ ctor name ++ dtor name, rank call.name < rank name
  legal : ∀ name, Call.Legal 0 (ctor name ++ dtor name)
  balanced : ∀ name, Call.holds 0 (ctor name ++ dtor name) = 0

inductive Fault
  /-- The map of a server was used after the server was deleted. -/
  | deletedServer
  /-- A wrapper was used after it was deleted. -/
  | deletedWrapper
  /-- The end of the map was dereferenced. -/
  | noSuchName
  /-- The calls are nested deeper than the bound of the run. -/
  | tooDeep
  deriving DecidableEq, Repr

/-- What happens to the objects. -/
inductive Event (Name : Type)
  | serverCreated (server : Nat)
  | serverDeleted (server : Nat) (left : List Name)
  | wrapperCreated (name : Name) (wrapper : Nat)
  | wrapperDeleted (name : Name) (wrapper : Nat)
  /-- A call of `server::attach` or `server::detach` returned. -/
  | returned (server : Nat) (theInstance : Option Nat)
  deriving DecidableEq, Repr

/-- The map from the names to the wrappers. -/
abbrev SingleMap (Name : Type) : Type := AList fun _ : Name => Nat

structure World (Name : Type) [DecidableEq Name] where
  theInstance : Option Nat
  /-- The singletons of each server. -/
  servers : Nat → Option (SingleMap Name)
  /-- The reference counter of each wrapper. -/
  wrappers : Nat → Option Nat
  nextServer : Nat
  nextWrapper : Nat
  log : List (Event Name)

namespace World

def empty : World Name := ⟨none, fun _ => none, fun _ => none, 0, 0, []⟩

def singletons (w : World Name) (server : Nat) : Except Fault (SingleMap Name) :=
  match w.servers server with
  | some m => .ok m
  | none => .error .deletedServer

def putSingletons (w : World Name) (server : Nat) (m : SingleMap Name) : World Name :=
  { w with servers := Function.update w.servers server (some m) }

def putWrapper (w : World Name) (wrapper : Nat) (refCounter : Option Nat) : World Name :=
  { w with wrappers := Function.update w.wrappers wrapper refCounter }

def record (w : World Name) (e : Event Name) : World Name := { w with log := w.log ++ [e] }

/-- `server::instance`. -/
def theServer (w : World Name) : Nat × World Name :=
  match w.theInstance with
  | some server => (server, w)
  | none =>
    (w.nextServer,
      { w with
        theInstance := some w.nextServer
        servers := Function.update w.servers w.nextServer (some ∅)
        nextServer := w.nextServer + 1
        log := w.log ++ [.serverCreated w.nextServer] })

/-- `delete server::the_instance`. -/
def deleteServer (w : World Name) : World Name :=
  match w.theInstance with
  | none => w
  | some server =>
    { w with
      theInstance := none
      servers := Function.update w.servers server none
      log := w.log ++ [.serverDeleted server ((w.servers server).elim [] AList.keys)] }

/-- `dummy::incr_ref`. -/
def incrRef (w : World Name) (wrapper : Nat) : Except Fault (World Name) :=
  match w.wrappers wrapper with
  | some refCounter => .ok (w.putWrapper wrapper (some (refCounter + 1)))
  | none => .error .deletedWrapper

/-- `dummy::decr_ref`. -/
def decrRef (w : World Name) (wrapper : Nat) : Except Fault (Bool × World Name) :=
  match w.wrappers wrapper with
  | some refCounter => .ok (refCounter ≤ 1, w.putWrapper wrapper (some (refCounter - 1)))
  | none => .error .deletedWrapper

/-- `server::attach`, where `create` is `factory.create()`. -/
def attach (w : World Name) (server : Nat) (name : Name)
    (create : World Name → Except Fault (Nat × World Name)) : Except Fault (World Name) := do
  let singletons ← w.singletons server
  match singletons.lookup name with
  | some it => w.incrRef it
  | none =>
    let (wrapper, w) ← create w
    let singletons ← w.singletons server
    -- an insertion leaves the wrapper of a name which is already there
    match singletons.lookup name with
    | some it => w.incrRef it
    | none => (w.putSingletons server (singletons.insert name wrapper)).incrRef wrapper

/-- `server::detach`, where `delete` deletes a wrapper. -/
def detach (w : World Name) (server : Nat) (name : Name)
    (delete : Nat → World Name → Except Fault (World Name)) :
    Except Fault (Bool × World Name) := do
  let singletons ← w.singletons server
  match singletons.lookup name with
  | none => .error .noSuchName
  | some i =>
    let (last, w) ← w.decrRef i
    if last then
      let w ← delete i (w.putSingletons server (singletons.erase name))
      let singletons ← w.singletons server
      return (singletons.keys.isEmpty, w)
    else
      return (false, w)

/-- A wrapper of which the value is not constructed yet. -/
def allocWrapper (w : World Name) (name : Name) : World Name :=
  { w with
    wrappers := Function.update w.wrappers w.nextWrapper (some 0)
    nextWrapper := w.nextWrapper + 1
    log := w.log ++ [.wrapperCreated name w.nextWrapper] }

/-- `new wrapper<Ty>`, where the value of the wrapper is constructed by `calls`. -/
def newWrapper (w : World Name) (name : Name)
    (calls : World Name → Except Fault (World Name)) : Except Fault (Nat × World Name) := do
  let w' ← calls (w.allocWrapper name)
  return (w.nextWrapper, w')

/-- `delete to_del`, where the value of the wrapper is destroyed by `calls`. -/
def deleteWrapper (w : World Name) (name : Name) (wrapper : Nat)
    (calls : World Name → Except Fault (World Name)) : Except Fault (World Name) := do
  let w ← calls w
  return (w.putWrapper wrapper none).record (.wrapperDeleted name wrapper)

/-- `dummy::attach` and `dummy::detach`, with a bound on the nesting of the calls. -/
def call (T : Types Name) : Nat → World Name → Call Name → Except Fault (World Name)
  | 0, _, _ => .error .tooDeep
  | fuel + 1, w, .attach name => do
    let (server, w) := w.theServer
    let w ← w.attach server name fun w =>
      w.newWrapper name fun w => (T.ctor name).foldlM (call T fuel) w
    return w.record (.returned server w.theInstance)
  | fuel + 1, w, .detach name => do
    let (server, w) := w.theServer
    let (last, w) ← w.detach server name fun wrapper w =>
      w.deleteWrapper name wrapper fun w => (T.dtor name).foldlM (call T fuel) w
    let w := w.record (.returned server w.theInstance)
    return if last then w.deleteServer else w

/-- `server::get`. -/
def get (w : World Name) (server : Nat) (name : Name) : Except Fault Nat := do
  let singletons ← w.singletons server
  match singletons.lookup name with
  | some it => return it
  | none => .error .noSuchName

/-- `dummy::instance`. -/
def dummyInstance (w : World Name) (name : Name) : Except Fault (Nat × World Name) := do
  let (server, w) := w.theServer
  let wrapper ← w.get server name
  return (wrapper, w)

/-! ### What the functions return -/

variable {w w' : World Name} {server i k : Nat} {name : Name} {m m' : SingleMap Name}

lemma theServer_of_some (h : w.theInstance = some server) : w.theServer = (server, w) := by
  rw [theServer, h]

/-- The server is created once. -/
lemma theServer_theServer (w : World Name) : w.theServer.2.theServer = w.theServer := by
  cases hinst : w.theInstance with
  | some server => rw [theServer_of_some hinst, theServer_of_some hinst]
  | none => simp only [theServer, hinst]

lemma singletons_eq_ok (h : w.servers server = some m) : w.singletons server = .ok m := by
  rw [singletons, h]

section

variable {create : World Name → Except Fault (Nat × World Name)}
  {delete : Nat → World Name → Except Fault (World Name)}

lemma attach_of_some (hm : w.servers server = some m) (hi : m.lookup name = some i)
    (hk : w.wrappers i = some k) :
    w.attach server name create = .ok (w.putWrapper i (some (k + 1))) := by
  simp only [attach, singletons_eq_ok hm, Except.ok_bind, hi, incrRef, hk]

lemma attach_of_none (hm : w.servers server = some m) (hn : m.lookup name = none)
    (hcreate : create w = .ok (i, w')) (hm' : w'.servers server = some m')
    (hn' : m'.lookup name = none) (hk : w'.wrappers i = some k) :
    w.attach server name create =
      .ok ((w'.putSingletons server (m'.insert name i)).putWrapper i (some (k + 1))) := by
  simp only [attach, singletons_eq_ok hm, Except.ok_bind, hn, hcreate, singletons_eq_ok hm', hn',
    incrRef, putSingletons, hk]

lemma detach_of_lt (hm : w.servers server = some m) (hi : m.lookup name = some i)
    (hk : w.wrappers i = some k) (hlt : 1 < k) :
    w.detach server name delete = .ok (false, w.putWrapper i (some (k - 1))) := by
  simp only [detach, singletons_eq_ok hm, Except.ok_bind, hi, decrRef, hk]
  rw [decide_eq_false (not_le.mpr hlt)]
  rfl

lemma detach_of_le (hm : w.servers server = some m) (hi : m.lookup name = some i)
    (hk : w.wrappers i = some k) (hle : k ≤ 1)
    (hdelete : delete i ((w.putWrapper i (some (k - 1))).putSingletons server (m.erase name)) =
      .ok w')
    (hm' : w'.servers server = some m') :
    w.detach server name delete = .ok (m'.keys.isEmpty, w') := by
  simp only [detach, singletons_eq_ok hm, Except.ok_bind, hi, decrRef, hk]
  rw [decide_eq_true hle]
  simp only [if_true, hdelete, Except.ok_bind, singletons_eq_ok hm']
  rfl

end

variable {T : Types Name} {fuel : Nat} {w₀ : World Name} {last : Bool}

lemma call_congr {call : Call Name} (h : w.theServer = w₀.theServer) :
    w.call T fuel call = w₀.call T fuel call := by
  cases fuel with
  | zero => rfl
  | succ fuel => cases call <;> simp only [World.call, h]

lemma call_attach_of (hserver : w.theServer = (server, w₀))
    (hattach : (w₀.attach server name fun w =>
      w.newWrapper name fun w => (T.ctor name).foldlM (call T fuel) w) = .ok w') :
    w.call T (fuel + 1) (.attach name) = .ok (w'.record (.returned server w'.theInstance)) := by
  simp only [call, hserver, hattach, Except.ok_bind]
  rfl

lemma call_detach_of (hserver : w.theServer = (server, w₀))
    (hdetach : (w₀.detach server name fun wrapper w =>
      w.deleteWrapper name wrapper fun w => (T.dtor name).foldlM (call T fuel) w) =
        .ok (last, w')) :
    w.call T (fuel + 1) (.detach name) =
      .ok (if last then (w'.record (.returned server w'.theInstance)).deleteServer
        else w'.record (.returned server w'.theInstance)) := by
  simp only [call, hserver, hdetach, Except.ok_bind]
  rfl

/-- The calls of the clients, one after the other. -/
def run (T : Types Name) (w : World Name) (calls : List (Call Name)) : Except Fault (World Name) :=
  calls.foldlM (fun w c => w.call T (T.rank c.name + 1) c) w

end World

end Utilmm.Singleton
