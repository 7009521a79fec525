import Utilmm.Core.Descriptors
import Utilmm.Core.Ledger
import Utilmm.Core.Runs
import Utilmm.System.SocketAddress

/-!
# Sockets

A socket closes its descriptor when it is destroyed. The constructor from a descriptor, which
`accept` uses too, does not write the member `m_domain`, and `connect` reads it. To wait for a
socket its descriptor is put into the sets of `select`, which have room for the numbers below
`FD_SETSIZE`.
-/

namespace Utilmm.System.Socket

open Endian SocketAddress

def fdSetSize : Nat := 1024

inductive Kind
  | socket
  | serverSocket
  deriving DecidableEq, Repr

/-- A `socket` or a `server_socket`. -/
structure BaseSocket where
  kind : Kind
  /-- `m_fd`, where `none` is `-1`. -/
  fd : Option Nat
  /-- `m_domain`, `none` as long as it is not initialised. -/
  domain : Option Domain
  deriving DecidableEq, Repr

inductive Error
  /-- What `to_sockaddr` throws. -/
  | address (exception : SocketAddress.Thrown)
  | unixError (desc : Str)
  deriving DecidableEq, Repr

inductive Fault
  /-- `m_domain` was read before it was written. -/
  | uninitialised
  /-- `FD_SET` wrote behind the set, or in front of it. -/
  | setOverflow
  | buffer (fault : CString.Fault)

/-- A process with sockets. -/
structure State where
  table : Descriptors Unit
  /-- The socket objects, `none` once one is destroyed. -/
  sockets : List (Option BaseSocket)

/-- A process whose table has the given size. -/
def State.start (size : Nat) : State := ⟨.empty size, []⟩

section

variable (host : Host) (gethostbyname : Str → Option Hostent)

/-- `::connect` or `::bind` with the result of `to_sockaddr`, where `desc` says what failed. -/
def attach (desc : Str) (domain : Option Domain) (address : Str) (succeeds : Bool) :
    Except Fault (Except Error Unit) :=
  match domain with
  | none => .error .uninitialised
  | some domain =>
    match toSockaddr host gethostbyname domain address with
    | .error (.buffer fault) => .error (.buffer fault)
    | .error (.thrown exception) => .ok (.error (.address exception))
    | .ok _ => .ok (if succeeds then .ok () else .error (.unixError (desc ++ address)))

/-- `socket::connect` -/
def connect (socket : BaseSocket) (address : Str) (succeeds : Bool) :
    Except Fault (Except Error Unit) :=
  attach host gethostbyname "cannot connect to ".toList socket.domain address succeeds

/-- `server_socket::bind` -/
def bind (socket : BaseSocket) (address : Str) (succeeds : Bool) :
    Except Fault (Except Error Unit) :=
  attach host gethostbyname "cannot bind to ".toList socket.domain address succeeds

/-- `base_socket::base_socket(domain, type)`, which returns the descriptor. -/
def openBase (table : Descriptors Unit) (succeeds : Bool) : Except Error (Nat × Descriptors Unit) :=
  match if succeeds then table.freeSlot else none with
  | none => .error (.unixError "cannot open the socket".toList)
  | some fd => .ok (fd, table.put fd .object ())

/-- `base_socket::~base_socket` -/
def closeBase (table : Descriptors Unit) (fd : Option Nat) : Descriptors Unit :=
  fd.elim table table.close

/-- The body of a constructor behind that of `base_socket`, whose destructor runs if it throws. -/
def construct (s : State) (socket : BaseSocket) (outcome : Except Error Unit) :
    Except Error Unit × State :=
  match outcome with
  | .ok () => (.ok (), { s with sockets := s.sockets ++ [some socket] })
  | .error e => (.error e, { s with table := closeBase s.table socket.fd })

/-- `socket::socket(domain, type, connect_to)` -/
def openSocket (s : State) (domain : Domain) (connectTo : Str) (opens connects : Bool) :
    Except Fault (Except Error Unit × State) :=
  match openBase s.table opens with
  | .error e => .ok (.error e, s)
  | .ok (fd, table) => do
    let socket : BaseSocket := ⟨.socket, some fd, some domain⟩
    let outcome ← connect host gethostbyname socket connectTo connects
    return construct { s with table } socket outcome

/-- `server_socket::server_socket` -/
def openServer (s : State) (domain : Domain) (bindTo : Str) (opens binds listens : Bool) :
    Except Fault (Except Error Unit × State) :=
  match openBase s.table opens with
  | .error e => .ok (.error e, s)
  | .ok (fd, table) => do
    let socket : BaseSocket := ⟨.serverSocket, some fd, some domain⟩
    let bound ← bind host gethostbyname socket bindTo binds
    let outcome := match bound with
      | .ok () =>
        if listens then .ok () else .error (.unixError ("cannot listen to ".toList ++ bindTo))
      | .error e => .error e
    return construct { s with table } socket outcome

end

/-- `server_socket::accept` -/
def accept (s : State) (succeeds : Bool) : Except Error Unit × State :=
  match if succeeds then s.table.freeSlot else none with
  | none => (.error (.unixError "failed in accept()".toList), s)
  | some fd =>
    (.ok (), {
      table := s.table.put fd .object ()
      sockets := s.sockets ++ [some ⟨.socket, some fd, none⟩] })

/-- Whether `base_socket::wait` uses a set: for `WaitRead`, `WaitWrite` or `WaitException`. -/
def usesSet (what : BitVec 32) : Bool := what.getLsbD 0 || what.getLsbD 1 || what.getLsbD 2

/-- `base_socket::wait`, where `select` may fail. -/
def wait (socket : BaseSocket) (what : BitVec 32) (selected : Option Nat) :
    Except Fault (Except Error Nat) :=
  if usesSet what ∧ ¬ socket.fd.any (· < fdSetSize) then .error .setOverflow
  else .ok (match selected with
    | none => .error (.unixError "error while waiting for socket".toList)
    | some n => .ok n)

/-! ### Programs -/

inductive Op
  /-- The user opens a descriptor. -/
  | userOpen
  /-- The user closes a descriptor. -/
  | userClose (fd : Nat)
  /-- `socket::socket(fd)` of a descriptor of the user, or of `-1`. -/
  | adopt (fd : Option Nat)
  | openSocket (domain : Domain) (connectTo : Str) (opens connects : Bool)
  | openServer (domain : Domain) (bindTo : Str) (opens binds listens : Bool)
  | connect (i : Nat) (address : Str) (succeeds : Bool)
  | bind (i : Nat) (address : Str) (succeeds : Bool)
  | accept (i : Nat) (succeeds : Bool)
  | wait (i : Nat) (what : BitVec 32) (selected : Option Nat)
  | destroy (i : Nat)
  deriving DecidableEq

namespace State

def socket (s : State) (i : Nat) : Option BaseSocket := s.sockets[i]?.join

/-- A member which only reads the socket. -/
def call {α : Type} (s : State) (i : Nat) (f : BaseSocket → Except Fault α) : Except Fault State :=
  match s.socket i with
  | none => .ok s
  | some socket => do
    let _ ← f socket
    return s

def exec (host : Host) (gethostbyname : Str → Option Hostent) (s : State) : Op → Except Fault State
  | .userOpen =>
    .ok { s with table := s.table.freeSlot.elim s.table fun fd => s.table.put fd .user () }
  | .userClose fd => .ok { s with table := s.table.userClose fd }
  | .adopt fd => .ok {
      table := fd.elim s.table s.table.handOver
      sockets := s.sockets ++ [some ⟨.socket, fd, none⟩] }
  | .openSocket domain connectTo opens connects => do
    let (_, s) ← Socket.openSocket host gethostbyname s domain connectTo opens connects
    return s
  | .openServer domain bindTo opens binds listens => do
    let (_, s) ← Socket.openServer host gethostbyname s domain bindTo opens binds listens
    return s
  | .connect i address succeeds =>
    s.call i fun socket => Socket.connect host gethostbyname socket address succeeds
  | .bind i address succeeds =>
    s.call i fun socket => Socket.bind host gethostbyname socket address succeeds
  | .accept _ succeeds => .ok (Socket.accept s succeeds).2
  | .wait i what selected => s.call i fun socket => Socket.wait socket what selected
  | .destroy i =>
    match s.socket i with
    | none => .ok s
    | some socket =>
      .ok { table := closeBase s.table socket.fd, sockets := s.sockets.set i none }

/-- The user closes and passes what is theirs, and the members are called on sockets which are there
and have them. -/
def Legal (s : State) : Op → Prop
  | .userClose fd => s.table.ownerOf fd = some .user
  | .adopt fd => ∀ n, fd = some n → s.table.ownerOf n = some .user
  | .connect i _ _ => ∃ socket, s.socket i = some socket ∧ socket.kind = .socket
  | .bind i _ _ | .accept i _ => ∃ socket, s.socket i = some socket ∧ socket.kind = .serverSocket
  | .wait i _ _ | .destroy i => (s.socket i).isSome
  | _ => True

/-- `connect` is called on a socket which was made with a domain, and the sets have room for a
descriptor. -/
def Guarded (s : State) : Op → Prop
  | .connect i _ _ => ∀ socket, s.socket i = some socket → socket.domain ≠ none
  | .wait i what _ => usesSet what → ∀ socket, s.socket i = some socket →
      ∃ fd, socket.fd = some fd ∧ fd < fdSetSize
  | _ => True

/-- Socket `i` has the open descriptor with this identity. -/
def Has (s : State) (i id : Nat) : Prop :=
  ∃ socket fd d, s.socket i = some socket ∧ socket.fd = some fd ∧ s.table.get fd = some d ∧
    d.id = id

/-- Each descriptor of the sockets belongs to one of them until it is closed, which happens once,
none of the user is closed, and no close fails. -/
structure Sound (s : State) : Prop where
  once : ∀ id, s.table.owners[id]? = some .object →
    ((∃! i, s.Has i id) ∧ some id ∉ s.table.closes) ∨
      ((∀ i, ¬ s.Has i id) ∧ s.table.closes.count (some id) = 1)
  spared : ∀ id, s.table.owners[id]? = some .user → some id ∉ s.table.closes
  valid : none ∉ s.table.closes

end State

def machine (host : Host) (gethostbyname : Str → Option Hostent) : Machine State Op Fault where
  legal := State.Legal
  step := State.exec host gethostbyname

/-! ### Who owns the descriptors -/

/-- The numbers of the sockets. -/
def State.held (s : State) : List Nat := s.sockets.filterMap (·.bind BaseSocket.fd)

/-- The sockets own what they hold, and a server has its domain. -/
structure State.Inv (s : State) : Prop where
  owned : s.table.Owns s.held
  server : ∀ socket, some socket ∈ s.sockets → socket.kind = .serverSocket → socket.domain ≠ none

variable {s : State} {i fd : Nat} {socket : BaseSocket}

lemma mem_held_iff : fd ∈ s.held ↔ ∃ i socket, s.socket i = some socket ∧ socket.fd = some fd := by
  rw [State.held, List.mem_filterMap]
  constructor
  · rintro ⟨o, ho, hfd⟩
    obtain ⟨socket, rfl, hfd⟩ := Option.bind_eq_some_iff.mp hfd
    obtain ⟨i, hi⟩ := List.mem_iff_getElem?.mp ho
    exact ⟨i, socket, Option.join_eq_some_iff.mpr hi, hfd⟩
  · rintro ⟨i, socket, hi, hfd⟩
    exact ⟨some socket, List.mem_of_getElem? (Option.join_eq_some_iff.mp hi), hfd⟩

/-- Two sockets have two numbers. -/
lemma State.Inv.eq_of_fd (h : s.Inv) {i' : Nat} {socket' : BaseSocket}
    (hi : s.socket i = some socket) (hi' : s.socket i' = some socket') (hfd : socket.fd = some fd)
    (hfd' : socket'.fd = some fd) : i = i' := by
  by_contra hne
  have hnodup := h.owned.nodup
  rw [State.held, ← Multiset.coe_nodup, Ledger.filterMap_eq (Option.join_eq_some_iff.mp hi),
    Option.bind_some, hfd, Option.toList_some, Multiset.coe_singleton, Multiset.singleton_add,
    Multiset.nodup_cons] at hnodup
  refine hnodup.1 (List.mem_filterMap.mpr ⟨some socket', ?_, hfd'⟩)
  rw [List.mem_eraseIdx_iff_getElem?]
  exact ⟨i', Ne.symm hne, Option.join_eq_some_iff.mp hi'⟩

lemma State.Inv.sound (h : s.Inv) : s.Sound where
  once id hid := by
    have hunclosed {i : Nat} (hi : s.Has i id) : some id ∉ s.table.closes := by
      obtain ⟨socket, fd, d, -, -, hd, rfl⟩ := hi
      exact h.owned.unclosed fd d hd
    rcases h.owned.closed id hid with ⟨fd, d, hd, rfl⟩ | hcount
    · obtain ⟨i, socket, hi, hfd⟩ := mem_held_iff.mp ((h.owned.held_iff fd d hd).mpr hid)
      have hhas : s.Has i d.id := ⟨socket, fd, d, hi, hfd, hd, rfl⟩
      refine .inl ⟨⟨i, hhas, ?_⟩, hunclosed hhas⟩
      rintro i' ⟨socket', fd', d', hi', hfd', hd', hdid⟩
      obtain rfl := h.owned.id_inj fd' fd d' d hd' hd hdid
      exact h.eq_of_fd hi' hi hfd' hfd
    · refine .inr ⟨fun i hi => ?_, hcount⟩
      rw [List.count_eq_zero.mpr (hunclosed hi)] at hcount
      cases hcount
  spared := h.owned.spared
  valid := h.owned.valid

/-! ### Steps -/

lemma held_append (s : State) (table : Descriptors Unit) (socket : BaseSocket) :
    State.held { table, sockets := s.sockets ++ [some socket] } = s.held ++ socket.fd.toList := by
  rw [State.held, State.held, List.filterMap_append]
  cases h : socket.fd <;> simp [h]

lemma held_set (hi : s.socket i = some socket) (table : Descriptors Unit) :
    s.held.Perm (socket.fd.toList ++ State.held { table, sockets := s.sockets.set i none }) := by
  have hget := Option.join_eq_some_iff.mp hi
  rw [← Multiset.coe_eq_coe, ← Multiset.coe_add, State.held, State.held, Ledger.filterMap_eq hget,
    Ledger.filterMap_set (List.getElem?_eq_some_iff.mp hget).1]
  simp

/-- A new socket. -/
lemma State.Inv.push {table : Descriptors Unit} (h : s.Inv)
    (howned : table.Owns (socket.fd.toList ++ s.held))
    (hserver : socket.kind = .serverSocket → socket.domain ≠ none) :
    State.Inv { table, sockets := s.sockets ++ [some socket] } where
  owned := by
    rw [held_append]
    exact howned.perm List.perm_append_comm
  server socket' hsocket' := by
    rcases List.mem_append.mp hsocket' with hold | hnew
    · exact h.server socket' hold
    · cases List.mem_singleton.mp hnew
      exact hserver

section

variable {host : Host} {gethostbyname : Str → Option Hostent} {desc address : Str}
  {domain : Domain} {succeeds : Bool}

lemma toSockaddr_ne_buffer (fault : CString.Fault) :
    toSockaddr host gethostbyname domain address ≠ .error (.buffer fault) := by
  cases domain with
  | unix =>
    rw [toSockaddr]
    rcases toSockaddr_unix host address with ⟨hbad, -⟩ | ⟨addr, hok, -⟩
    · simp [hbad]
    · simp [hok]
  | inet =>
    rw [toSockaddr]
    split
    · simp
    · simp only
      split
      · simp
      · split <;> simp

/-- With a domain there is no fault. -/
lemma attach_some (host : Host) (gethostbyname : Str → Option Hostent) (desc : Str)
    (domain : Domain) (address : Str) (succeeds : Bool) : ∃ outcome,
    attach host gethostbyname desc (some domain) address succeeds = .ok outcome := by
  rw [attach]
  rcases h : toSockaddr host gethostbyname domain address with (_ | fault) | addr
  · exact ⟨_, rfl⟩
  · exact absurd h (toSockaddr_ne_buffer fault)
  · exact ⟨_, rfl⟩

lemma attach_none : attach host gethostbyname desc none address succeeds = .error .uninitialised :=
  rfl

/-- What a constructor leaves, whether it throws or not. -/
lemma State.Inv.construct (h : s.Inv) {table : Descriptors Unit}
    (howned : table.Owns (fd :: s.held)) (hfd : socket.fd = some fd)
    (hserver : socket.kind = .serverSocket → socket.domain ≠ none) (outcome : Except Error Unit) :
    (Socket.construct { s with table } socket outcome).2.Inv := by
  cases outcome with
  | ok =>
    refine h.push ?_ hserver
    rwa [hfd]
  | error e =>
    refine ⟨?_, h.server⟩
    show (closeBase table socket.fd).Owns s.held
    rw [hfd]
    exact howned.close

/-- A new descriptor is of the sockets. -/
lemma State.Inv.openBase (h : s.Inv) {opens : Bool} {table : Descriptors Unit}
    (hopen : openBase s.table opens = .ok (fd, table)) : table.Owns (fd :: s.held) := by
  rw [Socket.openBase] at hopen
  cases hfree : (if opens = true then s.table.freeSlot else none) with
  | none => simp [hfree] at hopen
  | some fd' =>
    simp only [hfree, Except.ok.injEq, Prod.mk.injEq] at hopen
    obtain ⟨rfl, rfl⟩ := hopen
    have hslot : s.table.freeSlot = some fd' := by
      split_ifs at hfree
      exact hfree
    exact h.owned.put hslot .object ()

lemma State.Inv.openSocket (h : s.Inv) (host : Host) (gethostbyname : Str → Option Hostent)
    (domain : Domain)
    (connectTo : Str) (opens connects : Bool) :
    ∃ res, openSocket host gethostbyname s domain connectTo opens connects = .ok res ∧
      res.2.Inv := by
  rw [Socket.openSocket]
  rcases hopen : Socket.openBase s.table opens with e | ⟨fd, table⟩
  · exact ⟨_, rfl, h⟩
  · obtain ⟨outcome, hconnect⟩ := attach_some host gethostbyname "cannot connect to ".toList domain
      connectTo connects
    simp only [connect, hconnect, Except.ok_bind]
    exact ⟨_, rfl, h.construct (h.openBase hopen) rfl (fun hkind => by cases hkind) outcome⟩

lemma State.Inv.openServer (h : s.Inv) (host : Host) (gethostbyname : Str → Option Hostent)
    (domain : Domain) (bindTo : Str) (opens binds listens : Bool) :
    ∃ res, openServer host gethostbyname s domain bindTo opens binds listens = .ok res ∧
      res.2.Inv := by
  rw [Socket.openServer]
  rcases hopen : Socket.openBase s.table opens with e | ⟨fd, table⟩
  · exact ⟨_, rfl, h⟩
  · obtain ⟨outcome, hbind⟩ := attach_some host gethostbyname "cannot bind to ".toList domain
      bindTo binds
    simp only [Socket.bind, hbind, Except.ok_bind]
    exact ⟨_, rfl, h.construct (h.openBase hopen) rfl (fun _ => Option.some_ne_none domain) _⟩

lemma State.Inv.accept (h : s.Inv) (succeeds : Bool) : (Socket.accept s succeeds).2.Inv := by
  rw [Socket.accept]
  cases hfree : (if succeeds = true then s.table.freeSlot else none) with
  | none => exact h
  | some fd =>
    have hslot : s.table.freeSlot = some fd := by
      split_ifs at hfree
      exact hfree
    exact h.push (h.owned.put hslot .object ()) fun hkind => by cases hkind

lemma State.Inv.destroy (h : s.Inv) (hi : s.socket i = some socket) :
    State.Inv { table := closeBase s.table socket.fd, sockets := s.sockets.set i none } where
  owned := by
    have howned := h.owned.perm (held_set hi (closeBase s.table socket.fd))
    cases hfd : socket.fd with
    | none => rwa [hfd] at howned
    | some fd =>
      rw [hfd] at howned
      exact howned.close
  server socket' hsocket' := by
    rcases List.mem_or_eq_of_mem_set hsocket' with hold | hnew
    · exact h.server socket' hold
    · cases hnew

lemma State.Inv.adopt (h : s.Inv) {handle : Option Nat}
    (hhandle : ∀ n, handle = some n → s.table.ownerOf n = some .user) : State.Inv {
      table := handle.elim s.table s.table.handOver
      sockets := s.sockets ++ [some ⟨.socket, handle, none⟩] } := by
  refine h.push ?_ fun hkind => by cases hkind
  cases handle with
  | none => exact h.owned
  | some fd => exact h.owned.handOver (hhandle fd rfl)

/-- `wait` is guarded, or it writes outside the sets. -/
lemma wait_eq (socket : BaseSocket) (what : BitVec 32) (selected : Option Nat) :
    (wait socket what selected = .error .setOverflow ∧
        ¬ (usesSet what = true → ∃ fd, socket.fd = some fd ∧ fd < fdSetSize)) ∨
      (usesSet what = true → ∃ fd, socket.fd = some fd ∧ fd < fdSetSize) ∧
        ∃ outcome, wait socket what selected = .ok outcome := by
  have hany : socket.fd.any (· < fdSetSize) = true ↔
      ∃ fd, socket.fd = some fd ∧ fd < fdSetSize := by
    simp [Option.any_eq_true]
  rw [wait.eq_def]
  split_ifs with h
  · rw [hany] at h
    exact .inl ⟨rfl, fun hguard => h.2 (hguard h.1)⟩
  · rw [hany] at h
    exact .inr ⟨fun huses => not_not.mp fun hnone => h ⟨huses, hnone⟩, _, rfl⟩

lemma call_eq {α : Type} {f : BaseSocket → Except Fault α} (hi : s.socket i = some socket)
    {outcome : α} (hf : f socket = .ok outcome) : s.call i f = .ok s := by
  simp only [State.call, hi, hf]
  rfl

lemma call_error {α : Type} {f : BaseSocket → Except Fault α} (hi : s.socket i = some socket)
    {fault : Fault} (hf : f socket = .error fault) : s.call i f = .error fault := by
  simp only [State.call, hi, hf]
  rfl

/-- A step fails exactly if it is not guarded. -/
lemma State.Inv.exec (h : s.Inv) (host : Host) (gethostbyname : Str → Option Hostent) {op : Op}
    (hop : s.Legal op) :
    ((∃ fault, s.exec host gethostbyname op = .error fault) ∧ ¬ s.Guarded op) ∨
      ∃ s', s.exec host gethostbyname op = .ok s' ∧ s'.Inv ∧ s.Guarded op := by
  cases op with
  | userOpen =>
    refine .inr ⟨_, rfl, ⟨?_, h.server⟩, trivial⟩
    cases hfree : s.table.freeSlot with
    | none => exact h.owned
    | some fd => exact h.owned.put hfree .user ()
  | userClose fd => exact .inr ⟨_, rfl, ⟨h.owned.userClose hop, h.server⟩, trivial⟩
  | adopt handle => exact .inr ⟨_, rfl, h.adopt hop, trivial⟩
  | openSocket domain connectTo opens connects =>
    obtain ⟨res, hok, hinv⟩ := h.openSocket host gethostbyname domain connectTo opens connects
    exact .inr ⟨res.2, by simp only [State.exec, hok]; rfl, hinv, trivial⟩
  | openServer domain bindTo opens binds listens =>
    obtain ⟨res, hok, hinv⟩ := h.openServer host gethostbyname domain bindTo opens binds listens
    exact .inr ⟨res.2, by simp only [State.exec, hok]; rfl, hinv, trivial⟩
  | connect i address succeeds =>
    obtain ⟨socket, hi, -⟩ := hop
    cases hdomain : socket.domain with
    | none =>
      refine .inl ⟨⟨.uninitialised, call_error hi ?_⟩, fun hguard => hguard socket hi hdomain⟩
      rw [Socket.connect, hdomain, attach_none]
    | some domain =>
      obtain ⟨outcome, hok⟩ := attach_some host gethostbyname "cannot connect to ".toList domain
        address succeeds
      have hconnect : Socket.connect host gethostbyname socket address succeeds = .ok outcome := by
        rw [Socket.connect, hdomain]
        exact hok
      refine .inr ⟨s, call_eq hi hconnect, h, fun socket' hi' => ?_⟩
      · obtain rfl := Option.some.inj (hi.symm.trans hi')
        rw [hdomain]
        exact Option.some_ne_none domain
  | bind i address succeeds =>
    obtain ⟨socket, hi, hkind⟩ := hop
    have hmem := List.mem_of_getElem? (Option.join_eq_some_iff.mp hi)
    obtain ⟨domain, hdomain⟩ := Option.ne_none_iff_exists'.mp (h.server socket hmem hkind)
    obtain ⟨outcome, hok⟩ := attach_some host gethostbyname "cannot bind to ".toList domain
      address succeeds
    have hbind : Socket.bind host gethostbyname socket address succeeds = .ok outcome := by
      rw [Socket.bind, hdomain]
      exact hok
    exact .inr ⟨s, call_eq hi hbind, h, trivial⟩
  | accept i succeeds => exact .inr ⟨_, rfl, h.accept succeeds, trivial⟩
  | wait i what selected =>
    obtain ⟨socket, hi⟩ := Option.isSome_iff_exists.mp hop
    rcases wait_eq socket what selected with ⟨hfault, hguard⟩ | ⟨hguard, outcome, hok⟩
    · exact .inl ⟨⟨_, call_error hi hfault⟩, fun h => hguard fun huses => h huses socket hi⟩
    · refine .inr ⟨s, call_eq hi hok, h, fun huses socket' hi' => ?_⟩
      obtain rfl := Option.some.inj (hi.symm.trans hi')
      exact hguard huses
  | destroy i =>
    obtain ⟨socket, hi⟩ := Option.isSome_iff_exists.mp hop
    exact .inr ⟨_, by simp only [State.exec, hi], h.destroy hi, trivial⟩

end

/-- In every run each descriptor of the sockets has one of them as its owner, and is closed once by
its destructor or when a constructor throws, exactly if no socket is connected which was made of a
descriptor, and none is waited for whose number does not fit into the sets. -/
theorem descriptors_owned (host : Host) (gethostbyname : Str → Option Hostent) (size : Nat)
    (ops : List Op) (hlegal : (machine host gethostbyname).Legal (State.start size) ops) :
    (machine host gethostbyname).Holds State.Sound (State.start size) ops ↔
      (machine host gethostbyname).Meets State.Guarded (State.start size) ops := by
  have hstart : (State.start size).Inv := ⟨.empty size, by simp [State.start]⟩
  refine Machine.holds_iff_meets (fun s (h : s.Inv) => h.sound) ?_ ?_ hstart hlegal
  · intro s op h hop hguarded
    obtain ⟨-, hnot⟩ | ⟨s', hs', h', -⟩ := h.exec host gethostbyname hop
    · exact absurd hguarded hnot
    · exact ⟨s', hs', h'⟩
  · intro s op s' h hop hguarded hs'
    obtain ⟨⟨fault, hfault⟩, -⟩ | ⟨-, -, -, hguarded'⟩ := h.exec host gethostbyname hop
    · rw [show (machine host gethostbyname).step s op = .error fault from hfault] at hs'
      cases hs'
    · exact absurd hguarded' hguarded

/-- A server accepts a connection and waits for data on it, and another socket fails to connect. -/
def serverRun : List Op :=
  [.openServer .inet "host:80".toList true true true, .accept 0 true, .wait 1 1 (some 1),
    .openSocket .unix "s".toList true false, .destroy 1, .destroy 0]

theorem descriptors_owned_serverRun :
    (machine .little fun _ => some (.inet (Vector.replicate 4 127))).Holds State.Sound
      (State.start 8) serverRun := by
  refine (descriptors_owned _ _ 8 serverRun ?_).mpr ?_
  · exact .cons trivial rfl (.cons ⟨_, rfl, rfl⟩ rfl (.cons rfl rfl (.cons trivial rfl
      (.cons rfl rfl (.cons rfl rfl trivial)))))
  · refine .cons trivial rfl (.cons trivial rfl (.cons ?_ rfl (.cons trivial rfl
      (.cons trivial rfl (.cons trivial rfl trivial)))))
    rintro - socket ⟨rfl⟩
    exact ⟨1, rfl, by decide⟩

end Utilmm.System.Socket
