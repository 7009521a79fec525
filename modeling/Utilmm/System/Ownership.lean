import Utilmm.System.Redirection

/-!
# Who owns the descriptors of a redirection

Every descriptor that the object opens, and every one it is given, is closed exactly once, at the
latest by the destructor. The `FILE*` variant of `redirect_to` and `erase_redirection` break this,
and the runs are told apart by the calls which are made of them.
-/

namespace Utilmm.System.Redirection

open Throwing (exec exec_bind_ok exec_bind_error)

/-! ### What holds of a state -/

/-- The streams are redirected to what was requested last, and a destruction at this point leaves
every descriptor of the object closed exactly once, none of the user, and no close failed. -/
structure Sound (s : State) : Prop where
  redirected : ∀ stream, s.target stream = s.requested.get stream
  once : ∀ id, s.table.owners[id]? = some .object → s.destroy.table.closes.count (some id) = 1
  spared : ∀ id, s.table.owners[id]? = some .user → some id ∉ s.destroy.table.closes
  valid : none ∉ s.destroy.table.closes

/-- The calls for which the object does what it should: the stream of `erase_redirection` has no
redirection, what is passed with `auto_close` is a descriptor of the user, a `FILE*` can be
duplicated if it is passed with `auto_close`, and cannot be if it is passed without, and `start`
gets its pipe. -/
def State.Admits (s : State) : Action → Prop
  | .redirectToFile _ handle true => s.table.ownerOf handle = some .user ∧ s.table.freeSlot ≠ none
  | .redirectToFile _ handle false => s.table.get handle = none ∨ s.table.freeSlot = none
  | .redirectTo _ (some fd) true => s.table.ownerOf fd = some .user
  | .eraseRedirection stream => s.requested.get stream = none
  | .start false _ => s.roomForPipe
  | _ => True

/-! ### Values for the streams -/

namespace PerStream

variable {α : Type} (p : PerStream α) (stream stream' : Stream) (a b : α)

@[simp] lemma get_set_self : (p.set stream a).get stream = a := by cases stream <;> rfl

lemma get_set_of_ne (h : stream' ≠ stream) : (p.set stream a).get stream' = p.get stream' := by
  cases stream <;> cases stream' <;> first | rfl | exact absurd rfl h

@[simp] lemma set_set : (p.set stream a).set stream b = p.set stream b := by cases stream <;> rfl

/-- The numbers which the streams have. -/
def held (p : PerStream (Option Nat)) : List Nat := p.stdout.toList ++ p.stderr.toList

lemma held_perm (p : PerStream (Option Nat)) (stream : Stream) :
    p.held.Perm ((p.get stream).toList ++ (p.set stream none).held) := by
  cases stream with
  | stdout => exact List.Perm.refl _
  | stderr => simpa [held, get, set] using List.perm_append_comm

lemma mem_held {p : PerStream (Option Nat)} {fd : Nat} :
    fd ∈ p.held ↔ ∃ stream, p.get stream = some fd := by
  simp only [held, List.mem_append, Option.mem_toList]
  constructor
  · rintro (h | h)
    · exact ⟨.stdout, h⟩
    · exact ⟨.stderr, h⟩
  · rintro ⟨stream | stream, h⟩
    · exact Or.inl h
    · exact Or.inr h

end PerStream

namespace State

/-- The object holds the numbers of the streams, and those of local variables. -/
def Owned (s : State) (extra : List Nat) : Prop := s.table.Owns (extra ++ s.streams.held)

variable {s s' : State} {extra : List Nat} {stream stream' : Stream} {fd : Nat}

namespace Owned

/-- A stream has a number which is open. -/
lemma isOpen (h : s.Owned extra) (hfd : s.streams.get stream = some fd) :
    ∃ d, s.table.get fd = some d :=
  Descriptors.Owns.isOpen h fd (List.mem_append_right _ (PerStream.mem_held.mpr ⟨stream, hfd⟩))

/-- A stream does not have the number of a local variable. -/
lemma stream_ne (h : s.Owned (fd :: extra)) : s.streams.get stream ≠ some fd := by
  intro hfd
  refine (List.nodup_cons.mp h.nodup).1 (List.mem_append_right _ ?_)
  exact PerStream.mem_held.mpr ⟨stream, hfd⟩

/-- No two streams have the same number. -/
lemma streams_ne (h : s.Owned extra) (hne : stream' ≠ stream)
    (hfd : s.streams.get stream' = some fd) : s.streams.get stream ≠ some fd := by
  intro hfd'
  have hnodup := (h.perm ((s.streams.held_perm stream).append_left extra)).nodup
  rw [hfd'] at hnodup
  have hnot := (List.nodup_cons.mp (List.nodup_append.mp hnodup).2.1).1
  refine hnot (PerStream.mem_held.mpr ⟨stream', ?_⟩)
  rw [PerStream.get_set_of_ne _ _ _ _ hne, hfd]

end Owned

/-! ### Changes of the state -/

/-- The object opens a number. -/
def opened (s : State) (fd : Nat) (file : File) : State :=
  { s with table := s.table.put fd .object file }

/-- The object closes a number. -/
def shut (s : State) (fd : Nat) : State := { s with table := s.table.close fd }

/-- The `auto_close` of a stream gets a number. -/
def point (s : State) (stream : Stream) (fileno : Option Nat) : State :=
  { s with streams := s.streams.set stream fileno }

/-- The `auto_close` of a stream is closed. -/
def cleared (s : State) (stream : Stream) : State :=
  match s.streams.get stream with
  | none => s
  | some fd => (s.shut fd).point stream none

variable {file : File} {fd' : Nat}

lemma fileOf_opened (hfree : s.table.freeSlot = some fd) :
    (s.opened fd file).fileOf fd' = if fd' = fd then some file else s.fileOf fd' := by
  rw [fileOf, opened, Descriptors.get_put _ _ hfree]
  split_ifs <;> rfl

lemma fileOf_shut : (s.shut fd).fileOf fd' = if fd' = fd then none else s.fileOf fd' := by
  rw [fileOf, shut, Descriptors.get_close]
  split_ifs <;> rfl

@[simp] lemma fileOf_point (fileno : Option Nat) :
    (s.point stream fileno).fileOf fd = s.fileOf fd := rfl

@[simp] lemma fileOf_give (closeOnExit : Bool) :
    (s.give fd closeOnExit).fileOf fd' = s.fileOf fd' := by
  cases closeOnExit <;> simp [give, fileOf]

lemma target_eq {file : Option File} (h : s.target stream = file) (hstreams : s'.streams = s.streams)
    (hfile : ∀ fd, s.streams.get stream = some fd → s'.fileOf fd = s.fileOf fd) :
    s'.target stream = file := by
  rw [← h, target, target, hstreams]
  cases hfd : s.streams.get stream with
  | none => rfl
  | some fd => exact hfile fd hfd

lemma target_of_streams (h : s.streams = ⟨none, none⟩) : s.target stream = none := by
  rw [target, h]
  cases stream <;> rfl

@[simp] lemma streams_cleared (s : State) (stream : Stream) :
    (s.cleared stream).streams = s.streams.set stream none := by
  rw [cleared]
  cases hfd : s.streams.get stream with
  | none => cases stream <;> simp_all [PerStream.set, PerStream.get, ← hfd]
  | some fd => rfl

@[simp] lemma requested_cleared (s : State) (stream : Stream) :
    (s.cleared stream).requested = s.requested := by
  rw [cleared]
  split <;> rfl

@[simp] lemma alive_cleared (s : State) (stream : Stream) : (s.cleared stream).alive = s.alive := by
  rw [cleared]
  split <;> rfl

/-- Only the number of the stream is closed. -/
lemma get_cleared (h : s.streams.get stream ≠ some fd) :
    (s.cleared stream).table.get fd = s.table.get fd := by
  rw [cleared]
  cases hfd : s.streams.get stream with
  | none => rfl
  | some fd' =>
    have hne : fd ≠ fd' := by
      rintro rfl
      exact h hfd
    exact (Descriptors.get_close s.table fd' fd).trans (if_neg hne)

/-- A number which was not open does not become open. -/
lemma get_cleared_of_none (h : s.table.get fd = none) : (s.cleared stream).table.get fd = none := by
  rw [cleared]
  cases hfd : s.streams.get stream with
  | none => exact h
  | some fd' =>
    refine (Descriptors.get_close s.table fd' fd).trans ?_
    split_ifs
    · rfl
    · exact h

lemma fileOf_cleared (h : s.streams.get stream ≠ some fd) :
    (s.cleared stream).fileOf fd = s.fileOf fd := by
  rw [fileOf, get_cleared h, fileOf]

namespace Owned

/-- A number that is free is none of the numbers of the streams. -/
lemma stream_ne_free (h : s.Owned extra) (hfree : s.table.freeSlot = some fd) :
    s.streams.get stream ≠ some fd := by
  intro hfd
  obtain ⟨d, hd⟩ := h.isOpen hfd
  rw [(Descriptors.get_of_freeSlot hfree).1] at hd
  cases hd

lemma opened (h : s.Owned extra) (hfree : s.table.freeSlot = some fd) (file : File) :
    (s.opened fd file).Owned (fd :: extra) :=
  Descriptors.Owns.put h hfree .object file

lemma target_opened (h : s.Owned extra) (hfree : s.table.freeSlot = some fd) :
    (s.opened fd file).target stream = s.target stream := by
  refine target_eq rfl rfl fun fd' hfd' => ?_
  rw [fileOf_opened hfree, if_neg]
  rintro rfl
  exact h.stream_ne_free hfree hfd'

lemma shut (h : s.Owned (fd :: extra)) : (s.shut fd).Owned extra := Descriptors.Owns.close h

lemma target_shut (h : s.Owned (fd :: extra)) : (s.shut fd).target stream = s.target stream := by
  refine target_eq rfl rfl fun fd' hfd' => ?_
  rw [fileOf_shut, if_neg]
  rintro rfl
  exact h.stream_ne hfd'

lemma cleared (h : s.Owned extra) (stream : Stream) : (s.cleared stream).Owned extra := by
  have hperm := (s.streams.held_perm stream).append_left extra
  rw [Owned, streams_cleared]
  rw [State.cleared]
  cases hfd : s.streams.get stream with
  | none => simpa [hfd] using h.perm hperm
  | some fd =>
    rw [hfd] at hperm
    exact ((h.perm hperm).perm List.perm_middle).close

lemma target_cleared_of_ne (h : s.Owned extra) (hne : stream' ≠ stream) :
    (s.cleared stream).target stream' = s.target stream' := by
  rw [target, target, streams_cleared, PerStream.get_set_of_ne _ _ _ _ hne]
  cases hfd : s.streams.get stream' with
  | none => rfl
  | some fd => exact fileOf_cleared (h.streams_ne hne hfd)

/-- A stream takes a number over. -/
lemma point (h : s.Owned (fd :: extra)) (hnone : s.streams.get stream = none) :
    (s.point stream (some fd)).Owned extra := by
  have hset : s.streams.set stream none = s.streams := by
    cases stream <;> simp_all [PerStream.set, PerStream.get, ← hnone]
  have hperm := (s.streams.set stream (some fd)).held_perm stream
  rw [PerStream.get_set_self, PerStream.set_set, hset] at hperm
  exact Descriptors.Owns.perm h (List.perm_middle.symm.trans (hperm.symm.append_left extra))

end Owned

end State

/-! ### The calls, one by one -/

section

variable {s s' : State} {extra : List Nat} {stream stream' : Stream} {fd fd' : Nat} {file : File}

lemma exec_create_none (h : s.table.freeSlot = none) : exec (create file) s = (.ok none, s) := by
  rw [create, exec_bind_ok (Throwing.exec_get s), h]
  rfl

lemma exec_create_some (h : s.table.freeSlot = some fd) :
    exec (create file) s = (.ok (some fd), s.opened fd file) := by
  rw [create, exec_bind_ok (Throwing.exec_get s), h]
  rfl

/-- Nothing can be duplicated that is not open. -/
lemma exec_dup_closed (h : s.table.get fd = none) : exec (dup (some fd)) s = (.ok none, s) := by
  rw [dup, exec_bind_ok (Throwing.exec_get s), Option.bind_some, h]
  rfl

lemma exec_dup_full (h : s.table.freeSlot = none) : exec (dup (some fd)) s = (.ok none, s) := by
  rw [dup, exec_bind_ok (Throwing.exec_get s), Option.bind_some]
  cases s.table.get fd with
  | none => rfl
  | some d => exact exec_create_none h

lemma exec_dup_some (hfile : s.fileOf fd = some file) (hfree : s.table.freeSlot = some fd') :
    exec (dup (some fd)) s = (.ok (some fd'), s.opened fd' file) := by
  obtain ⟨d, hd, rfl⟩ := Option.map_eq_some_iff.mp hfile
  rw [dup, exec_bind_ok (Throwing.exec_get s), Option.bind_some, hd]
  exact exec_create_some hfree

lemma exec_close (s : State) (fd : Nat) :
    exec (close fd) s = (.ok (s.table.get fd).isSome, s.shut fd) := rfl

lemma exec_closeStream_state (s : State) (stream : Stream) :
    (exec (closeStream stream) s).2 = s.cleared stream := by
  rw [closeStream, exec_bind_ok (Throwing.exec_get s), State.cleared]
  cases s.streams.get stream with
  | none => rfl
  | some fd =>
    simp only [exec_bind_ok (exec_close s fd)]
    cases (s.table.get fd).isSome <;> rfl

/-- An `auto_close` can be closed if its number is open. -/
lemma exec_closeStream (h : ∀ fd, s.streams.get stream = some fd → s.table.get fd ≠ none) :
    exec (closeStream stream) s = (.ok (), s.cleared stream) := by
  rw [closeStream, exec_bind_ok (Throwing.exec_get s), State.cleared]
  cases hfd : s.streams.get stream with
  | none => rfl
  | some fd =>
    have hopen : (s.table.get fd).isSome = true := Option.isSome_iff_ne_none.mpr (h fd hfd)
    simp only [exec_bind_ok (exec_close s fd), hopen]
    rfl

lemma exec_reset (h : s.Owned extra) (fileno : Option Nat) :
    exec (reset stream fileno) s = (.ok (), (s.cleared stream).point stream fileno) := by
  have hopen : ∀ fd, s.streams.get stream = some fd → s.table.get fd ≠ none := by
    intro fd hfd
    obtain ⟨d, hd⟩ := h.isOpen hfd
    simp [hd]
  rw [reset, exec_bind_ok (exec_closeStream hopen)]
  rfl

/-- A local `auto_close` gives its descriptor up in any case. -/
lemma exec_guarded {statements : Sys Unit} {outcome : Except Failure Unit} (fd : Nat)
    (h : exec statements s = (outcome, s')) (hopen : s'.table.get fd ≠ none) :
    exec (guarded fd statements) s = (outcome, s'.shut fd) := by
  have hok : exec (close fd) s' = (.ok true, s'.shut fd) := by
    rw [exec_close, Option.isSome_iff_ne_none.mpr hopen]
  simp only [exec] at h hok
  simp only [exec, guarded, ExceptT.run_mk, StateT.run_bind, h]
  change (StateT.run (ExceptT.run (close fd)) s' >>= fun p => _ : Id _) = _
  rw [hok]
  rfl

lemma target_point_self (s : State) (stream : Stream) (fileno : Option Nat) :
    (s.point stream fileno).target stream = fileno.bind s.fileOf := by
  rw [State.target, State.point, PerStream.get_set_self]
  rfl

lemma target_point_of_ne (fileno : Option Nat) (hne : stream' ≠ stream) :
    (s.point stream fileno).target stream' = s.target stream' := by
  rw [State.target, State.point, PerStream.get_set_of_ne _ _ _ _ hne]
  rfl

lemma exec_redirectTo_own (stream : Stream) (handle : Option Nat) :
    redirectTo stream handle true = reset stream handle := rfl

lemma exec_redirectTo_failed (s : State) (stream : Stream) {handle : Option Nat}
    (h : exec (dup handle) s = (.ok none, s)) :
    exec (redirectTo stream handle false) s = (.error .unixError, s) := by
  rw [redirectTo, if_pos (by rfl), exec_bind_ok h]
  rfl

lemma exec_redirectTo_dup {handle : Option Nat} (h : exec (dup handle) s = (.ok (some fd), s')) :
    exec (redirectTo stream handle false) s = exec (reset stream (some fd)) s' := by
  rw [redirectTo, if_pos (by rfl), exec_bind_ok h]
  rfl

lemma exec_redirectToPath_failed {path : Str} {allowed : Bool}
    (h : exec (openFile path allowed) s = (.ok none, s)) :
    exec (redirectToPath stream path allowed) s = (.error .unixError, s) := by
  rw [redirectToPath, exec_bind_ok h]
  rfl

lemma exec_redirectToPath_open {path : Str} {allowed : Bool}
    (h : exec (openFile path allowed) s = (.ok (some fd), s')) :
    exec (redirectToPath stream path allowed) s = exec (reset stream (some fd)) s' := by
  rw [redirectToPath, exec_bind_ok h]
  rfl

/-- The empty path cannot be opened, so `erase_redirection` throws. -/
lemma exec_eraseRedirection (s : State) (stream : Stream) :
    exec (eraseRedirection stream) s = (.error .unixError, s) :=
  exec_redirectToPath_failed rfl

lemma request_of_ok {request : Option File} {call : Sys Unit} (h : exec call s = (.ok (), s')) :
    s.request stream request call
      = { s' with requested := s'.requested.set stream request } := by
  rw [State.request, h]

lemma request_of_error {request : Option File} {call : Sys Unit} {failure : Failure}
    (h : exec call s = (.error failure, s')) : s.request stream request call = s' := by
  rw [State.request, h]

end

/-! ### The invariant -/

/-- The streams are redirected to what was requested, and the object holds their numbers only. -/
structure Inv (s : State) : Prop where
  redirected : ∀ stream, s.target stream = s.requested.get stream
  owned : s.Owned []

lemma destroy_table (s : State) :
    s.destroy.table = ((s.cleared .stderr).cleared .stdout).table := by
  rw [State.destroy, exec_closeStream_state, exec_closeStream_state]

lemma owners_cleared (s : State) (stream : Stream) :
    (s.cleared stream).table.owners = s.table.owners := by
  rw [State.cleared]
  cases s.streams.get stream with
  | none => rfl
  | some fd => exact Descriptors.owners_close s.table fd

lemma State.Owned.destroy {s : State} {extra : List Nat} (h : s.Owned extra) :
    s.destroy.table.Owns extra := by
  have howned := (h.cleared .stderr).cleared .stdout
  rw [destroy_table]
  rw [State.Owned, State.streams_cleared, State.streams_cleared] at howned
  simpa [PerStream.held, PerStream.set] using howned

namespace Inv

variable {s s' : State} {stream : Stream} {fd : Nat} {file : File}

lemma new (size : Nat) : Inv (State.new (.empty size)) where
  redirected stream := by cases stream <;> rfl
  owned := Descriptors.Owns.empty size

lemma owners_destroy (s : State) : s.destroy.table.owners = s.table.owners := by
  rw [destroy_table, owners_cleared, owners_cleared]

theorem sound (h : Inv s) : Sound s where
  redirected := h.redirected
  once _ hid := h.owned.destroy.count_closes (owners_destroy s ▸ hid)
  spared id hid := h.owned.destroy.spared id (owners_destroy s ▸ hid)
  valid := h.owned.destroy.valid

/-- A stream takes a number over which the object has just got. -/
lemma redirect (file : File) {extra : List Nat}
    (hred : ∀ stream, s.target stream = s.requested.get stream) (h : s.Owned (fd :: extra))
    (hfile : s.fileOf fd = some file) (stream : Stream) :
    ∃ s', exec (reset stream (some fd)) s = (.ok (), s') ∧ s'.Owned extra ∧
      (∀ stream', s'.target stream' = (s'.requested.set stream (some file)).get stream') := by
  refine ⟨_, exec_reset h (some fd), (h.cleared stream).point (by simp), fun stream' => ?_⟩
  by_cases hne : stream' = stream
  · subst hne
    rw [target_point_self, Option.bind_some, State.fileOf_cleared h.stream_ne, hfile,
      PerStream.get_set_self]
  · rw [target_point_of_ne _ hne, h.target_cleared_of_ne hne, hred,
      PerStream.get_set_of_ne _ _ _ _ hne, State.point, State.requested_cleared]

/-! ### The calls keep the invariant -/

lemma redirectToPath (h : Inv s) (stream : Stream) (path : Str) (allowed : Bool) :
    Inv (s.perform (.redirectToPath stream path allowed)) := by
  have hfailed (hopen : exec (openFile path allowed) s = (.ok none, s)) :
      Inv (s.perform (.redirectToPath stream path allowed)) := by
    rw [State.perform, request_of_error (exec_redirectToPath_failed hopen)]
    exact h
  by_cases hpath : (path = [] || !allowed) = true
  · exact hfailed (by rw [openFile, if_pos hpath]; rfl)
  · have hopenFile : openFile path allowed = create (.path path) := by rw [openFile, if_neg hpath]
    cases hfree : s.table.freeSlot with
    | none => exact hfailed (by rw [hopenFile, exec_create_none hfree])
    | some fd =>
      have hopened : exec (openFile path allowed) s = (.ok (some fd), s.opened fd (.path path)) := by
        rw [hopenFile, exec_create_some hfree]
      obtain ⟨s', hreset, howned, htarget⟩ := redirect (.path path)
        (fun stream' => (h.owned.target_opened hfree).trans (h.redirected stream'))
        (h.owned.opened hfree (.path path)) (by rw [State.fileOf_opened hfree, if_pos rfl]) stream
      rw [State.perform, request_of_ok ((exec_redirectToPath_open hopened).trans hreset)]
      exact ⟨htarget, howned⟩

/-- `InvalidHandle` takes the redirection away. -/
lemma redirectTo_none (h : Inv s) (stream : Stream) (closeOnExit : Bool) :
    Inv (s.perform (.redirectTo stream none closeOnExit)) := by
  rw [State.perform]
  cases closeOnExit with
  | false =>
    rw [request_of_error (exec_redirectTo_failed s stream rfl)]
    exact h
  | true =>
    rw [exec_redirectTo_own, request_of_ok (exec_reset h.owned none)]
    refine ⟨fun stream' => ?_, ?_⟩
    · by_cases hne : stream' = stream
      · subst hne
        rw [PerStream.get_set_self]
        exact target_point_self _ stream' none
      · rw [PerStream.get_set_of_ne _ _ _ _ hne, State.point, State.requested_cleared,
          ← h.redirected, ← h.owned.target_cleared_of_ne hne]
        exact target_point_of_ne none hne
    · have howned := h.owned.cleared stream
      rw [State.Owned, State.streams_cleared] at howned
      rw [State.Owned, State.point, State.streams_cleared, PerStream.set_set]
      exact howned

/-- The object makes a copy of a descriptor that it does not own. -/
lemma redirectTo_dup (h : Inv s) (stream : Stream) (fd : Nat) :
    Inv (s.perform (.redirectTo stream (some fd) false)) := by
  have hfailed (hdup : exec (dup (some fd)) s = (.ok none, s)) :
      Inv (s.perform (.redirectTo stream (some fd) false)) := by
    rw [State.perform, State.give, if_neg (by simp),
      request_of_error (exec_redirectTo_failed s stream hdup)]
    exact h
  cases hfile : s.fileOf fd with
  | none => exact hfailed (exec_dup_closed (Option.map_eq_none_iff.mp hfile))
  | some file =>
    cases hfree : s.table.freeSlot with
    | none => exact hfailed (exec_dup_full hfree)
    | some fd' =>
      obtain ⟨s', hreset, howned, htarget⟩ := redirect file
        (fun stream' => (h.owned.target_opened hfree).trans (h.redirected stream'))
        (h.owned.opened hfree file) (by rw [State.fileOf_opened hfree, if_pos rfl]) stream
      rw [State.perform, State.give, if_neg (by simp), hfile,
        request_of_ok ((exec_redirectTo_dup (exec_dup_some hfile hfree)).trans hreset)]
      exact ⟨htarget, howned⟩

/-- A descriptor of the user becomes one of the object. -/
lemma give (h : Inv s) (huser : s.table.ownerOf fd = some .user) :
    (s.give fd true).Owned [fd] ∧
      (∀ stream, (s.give fd true).target stream = (s.give fd true).requested.get stream) ∧
      ∃ file, s.fileOf fd = some file := by
  refine ⟨Descriptors.Owns.handOver h.owned huser, fun stream => ?_, ?_⟩
  · exact State.target_eq (h.redirected stream) rfl fun fd' _ => State.fileOf_give true
  · obtain ⟨d, hd, -⟩ := Option.bind_eq_some_iff.mp huser
    exact ⟨d.file, by rw [State.fileOf, hd]; rfl⟩

lemma redirectTo_own (h : Inv s) (stream : Stream) (huser : s.table.ownerOf fd = some .user) :
    Inv (s.perform (.redirectTo stream (some fd) true)) := by
  obtain ⟨howned, hred, file, hfile⟩ := h.give huser
  obtain ⟨s', hreset, howned', htarget⟩ :=
    redirect file hred howned ((State.fileOf_give true).trans hfile) stream
  rw [State.perform, hfile, exec_redirectTo_own, request_of_ok hreset]
  exact ⟨htarget, howned'⟩

/-- A `FILE*` of the user is closed after its descriptor was duplicated. -/
lemma redirectToFile_own (h : Inv s) (stream : Stream) {handle : Nat}
    (huser : s.table.ownerOf handle = some .user) (hfree : s.table.freeSlot = some fd) :
    Inv (s.perform (.redirectToFile stream handle true)) := by
  obtain ⟨howned, hred, file, hfile⟩ := h.give huser
  have hfree' : (s.give handle true).table.freeSlot = some fd := by
    rw [State.give, if_pos rfl, Descriptors.freeSlot_handOver, hfree]
  have hdup := exec_dup_some ((State.fileOf_give true).trans hfile) hfree'
  obtain ⟨s', hreset, howned', htarget⟩ := redirect file
    (fun stream' => (howned.target_opened hfree').trans (hred stream'))
    (howned.opened hfree' file) (by rw [State.fileOf_opened hfree', if_pos rfl]) stream
  have hcall : exec (redirectToFile stream handle true) (s.give handle true)
      = (.ok (), s'.shut handle) := by
    rw [Redirection.redirectToFile, exec_bind_ok hdup, exec_redirectTo_own, exec_bind_ok hreset]
    rfl
  rw [State.perform, hfile, request_of_ok hcall]
  exact ⟨fun stream' => howned'.target_shut.trans (htarget stream'), howned'.shut⟩

/-- Without a copy of its descriptor the call throws, and the `FILE*` stays with the user. -/
lemma redirectToFile_failed (h : Inv s) (stream : Stream) {handle : Nat}
    (hdup : exec (dup (some handle)) s = (.ok none, s)) :
    Inv (s.perform (.redirectToFile stream handle false)) := by
  have hcall : exec (redirectToFile stream handle false) s = (.error .unixError, s) := by
    rw [Redirection.redirectToFile, exec_bind_ok hdup,
      exec_bind_error (exec_redirectTo_failed s stream rfl)]
  rw [State.perform, State.give, if_neg (by simp), request_of_error hcall]
  exact h

lemma eraseRedirection (h : Inv s) (hnone : s.requested.get stream = none) :
    Inv (s.perform (.eraseRedirection stream)) := by
  rw [State.perform, exec_eraseRedirection]
  refine ⟨fun stream' => ?_, h.owned⟩
  by_cases hne : stream' = stream
  · subst hne
    rw [PerStream.get_set_self, ← hnone]
    exact h.redirected stream'
  · rw [PerStream.get_set_of_ne _ _ _ _ hne]
    exact h.redirected stream'

lemma destroy (h : Inv s) : Inv (s.perform .destroy) := by
  have hstreams : s.destroy.streams = ⟨none, none⟩ := by
    rw [State.destroy, exec_closeStream_state, exec_closeStream_state]
    simp only [State.streams_cleared]
    rfl
  refine ⟨fun stream => ?_, ?_⟩
  · refine (State.target_of_streams (s := s.destroy) hstreams).trans ?_
    cases stream <;> rfl
  · change s.destroy.table.Owns ([] ++ s.destroy.streams.held)
    rw [hstreams]
    exact h.owned.destroy

/-! ### The start of a child -/

/-- The ends of the pipe are held by the guards. -/
lemma pipe (h : Inv s) (hroom : s.roomForPipe) :
    ∃ readEnd writeEnd s', exec pipe s = (.ok (some (readEnd, writeEnd)), s') ∧
      s'.Owned [writeEnd, readEnd] ∧ s'.requested = s.requested ∧
      ∀ stream, s'.target stream = s.requested.get stream := by
  cases hfree : s.table.freeSlot with
  | none =>
    have hnone : exec (create .pipe) s = (.ok none, s) := exec_create_none hfree
    rw [State.roomForPipe, Redirection.pipe, exec_bind_ok (Throwing.exec_get s), exec_bind_ok hnone,
      exec_bind_ok hnone] at hroom
    cases hroom
  | some readEnd =>
    have hread : exec (create .pipe) s = (.ok (some readEnd), s.opened readEnd .pipe) :=
      exec_create_some hfree
    cases hfree' : (s.opened readEnd .pipe).table.freeSlot with
    | none =>
      rw [State.roomForPipe, Redirection.pipe, exec_bind_ok (Throwing.exec_get s), exec_bind_ok hread,
        exec_bind_ok (exec_create_none hfree')] at hroom
      cases hroom
    | some writeEnd =>
      have howned := h.owned.opened hfree .pipe
      refine ⟨readEnd, writeEnd, _, ?_, howned.opened hfree' .pipe, rfl, fun stream => ?_⟩
      · rw [Redirection.pipe, exec_bind_ok (Throwing.exec_get s), exec_bind_ok hread,
          exec_bind_ok (exec_create_some hfree')]
        rfl
      · rw [howned.target_opened hfree', h.owned.target_opened hfree, h.redirected]

/-- The parent closes the streams, and both guards their ends of the pipe. -/
lemma exec_start_parent {readEnd writeEnd : Nat} (howned : s'.Owned [writeEnd, readEnd])
    (hpipe : exec Redirection.pipe s = (.ok (some (readEnd, writeEnd)), s')) {launch : Launch}
    (hlaunch : launch ≠ .forkFails) :
    (exec (start false launch) s).2
      = (((s'.cleared .stdout).cleared .stderr).shut writeEnd).shut readEnd := by
  have hopen : ∀ {s : State} {stream fd}, s.Owned [writeEnd, readEnd] →
      s.streams.get stream = some fd → s.table.get fd ≠ none := by
    intro s stream fd howned hfd
    obtain ⟨d, hd⟩ := howned.isOpen hfd
    simp [hd]
  have hcleared := (howned.cleared .stdout).cleared .stderr
  obtain ⟨_, hwrite⟩ := Descriptors.Owns.isOpen hcleared writeEnd List.mem_cons_self
  obtain ⟨_, hread⟩ := Descriptors.Owns.isOpen hcleared.shut readEnd List.mem_cons_self
  have hclose : exec (do closeStream .stdout; closeStream .stderr) s'
      = (.ok (), (s'.cleared .stdout).cleared .stderr) := by
    rw [exec_bind_ok (exec_closeStream fun fd => hopen howned)]
    exact exec_closeStream fun fd => hopen (howned.cleared .stdout)
  have hguarded := exec_guarded writeEnd hclose (by simp [hwrite])
  cases launch with
  | forkFails => exact absurd rfl hlaunch
  | execFails pid =>
    rw [start, if_neg (by simp), exec_bind_ok hpipe]
    exact congrArg Prod.snd (exec_guarded readEnd
      ((exec_bind_ok hguarded).trans (Throwing.exec_throw _ _)) (by simp [hread]))
  | runs pid =>
    rw [start, if_neg (by simp), exec_bind_ok hpipe]
    exact congrArg Prod.snd (exec_guarded readEnd
      ((exec_bind_ok hguarded).trans (Throwing.exec_pure _ _)) (by simp [hread]))

lemma start_parent (h : Inv s) (hroom : s.roomForPipe) {launch : Launch}
    (hlaunch : launch ≠ .forkFails) : Inv (exec (start false launch) s).2.forget := by
  obtain ⟨readEnd, writeEnd, s', hpipe, howned, -, -⟩ := h.pipe hroom
  rw [exec_start_parent howned hpipe hlaunch]
  have hcleared := (howned.cleared .stdout).cleared .stderr
  have hstreams : ((s'.cleared .stdout).cleared .stderr).streams = ⟨none, none⟩ := by
    simp only [State.streams_cleared]
    rfl
  refine ⟨fun stream => (State.target_of_streams ?_).trans ?_, hcleared.shut.shut⟩
  · exact hstreams
  · cases stream <;> rfl

/-- If there is no child, the redirections stay. -/
lemma start_forkFails (h : Inv s) (hroom : s.roomForPipe) :
    Inv (exec (start false .forkFails) s).2 := by
  obtain ⟨readEnd, writeEnd, s', hpipe, howned, hrequested, htarget⟩ := h.pipe hroom
  obtain ⟨_, hwrite⟩ := Descriptors.Owns.isOpen howned writeEnd List.mem_cons_self
  obtain ⟨_, hread⟩ := Descriptors.Owns.isOpen howned.shut readEnd List.mem_cons_self
  have hguarded := exec_guarded writeEnd (Throwing.exec_throw Failure.unixError s')
    (by simp [hwrite])
  have hstart : exec (start false .forkFails) s
      = (.error .unixError, (s'.shut writeEnd).shut readEnd) := by
    rw [start, if_neg (by simp), exec_bind_ok hpipe]
    exact exec_guarded readEnd (exec_bind_error hguarded) (by simp [hread])
  rw [hstart]
  refine ⟨fun stream => ?_, howned.shut.shut⟩
  rw [howned.shut.target_shut, howned.target_shut, htarget]
  exact congrArg (PerStream.get · stream) hrequested.symm

lemma start (h : Inv s) (running : Bool) (launch : Launch)
    (hadmits : s.Admits (.start running launch)) : Inv (s.perform (.start running launch)) := by
  cases running with
  | true => exact h
  | false =>
    cases launch with
    | forkFails => exact h.start_forkFails hadmits
    | execFails pid => exact h.start_parent hadmits (by simp)
    | runs pid => exact h.start_parent hadmits (by simp)

/-! ### The user -/

lemma userOpen (h : Inv s) (n : Nat) : Inv (s.perform (.userOpen n)) := by
  rw [State.perform]
  cases hfree : s.table.freeSlot with
  | none => exact h
  | some fd =>
    refine ⟨fun stream => ?_, Descriptors.Owns.put h.owned hfree .user (.user n)⟩
    refine State.target_eq (h.redirected stream) rfl fun fd' hfd' => ?_
    have hne : fd' ≠ fd := by
      rintro rfl
      exact h.owned.stream_ne_free hfree hfd'
    rw [State.fileOf, Descriptors.get_put _ _ hfree, if_neg hne, State.fileOf]

lemma userClose (h : Inv s) (huser : s.table.ownerOf fd = some .user) :
    Inv (s.perform (.userClose fd)) := by
  refine ⟨fun stream => ?_, Descriptors.Owns.userClose h.owned huser⟩
  refine State.target_eq (h.redirected stream) rfl fun fd' hfd' => ?_
  obtain ⟨d, hd, -⟩ := Option.bind_eq_some_iff.mp huser
  have hmem : fd' ∈ [] ++ s.streams.held := PerStream.mem_held.mpr ⟨stream, hfd'⟩
  have hne : fd' ≠ fd := by
    rintro rfl
    rw [h.owned.mem_iff hd, huser] at hmem
    cases hmem
  change ((s.table.userClose fd).get fd').map _ = _
  rw [Descriptors.get_userClose hd, if_neg hne, State.fileOf]

/-- Every call that is admitted keeps the invariant. -/
lemma perform (h : Inv s) {a : Action} (hlegal : s.Legal a) (hadmits : s.Admits a) :
    Inv (s.perform a) := by
  cases a with
  | redirectToPath stream path allowed => exact h.redirectToPath stream path allowed
  | redirectToFile stream handle closeOnExit =>
    cases closeOnExit with
    | true =>
      obtain ⟨huser, hfree⟩ := hadmits
      obtain ⟨fd, hfree⟩ := Option.ne_none_iff_exists'.mp hfree
      exact h.redirectToFile_own stream huser hfree
    | false => exact h.redirectToFile_failed stream (hadmits.elim exec_dup_closed exec_dup_full)
  | redirectTo stream handle closeOnExit =>
    cases handle with
    | none => exact h.redirectTo_none stream closeOnExit
    | some fd =>
      cases closeOnExit with
      | true => exact h.redirectTo_own stream hadmits
      | false => exact h.redirectTo_dup stream fd
  | eraseRedirection stream => exact h.eraseRedirection hadmits
  | start running launch => exact h.start running launch hadmits
  | destroy => exact h.destroy
  | userOpen n => exact h.userOpen n
  | userClose fd => exact h.userClose hlegal

end Inv

/-! ### The other calls -/

section

variable {s : State} {stream stream' : Stream} {fd : Nat}

/-- A descriptor of the object that no stream has is never closed. -/
lemma not_sound_of_leaked (h : s.Owned [fd]) : ¬ Sound s := by
  intro hsound
  have howns := h.destroy
  obtain ⟨d, hd⟩ := howns.isOpen fd List.mem_cons_self
  have howner := (howns.held_iff fd d hd).mp List.mem_cons_self
  have hcount := hsound.once d.id (by rw [← Inv.owners_destroy, howner])
  rw [List.count_eq_zero.mpr (howns.unclosed fd d hd)] at hcount
  cases hcount

lemma mem_closes_cleared {x : Option Nat} (h : x ∈ s.table.closes) :
    x ∈ (s.cleared stream).table.closes := by
  rw [State.cleared]
  cases s.streams.get stream with
  | none => exact h
  | some fd =>
    change x ∈ (s.table.close fd).closes
    rw [Descriptors.closes_close]
    exact List.mem_append_left _ h

/-- The destructor fails to close a number that is not open. -/
lemma none_mem_closes_cleared (h : s.streams.get stream = some fd) (hnone : s.table.get fd = none) :
    none ∈ (s.cleared stream).table.closes := by
  rw [State.cleared, h]
  change none ∈ (s.table.close fd).closes
  rw [Descriptors.closes_close, hnone]
  simp

/-- A failed close is never made good. -/
lemma not_sound_of_failed (h : none ∈ s.table.closes) : ¬ Sound s := by
  intro hsound
  refine hsound.valid ?_
  rw [destroy_table]
  exact mem_closes_cleared (mem_closes_cleared h)

lemma not_sound_of_closed (h : s.streams.get stream = some fd) (hnone : s.table.get fd = none) :
    ¬ Sound s := by
  intro hsound
  refine hsound.valid ?_
  rw [destroy_table]
  cases stream with
  | stderr => exact mem_closes_cleared (none_mem_closes_cleared h hnone)
  | stdout =>
    have hstdout : (s.cleared .stderr).streams.get .stdout = some fd := by
      rw [State.streams_cleared, PerStream.get_set_of_ne _ _ _ _ (by simp), h]
    exact none_mem_closes_cleared hstdout (State.get_cleared_of_none hnone)

/-- A number that both streams have is closed twice. -/
lemma not_sound_of_shared (hne : stream' ≠ stream) (h : s.streams.get stream = some fd)
    (h' : s.streams.get stream' = some fd) : ¬ Sound s := by
  have hboth : s.streams.get .stdout = some fd ∧ s.streams.get .stderr = some fd := by
    cases stream <;> cases stream' <;> simp_all
  intro hsound
  refine hsound.valid ?_
  rw [destroy_table]
  have hstdout : (s.cleared .stderr).streams.get .stdout = some fd := by
    rw [State.streams_cleared, PerStream.get_set_of_ne _ _ _ _ (by simp), hboth.1]
  refine none_mem_closes_cleared hstdout ?_
  rw [State.cleared, hboth.2]
  exact (Descriptors.get_close s.table fd fd).trans (if_pos rfl)

lemma get_cleared_self (h : s.streams.get stream = some fd) :
    (s.cleared stream).table.get fd = none := by
  rw [State.cleared, h]
  exact (Descriptors.get_close s.table fd fd).trans (if_pos rfl)

/-- `erase_redirection` leaves the redirection. -/
lemma not_sound_eraseRedirection (h : Inv s) (hsome : s.requested.get stream ≠ none) :
    ¬ Sound (s.perform (.eraseRedirection stream)) := by
  intro hsound
  have hredirected := hsound.redirected stream
  rw [State.perform, exec_eraseRedirection, PerStream.get_set_self] at hredirected
  exact hsome ((h.redirected stream).symm.trans hredirected)

/-- The copy which the call makes of the descriptor of the `FILE*` is copied once more. -/
lemma not_sound_redirectToFile_copy (h : Inv s) {handle : Nat} (hget : s.table.get handle ≠ none)
    (hfree : s.table.freeSlot ≠ none) :
    ¬ Sound (s.perform (.redirectToFile stream handle false)) := by
  obtain ⟨d, hd⟩ := Option.ne_none_iff_exists'.mp hget
  obtain ⟨fd, hfree⟩ := Option.ne_none_iff_exists'.mp hfree
  have hfile : s.fileOf handle = some d.file := by rw [State.fileOf, hd]; rfl
  have howned := h.owned.opened hfree d.file
  have hdup := exec_dup_some hfile hfree
  rw [State.perform, State.give, if_neg (by simp)]
  cases hfree' : (s.opened fd d.file).table.freeSlot with
  | none =>
    have hcall : exec (redirectToFile stream handle false) s
        = (.error .unixError, s.opened fd d.file) := by
      rw [redirectToFile, exec_bind_ok hdup,
        exec_bind_error (exec_redirectTo_failed _ stream (exec_dup_full hfree'))]
    rw [request_of_error hcall]
    exact not_sound_of_leaked howned
  | some fd' =>
    have hfile' : (s.opened fd d.file).fileOf fd = some d.file := by
      rw [State.fileOf_opened hfree, if_pos rfl]
    have howned' := howned.opened hfree' d.file
    have hcall : exec (redirectToFile stream handle false) s = (.ok (),
        (((s.opened fd d.file).opened fd' d.file).cleared stream).point stream (some fd')) := by
      rw [redirectToFile, exec_bind_ok hdup, exec_bind_ok
        ((exec_redirectTo_dup (exec_dup_some hfile' hfree')).trans (exec_reset howned' (some fd')))]
      rfl
    rw [request_of_ok hcall]
    exact not_sound_of_leaked ((howned'.cleared stream).point (by simp))

/-- A `FILE*` that is passed with `auto_close` is closed, whatever its copy is. -/
lemma exec_redirectToFile_own {s' : State} {extra : List Nat} {handle : Nat} {copy : Option Nat}
    (hdup : exec (dup (some handle)) s = (.ok copy, s')) (h : s'.Owned extra) :
    exec (redirectToFile stream handle true) s
      = (.ok (), ((s'.cleared stream).point stream copy).shut handle) := by
  rw [redirectToFile, exec_bind_ok hdup, exec_redirectTo_own, exec_bind_ok (exec_reset h copy)]
  rfl

/-- If the `FILE*` cannot be duplicated, the stream loses its redirection. -/
lemma not_sound_redirectToFile_full (h : Inv s) {handle : Nat}
    (huser : s.table.ownerOf handle = some .user) (hfree : s.table.freeSlot = none) :
    ¬ Sound (s.perform (.redirectToFile stream handle true)) := by
  obtain ⟨howned, -, file, hfile⟩ := h.give huser
  have hfree' : (s.give handle true).table.freeSlot = none := by
    rw [State.give, if_pos rfl, Descriptors.freeSlot_handOver, hfree]
  intro hsound
  have hredirected := hsound.redirected stream
  rw [State.perform, hfile,
    request_of_ok (exec_redirectToFile_own (exec_dup_full hfree') howned)] at hredirected
  rw [PerStream.get_set_self] at hredirected
  change ((((s.give handle true).cleared stream).streams.set stream none).get stream).bind _ = _
    at hredirected
  rw [PerStream.get_set_self] at hredirected
  cases hredirected

/-- A close of what is not open fails, and what a stream has must not be closed. -/
lemma not_sound_shut (h : s.table.get fd = none ∨ ∃ stream, s.streams.get stream = some fd) :
    ¬ Sound (s.shut fd) := by
  by_cases hnone : s.table.get fd = none
  · refine not_sound_of_failed ?_
    change none ∈ (s.table.close fd).closes
    rw [Descriptors.closes_close, hnone]
    simp
  · obtain ⟨stream, hstream⟩ := h.resolve_left hnone
    exact not_sound_of_closed (s := s.shut fd) hstream
      ((Descriptors.get_close s.table fd fd).trans (if_pos rfl))

/-- The number of a stream that is redirected is closed, and that of another is kept. -/
lemma closed_or_held (h : s.table.get fd = none ∨ ∃ stream, s.streams.get stream = some fd)
    (stream : Stream) (fileno : Option Nat) :
    ((s.cleared stream).point stream fileno).table.get fd = none ∨
      ∃ stream' ≠ stream, ((s.cleared stream).point stream fileno).streams.get stream' = some fd := by
  rcases h with hnone | ⟨stream', hstream'⟩
  · exact Or.inl (State.get_cleared_of_none hnone)
  · by_cases hne : stream' = stream
    · subst hne
      exact Or.inl (get_cleared_self hstream')
    · refine Or.inr ⟨stream', hne, ?_⟩
      rw [State.point, PerStream.get_set_of_ne _ _ _ _ hne, State.streams_cleared,
        PerStream.get_set_of_ne _ _ _ _ hne, hstream']

/-- What is not the user's is closed already, or a stream has it. -/
lemma Inv.closed_or_held (h : Inv s) (huser : s.table.ownerOf fd ≠ some .user) :
    s.table.get fd = none ∨ ∃ stream, s.streams.get stream = some fd := by
  cases hd : s.table.get fd with
  | none => exact Or.inl rfl
  | some d =>
    have hmem := (h.owned.user_or_mem hd).resolve_left huser
    exact Or.inr (PerStream.mem_held.mp hmem)

lemma give_of_ne (huser : s.table.ownerOf fd ≠ some .user) : s.give fd true = s := by
  rw [State.give, if_pos rfl, Descriptors.handOver_of_ne huser]

/-- Only what is the user's can be passed with `auto_close`. -/
lemma not_sound_redirectTo_own (h : Inv s) (huser : s.table.ownerOf fd ≠ some .user) :
    ¬ Sound (s.perform (.redirectTo stream (some fd) true)) := by
  rw [State.perform, give_of_ne huser, exec_redirectTo_own,
    request_of_ok (exec_reset h.owned (some fd))]
  have hself : ((s.cleared stream).point stream (some fd)).streams.get stream = some fd := by
    rw [State.point, PerStream.get_set_self]
  rcases Redirection.closed_or_held (h.closed_or_held huser) stream (some fd) with
    hnone | ⟨stream', hne, hstream'⟩
  · exact not_sound_of_closed hself hnone
  · exact not_sound_of_shared hne hself hstream'

lemma not_sound_redirectToFile_own (h : Inv s) {handle : Nat}
    (huser : s.table.ownerOf handle ≠ some .user) :
    ¬ Sound (s.perform (.redirectToFile stream handle true)) := by
  rw [State.perform, give_of_ne huser]
  -- the copy leaves the number of the `FILE*` as it is
  obtain ⟨copy, s', extra, hdup, howned, hstreams, hget⟩ : ∃ copy s' extra,
      exec (dup (some handle)) s = (.ok copy, s') ∧ s'.Owned extra ∧ s'.streams = s.streams ∧
        (s.table.get handle = none → s'.table.get handle = none) := by
    cases hd : s.table.get handle with
    | none => exact ⟨none, s, [], exec_dup_closed hd, h.owned, rfl, fun _ => hd⟩
    | some d =>
      have hfile : s.fileOf handle = some d.file := by rw [State.fileOf, hd]; rfl
      cases hfree : s.table.freeSlot with
      | none => exact ⟨none, s, [], exec_dup_full hfree, h.owned, rfl, nofun⟩
      | some fd =>
        exact ⟨some fd, _, [fd], exec_dup_some hfile hfree, h.owned.opened hfree d.file, rfl,
          nofun⟩
  have hheld : s'.table.get handle = none ∨ ∃ stream, s'.streams.get stream = some handle := by
    rw [hstreams]
    exact (h.closed_or_held huser).imp_left hget
  rw [request_of_ok (exec_redirectToFile_own hdup howned)]
  refine not_sound_shut (s := { (s'.cleared stream).point stream copy with
    requested := ((s'.cleared stream).requested.set stream (s.fileOf handle)) }) ?_
  exact (Redirection.closed_or_held hheld stream copy).imp_right fun ⟨stream', _, h⟩ =>
    ⟨stream', h⟩

/-- An admitted call returns. -/
lemma step_of_admits {a : Action} (hadmits : s.Admits a) :
    machine.step s a = .ok (s.perform a) := by
  cases a with
  | start running launch =>
    cases running with
    | true => rfl
    | false => exact if_pos hadmits
  | _ => rfl

/-- A `start` that returns got its pipe. -/
lemma admits_start {s' : State} {launch : Launch}
    (h : machine.step s (.start false launch) = .ok s') : s.roomForPipe := by
  by_contra hroom
  have hfault : machine.step s (.start false launch) = .error .uninitialized := if_neg hroom
  rw [hfault] at h
  cases h

/-- Every call that is not admitted breaks the promise. -/
lemma not_sound_step (h : Inv s) {s' : State} {a : Action} (hadmits : ¬ s.Admits a)
    (hstep : machine.step s a = .ok s') : ¬ Sound s' := by
  cases a with
  | redirectToPath stream path allowed => exact absurd trivial hadmits
  | redirectToFile stream handle closeOnExit =>
    cases hstep
    cases closeOnExit with
    | true =>
      by_cases huser : s.table.ownerOf handle = some .user
      · by_cases hfree : s.table.freeSlot = none
        · exact not_sound_redirectToFile_full h huser hfree
        · exact absurd ⟨huser, hfree⟩ hadmits
      · exact not_sound_redirectToFile_own h huser
    | false =>
      obtain ⟨hget, hfree⟩ := not_or.mp hadmits
      exact not_sound_redirectToFile_copy h hget hfree
  | redirectTo stream handle closeOnExit =>
    cases hstep
    cases handle with
    | none => exact absurd trivial hadmits
    | some fd =>
      cases closeOnExit with
      | true => exact not_sound_redirectTo_own h hadmits
      | false => exact absurd trivial hadmits
  | eraseRedirection stream =>
    cases hstep
    exact not_sound_eraseRedirection h hadmits
  | start running launch =>
    cases running with
    | true => exact absurd trivial hadmits
    | false => exact absurd (admits_start hstep) hadmits
  | destroy => exact absurd trivial hadmits
  | userOpen n => exact absurd trivial hadmits
  | userClose fd => exact absurd trivial hadmits

end

/-! ### The runs -/

/-- In a run the redirections are what was requested, and every descriptor of the object is closed
exactly once, if and only if all its calls are admitted. -/
theorem sound_iff_admits (size : Nat) (as : List Action)
    (hlegal : machine.Legal (State.new (.empty size)) as) :
    machine.Holds Sound (State.new (.empty size)) as ↔
      machine.Meets State.Admits (State.new (.empty size)) as := by
  refine Machine.holds_iff_meets (I := Inv) (fun s h => h.sound) ?_ ?_ (Inv.new size) hlegal
  · intro s a h hlegal hadmits
    exact ⟨s.perform a, step_of_admits hadmits, h.perform hlegal hadmits⟩
  · intro s a s' h _ hadmits hstep
    exact not_sound_step h hadmits hstep

/-- A `FILE*` is given to the object, which opens a file for its other stream, and a child starts. -/
def startRun : List Action :=
  [.userOpen 1, .redirectToFile .stdout 0 true, .redirectToPath .stderr "log".toList true,
    .start false (.runs 7), .destroy]

lemma legal_startRun : machine.Legal (State.new (.empty 8)) startRun :=
  .cons trivial rfl (.cons rfl rfl (.cons rfl rfl
    (.cons rfl rfl (.cons rfl rfl trivial))))

lemma meets_startRun : machine.Meets State.Admits (State.new (.empty 8)) startRun :=
  .cons trivial rfl (.cons ⟨by decide, by decide⟩ rfl (.cons trivial rfl
    (.cons rfl rfl (.cons trivial rfl trivial))))

theorem sound_iff_admits_start : machine.Holds Sound (State.new (.empty 8)) startRun :=
  (sound_iff_admits 8 startRun legal_startRun).mpr meets_startRun

/-- A `FILE*` is passed without `auto_close`, and a redirection is erased. -/
theorem not_sound_copy_erase :
    (machine.Legal (State.new (.empty 8)) [.userOpen 1, .redirectToFile .stdout 0 false, .destroy] ∧
      ¬ machine.Holds Sound (State.new (.empty 8))
        [.userOpen 1, .redirectToFile .stdout 0 false, .destroy]) ∧
    machine.Legal (State.new (.empty 8))
      [.redirectToPath .stdout "log".toList true, .eraseRedirection .stdout] ∧
      ¬ machine.Holds Sound (State.new (.empty 8))
        [.redirectToPath .stdout "log".toList true, .eraseRedirection .stdout] := by
  refine ⟨⟨.cons trivial rfl (.cons rfl rfl (.cons rfl rfl trivial)), fun hholds => ?_⟩,
    .cons rfl rfl (.cons rfl rfl trivial), fun hholds => ?_⟩
  · -- the first copy is never closed
    have hcount := (hholds.result rfl).once 1 (by decide)
    revert hcount
    decide
  · have hredirected := (hholds.result rfl).redirected .stdout
    revert hredirected
    decide

end Utilmm.System.Redirection
