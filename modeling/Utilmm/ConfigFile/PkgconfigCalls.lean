import Utilmm.ConfigFile.Pkgconfig
import Utilmm.System.Ownership

/-!
# Calls of `pkg-config`

Every member of `pkgconfig` runs a process and reads what it prints through a pipe. The end to write
to goes to the process object, which closes it; the end to read from stays open.
-/

namespace Utilmm.Pkgconfig

open Utilmm.System
open Utilmm.System.Redirection (File State Sys Failure)
open Throwing (exec exec_bind_ok exec_bind_error)

inductive Thrown
  | unixError
  | pkgconfigError
  | notFound (file : Str)
  deriving DecidableEq, Repr

/-- What the system and the child answer to a call. -/
structure Answers where
  /-- `/dev/null` can be opened. -/
  devNull : Bool
  launch : Launch
  /-- What each `read` returns: a part of the output, or `none` for an error. The pipe is at its end
  behind the last one. -/
  reads : List (Option Str)
  waited : Waited
  deriving DecidableEq, Repr

/-- The loop that reads the output. -/
def readAll (output : Str) : List (Option Str) → Except Thrown Str
  | [] => .ok output
  | none :: _ => .error .unixError
  | some buffer :: reads => if buffer = [] then .ok output else readAll (output ++ buffer) reads

/-- `exit_normal` and `exit_status` behind `wait`, for an object that was constructed just now. -/
def status : Waited → Bool × Nat
  | .error | .nothing => (true, 0)
  | .reaped (.exited code) => (true, code)
  | .reaped .signaled => (false, 0)

/-- `run(process&)` behind `start`, where the command line starts with `prog`. -/
def finish (prog : Str) (answers : Answers) : Except Thrown Str := do
  let output ← readAll [] answers.reads
  let (normal, code) := status answers.waited
  if !normal then throw .pkgconfigError
  if code ≠ 0 then throw (.notFound prog)
  return output

/-- The end to write to is redirected, and the process started. -/
def launch (writeEnd : Nat) (answers : Answers) : Sys Unit := do
  Redirection.redirectTo .stdout (some writeEnd) true
  Redirection.redirectToPath .stderr "/dev/null".toList answers.devNull

/-- `run(process&)`. -/
def runProcess (prog : Str) (answers : Answers) (s : State) :
    Except Redirection.Fault (Except Thrown Str × State) :=
  match exec Redirection.pipe s with
  | (.ok (some (_, writeEnd)), s) =>
    match exec (launch writeEnd answers) s with
    | (.error _, s) => .ok (.error .unixError, s)
    | (.ok _, s) =>
      if !s.roomForPipe then .error .uninitialized
      else
        match exec (Redirection.start false answers.launch) s with
        | (.error _, s) => .ok (.error .unixError, s)
        | (.ok _, s) => .ok (finish prog answers, s)
  | (_, _) => .error .uninitialized

/-! ### The members -/

/-- The member functions, which differ in what they do with the output. -/
inductive Member
  /-- `pkgconfig::pkgconfig` of a package -/
  | construct (name : Str)
  | exists
  | get (defval : Str)
  /-- `run(argument)`, for `version`, `compiler` and `linker` -/
  | run
  deriving DecidableEq, Repr

inductive Value
  | object
  | flag (b : Bool)
  | text (s : Str)
  deriving DecidableEq, Repr

inductive CallFault
  | descriptors (fault : Redirection.Fault)
  | text (fault : Fault)
  deriving DecidableEq, Repr

/-- The end of `run(argument)`. -/
def stripOutput (output : Str) : Except Fault Str :=
  match findFirstNotOf output with
  | none => .ok []
  | some first =>
    match findLastNotOf output with
    | none => substrFrom output first
    | some last => substr output first (last - first + 1)

/-- `pkgconfig::exists`. -/
def existsOf : Except Thrown Str → Except Thrown Bool
  | .ok _ => .ok true
  | .error (.notFound _) => .ok false
  | .error e => .error e

/-- What a member makes of the outcome of `run(process&)`. -/
def Member.result (outcome : Except Thrown Str) : Member → Except Fault (Except Thrown Value)
  | .construct name => return do
    if !(← existsOf outcome) then throw (.notFound name)
    return .object
  | .exists => return (existsOf outcome).map .flag
  | .get defval =>
    match outcome with
    | .ok output => do return .ok (.text (← stripOutput output))
    | .error .pkgconfigError | .error (.notFound _) => return .ok (.text defval)
    | .error e => return .error e
  | .run =>
    match outcome with
    | .ok output => do return .ok (.text (← stripOutput output))
    | .error e => return .error e

structure Query where
  member : Member
  answers : Answers
  deriving DecidableEq, Repr

/-- A member function runs a process object of its own, which is destroyed at the end. -/
def call (query : Query) (table : Descriptors File) :
    Except CallFault (Except Thrown Value × Descriptors File) := do
  let (outcome, s) ←
    (runProcess "pkg-config".toList query.answers (.new table)).mapError .descriptors
  let value ← (query.member.result outcome).mapError .text
  return (value, s.destroy.table)

/-- Calls one after the other, with what they return or throw. -/
def calls (table : Descriptors File) :
    List Query → Except CallFault (List (Except Thrown Value) × Descriptors File)
  | [] => .ok ([], table)
  | query :: queries => do
    let (value, table) ← call query table
    let (values, table) ← calls table queries
    return (value :: values, table)

/-! ### What the caller should get -/

/-- What the child has printed, unless a `read` failed. -/
def printed (reads : List (Option Str)) : Option Str :=
  ((reads.takeWhile (· ≠ some [])).mapM id).map List.flatten

/-- The outcome of a run. -/
inductive Verdict
  | printed (output : Str)
  /-- The package or the variable is not known. -/
  | unknown
  | crashed
  | systemError
  deriving DecidableEq, Repr

def Answers.verdict (answers : Answers) : Verdict :=
  match answers.devNull, answers.launch, printed answers.reads, answers.waited with
  | true, .runs _, some _, .reaped .signaled => .crashed
  | true, .runs _, some _, .reaped (.exited (_ + 1)) => .unknown
  | true, .runs _, some output, _ => .printed output
  | _, _, _, _ => .systemError

/-- What a member should return or throw. -/
def Member.expected : Member → Verdict → Except Thrown Value
  | _, .systemError => .error .unixError
  | .construct _, .printed _ => .ok .object
  | .construct name, .unknown => .error (.notFound name)
  | .exists, .printed _ => .ok (.flag true)
  | .exists, .unknown => .ok (.flag false)
  | .get defval, .unknown | .get defval, .crashed => .ok (.text defval)
  | .get _, .printed output | .run, .printed output => .ok (.text (strip output))
  -- what is not found is the program
  | .run, .unknown => .error (.notFound "pkg-config".toList)
  | _, .crashed => .error .pkgconfigError

/-! ### Descriptors -/

section Descriptors

variable {s s' : State} {extra : List Nat} {stream : Redirection.Stream} {fd : Nat}

/-- How many numbers a stream has. -/
def count (s : State) (stream : Redirection.Stream) : Nat :=
  if (s.streams.get stream).isSome then 1 else 0

lemma free_opened (h : s.table.freeSlot = some fd) (file : File) :
    (s.opened fd file).table.free + 1 = s.table.free := Descriptors.free_put h .object file

lemma free_shut (h : s.Owned (fd :: extra)) : (s.shut fd).table.free = s.table.free + 1 := by
  obtain ⟨d, hd⟩ := Descriptors.Owns.isOpen h fd List.mem_cons_self
  exact Descriptors.free_close hd

lemma free_cleared (h : s.Owned extra) (stream : Redirection.Stream) :
    (s.cleared stream).table.free = s.table.free + count s stream := by
  rw [State.cleared, count]
  cases hfd : s.streams.get stream with
  | none => rfl
  | some fd =>
    obtain ⟨d, hd⟩ := h.isOpen hfd
    exact Descriptors.free_close hd

lemma count_eq (h : s'.streams = s.streams) : count s' stream = count s stream := by
  rw [count, count, h]

lemma exists_freeSlot (h : 0 < s.table.free) : ∃ fd, s.table.freeSlot = some fd := by
  refine Option.ne_none_iff_exists'.mp fun hnone => ?_
  rw [Descriptors.freeSlot_eq_none_iff] at hnone
  omega

/-- Two descriptors are needed for a pipe. -/
lemma exec_pipe (h : s.Owned extra) (hroom : 2 ≤ s.table.free) :
    ∃ readEnd writeEnd s', exec Redirection.pipe s = (.ok (some (readEnd, writeEnd)), s') ∧
      s'.Owned (writeEnd :: readEnd :: extra) ∧ s'.streams = s.streams ∧
      s'.table.free + 2 = s.table.free := by
  obtain ⟨readEnd, hread⟩ := exists_freeSlot (s := s) (by omega)
  have howned := h.opened hread .pipe
  have hfree := free_opened hread .pipe
  obtain ⟨writeEnd, hwrite⟩ := exists_freeSlot (s := s.opened readEnd .pipe) (by omega)
  refine ⟨readEnd, writeEnd, (s.opened readEnd .pipe).opened writeEnd .pipe, ?_,
    howned.opened hwrite .pipe, rfl, ?_⟩
  · rw [Redirection.pipe, exec_bind_ok (Throwing.exec_get s),
      exec_bind_ok (Redirection.exec_create_some hread),
      exec_bind_ok (Redirection.exec_create_some hwrite)]
    rfl
  · have hfree' := free_opened hwrite .pipe
    omega

lemma exec_pipe_none (hroom : s.table.free < 2) : exec Redirection.pipe s = (.ok none, s) := by
  cases hread : s.table.freeSlot with
  | none =>
    rw [Redirection.pipe, exec_bind_ok (Throwing.exec_get s),
      exec_bind_ok (Redirection.exec_create_none hread),
      exec_bind_ok (Redirection.exec_create_none hread)]
    rfl
  | some readEnd =>
    have hfree := free_opened hread .pipe
    have hwrite : (s.opened readEnd .pipe).table.freeSlot = none :=
      Descriptors.freeSlot_eq_none_iff.mpr (by omega)
    rw [Redirection.pipe, exec_bind_ok (Throwing.exec_get s),
      exec_bind_ok (Redirection.exec_create_some hread),
      exec_bind_ok (Redirection.exec_create_none hwrite)]
    rfl

lemma roomForPipe_iff (h : s.Owned extra) : s.roomForPipe = true ↔ 2 ≤ s.table.free := by
  rw [State.roomForPipe]
  rcases Nat.lt_or_ge s.table.free 2 with hlt | hge
  · rw [exec_pipe_none hlt]
    simp [Nat.not_le.mpr hlt]
  · obtain ⟨readEnd, writeEnd, s', hpipe, -⟩ := exec_pipe h hge
    rw [hpipe]
    simp [hge]

/-- How many numbers are free when the object is gone. -/
def room (s : State) : Nat := s.table.free + count s .stdout + count s .stderr

/-- The streams are not redirected. -/
def Plain (s : State) : Prop := ∀ stream, s.streams.get stream = none

lemma room_of_plain (h : Plain s) : room s = s.table.free := by
  have hcount : ∀ stream, count s stream = 0 := fun stream => by simp [count, h stream]
  simp only [room, hcount, Nat.add_zero]

lemma destroyed (h : s.Owned extra) :
    s.destroy.table.Owns extra ∧ s.destroy.table.free = room s := by
  refine ⟨h.destroy, ?_⟩
  have hcount : count (s.cleared .stderr) .stdout = count s .stdout := by
    rw [count, count, State.streams_cleared, Redirection.PerStream.get_set_of_ne _ _ _ _ (by simp)]
  rw [Redirection.destroy_table, free_cleared (h.cleared .stderr), free_cleared h, hcount, room]
  omega

/-- A stream which is not redirected takes a number over. -/
lemma exec_take (h : s.Owned (fd :: extra)) (hnone : s.streams.get stream = none) :
    ∃ s', exec (Redirection.reset stream (some fd)) s = (.ok (), s') ∧ s'.Owned extra ∧
      s'.streams = s.streams.set stream (some fd) ∧ s'.table = s.table ∧
      room s' = room s + 1 := by
  have hcleared : s.cleared stream = s := by rw [State.cleared, hnone]
  refine ⟨s.point stream (some fd), ?_, h.point hnone, rfl, rfl, ?_⟩
  · rw [Redirection.exec_reset h, hcleared]
  · cases stream with
    | stdout =>
      have hcount : count s .stdout = 0 := by simp [count, hnone]
      rw [room, room, hcount]
      exact Nat.add_right_comm _ 1 _
    | stderr =>
      have hcount : count s .stderr = 0 := by simp [count, hnone]
      rw [room, room, hcount]
      rfl

/-- What `start` does to the descriptors, and whether it throws. -/
lemma exec_start (h : s.Owned extra) (hroom : 2 ≤ s.table.free) (launch : Launch) :
    ∃ outcome s', exec (Redirection.start false launch) s = (outcome, s') ∧ s'.Owned extra ∧
      room s' = room s ∧ (outcome = .ok () ↔ ∃ pid, launch = .runs pid) := by
  obtain ⟨readEnd, writeEnd, s₁, hpipe, howned, hstreams, hfree⟩ := exec_pipe h hroom
  have hopen : ∀ {s : State} {stream fd}, s.Owned (writeEnd :: readEnd :: extra) →
      s.streams.get stream = some fd → s.table.get fd ≠ none := by
    intro s stream fd howned hfd
    obtain ⟨d, hd⟩ := howned.isOpen hfd
    simp [hd]
  have hroom₁ : room s₁ + 2 = room s := by
    rw [room, room, count_eq hstreams, count_eq hstreams]
    omega
  -- the ends of the pipe are closed in any case
  have hshut : ∀ {s' : State} {statements : Sys Unit} {outcome : Except Failure Unit},
      s'.Owned (writeEnd :: readEnd :: extra) → exec statements s₁ = (outcome, s') →
      exec (Redirection.guarded writeEnd statements) s₁ = (outcome, s'.shut writeEnd) ∧
        ((s'.shut writeEnd).shut readEnd).Owned extra ∧
        room ((s'.shut writeEnd).shut readEnd) = room s' + 2 ∧
        (s'.shut writeEnd).table.get readEnd ≠ none := by
    intro s' statements outcome howned' hstatements
    obtain ⟨_, hwrite⟩ := Descriptors.Owns.isOpen howned' writeEnd List.mem_cons_self
    obtain ⟨_, hread⟩ := Descriptors.Owns.isOpen howned'.shut readEnd List.mem_cons_self
    refine ⟨Redirection.exec_guarded writeEnd hstatements (by simp [hwrite]), howned'.shut.shut, ?_,
      by simp [hread]⟩
    have hfree₁ := free_shut howned'
    have hfree₂ := free_shut howned'.shut
    have hcount : ∀ stream, count ((s'.shut writeEnd).shut readEnd) stream = count s' stream :=
      fun _ => count_eq rfl
    simp only [room, hcount]
    omega
  have hclose : exec (do Redirection.closeStream .stdout; Redirection.closeStream .stderr) s₁
      = (.ok (), (s₁.cleared .stdout).cleared .stderr) := by
    rw [exec_bind_ok (Redirection.exec_closeStream fun fd => hopen howned)]
    exact Redirection.exec_closeStream fun fd => hopen (howned.cleared .stdout)
  have hcleared := (howned.cleared .stdout).cleared .stderr
  have hroom₂ : room ((s₁.cleared .stdout).cleared .stderr) = room s₁ := by
    have hplain : Plain ((s₁.cleared .stdout).cleared .stderr) := fun stream => by
      rw [State.streams_cleared, State.streams_cleared]
      cases stream <;> rfl
    have hcount : count (s₁.cleared .stdout) .stderr = count s₁ .stderr := by
      rw [count, count, State.streams_cleared,
        Redirection.PerStream.get_set_of_ne _ _ _ _ (by simp)]
    rw [room_of_plain hplain, free_cleared (howned.cleared .stdout), free_cleared howned, hcount,
      room]
  cases launch with
  | forkFails =>
    obtain ⟨hguarded, howned', hroom', hread⟩ :=
      hshut howned (Throwing.exec_throw Failure.unixError s₁)
    refine ⟨.error .unixError, _, ?_, howned', by omega, by simp⟩
    rw [Redirection.start, if_neg (by simp), exec_bind_ok hpipe]
    exact Redirection.exec_guarded readEnd (exec_bind_error hguarded) hread
  | execFails pid =>
    obtain ⟨hguarded, howned', hroom', hread⟩ := hshut hcleared hclose
    refine ⟨.error .unixError, _, ?_, howned', by omega, by simp⟩
    rw [Redirection.start, if_neg (by simp), exec_bind_ok hpipe]
    exact Redirection.exec_guarded readEnd
      ((exec_bind_ok hguarded).trans (Throwing.exec_throw _ _)) hread
  | runs pid =>
    obtain ⟨hguarded, howned', hroom', hread⟩ := hshut hcleared hclose
    refine ⟨.ok (), _, ?_, howned', by omega, by simp⟩
    rw [Redirection.start, if_neg (by simp), exec_bind_ok hpipe]
    exact Redirection.exec_guarded readEnd
      ((exec_bind_ok hguarded).trans (Throwing.exec_pure _ _)) hread

end Descriptors

/-! ### Outcomes -/

lemma stripOutput_eq (output : Str) : stripOutput output = .ok (strip output) := by
  by_cases h : ∃ c ∈ output, isStripped c = false
  · obtain ⟨first, last, hfirst, hlast, hout⟩ := exists_find_ends h
    simp only [stripOutput, hfirst, hlast, hout]
  · simp only [not_exists, not_and, Bool.not_eq_false] at h
    have hfirst : findFirstNotOf output = none := by
      rw [findFirstNotOf, List.findIdx?_eq_none_iff]
      simpa using h
    have hstrip : strip output = [] := by
      rw [strip, List.dropWhile_eq_nil_iff.mpr h]
      rfl
    simp only [stripOutput, hfirst, hstrip]

/-- The parts in which the output comes do not matter. -/
lemma readAll_eq (output : Str) (reads : List (Option Str)) : readAll output reads =
    match printed reads with
    | none => .error .unixError
    | some text => .ok (output ++ text) := by
  induction reads generalizing output with
  | nil => simp [readAll, printed]
  | cons buffer reads ih =>
    cases buffer with
    | none => rfl
    | some buffer =>
      by_cases hbuffer : buffer = []
      · subst hbuffer
        simp [readAll, printed]
      · have hprinted : printed (some buffer :: reads) = (printed reads).map (buffer ++ ·) := by
          rw [printed, printed, List.takeWhile_cons_of_pos (by simpa using hbuffer), List.mapM_cons]
          cases (reads.takeWhile (· ≠ some [])).mapM id <;> rfl
        rw [readAll, if_neg hbuffer, ih, hprinted]
        cases printed reads with
        | none => rfl
        | some text => simp

/-- What `run(process&)` returns or throws. -/
def Verdict.outcome (prog : Str) : Verdict → Except Thrown Str
  | .printed output => .ok output
  | .unknown => .error (.notFound prog)
  | .crashed => .error .pkgconfigError
  | .systemError => .error .unixError

lemma finish_eq {answers : Answers} (prog : Str) (hdevNull : answers.devNull = true)
    (hlaunch : ∃ pid, answers.launch = .runs pid) :
    finish prog answers = answers.verdict.outcome prog := by
  obtain ⟨devNull, launch, reads, waited⟩ := answers
  obtain ⟨pid, rfl⟩ := hlaunch
  obtain rfl : devNull = true := hdevNull
  simp only [finish, readAll_eq, Answers.verdict, List.nil_append]
  cases printed reads with
  | none => rfl
  | some output =>
    rcases waited with _ | _ | ((_ | code) | _) <;> rfl

lemma verdict_of_failed {answers : Answers}
    (h : answers.devNull = false ∨ ¬ ∃ pid, answers.launch = .runs pid) :
    answers.verdict = .systemError := by
  obtain ⟨devNull, launch, reads, waited⟩ := answers
  rcases h with rfl | h
  · rfl
  · cases launch with
    | runs pid => exact absurd ⟨pid, rfl⟩ h
    | forkFails => cases devNull <;> rfl
    | execFails pid => cases devNull <;> rfl

lemma result_outcome (member : Member) (verdict : Verdict) :
    member.result (verdict.outcome "pkg-config".toList) = .ok (member.expected verdict) := by
  cases verdict with
  | printed output =>
    cases member <;> simp [Member.result, Verdict.outcome, Member.expected, existsOf, stripOutput_eq,
      Except.map] <;> rfl
  | unknown => cases member <;> rfl
  | crashed => cases member <;> rfl
  | systemError => cases member <;> rfl

/-! ### One call -/

section Call

variable {t : Descriptors File} {held : List Nat}

lemma owned_new (h : t.Owns held) : (State.new t).Owned held := by
  rw [State.Owned]
  simpa [State.new, Redirection.PerStream.held] using h

lemma plain_new (t : Descriptors File) : Plain (State.new t) := fun stream => by
  cases stream <;> rfl

/-- The streams of the process object are redirected, if there is a number left for `/dev/null`. -/
lemma exec_launch {s : State} {readEnd writeEnd : Nat} {extra : List Nat} (answers : Answers)
    (howned : s.Owned (writeEnd :: readEnd :: extra)) (hplain : Plain s) :
    ∃ outcome s', exec (launch writeEnd answers) s = (outcome, s') ∧
      s'.Owned (readEnd :: extra) ∧ room s' = room s + 1 ∧
      (answers.devNull = false → outcome ≠ .ok ()) ∧
      (answers.devNull = true → 0 < s.table.free →
        outcome = .ok () ∧ s'.table.free + 1 = s.table.free) := by
  obtain ⟨s₁, hstdout, howned₁, hstreams₁, htable₁, hroom₁⟩ :=
    exec_take howned (hplain .stdout)
  have hstderr : s₁.streams.get .stderr = none := by
    rw [hstreams₁, Redirection.PerStream.get_set_of_ne _ _ _ _ (by simp)]
    exact hplain .stderr
  have hlaunch : exec (launch writeEnd answers) s =
      exec (Redirection.redirectToPath .stderr "/dev/null".toList answers.devNull) s₁ := by
    rw [launch, Redirection.exec_redirectTo_own, exec_bind_ok hstdout]
  have hfailed (h : exec (Redirection.openFile "/dev/null".toList answers.devNull) s₁ =
      (.ok none, s₁)) : exec (launch writeEnd answers) s = (.error .unixError, s₁) := by
    rw [hlaunch, Redirection.exec_redirectToPath_failed h]
  cases hdevNull : answers.devNull with
  | false =>
    refine ⟨_, s₁, hfailed ?_, howned₁, hroom₁, by simp, by simp⟩
    rw [hdevNull]
    rfl
  | true =>
    have hopen : Redirection.openFile "/dev/null".toList answers.devNull =
        Redirection.create (.path "/dev/null".toList) := by
      rw [hdevNull]
      rfl
    cases hfree : s₁.table.freeSlot with
    | none =>
      have hzero := Descriptors.freeSlot_eq_none_iff.mp hfree
      refine ⟨_, s₁, hfailed ?_, howned₁, hroom₁, by simp, fun _ hpos => ?_⟩
      · rw [hopen, Redirection.exec_create_none hfree]
      · rw [← htable₁] at hpos
        omega
    | some fd =>
      have hfree₁ := free_opened hfree (.path "/dev/null".toList)
      obtain ⟨s₂, htake, howned₂, -, htable₂, hroom₂⟩ := exec_take
        (howned₁.opened hfree (.path "/dev/null".toList)) hstderr
      refine ⟨.ok (), s₂, ?_, howned₂, ?_, by simp, fun _ _ => ⟨rfl, ?_⟩⟩
      · rw [hlaunch, Redirection.exec_redirectToPath_open (by
          rw [hopen, Redirection.exec_create_some hfree]), htake]
      · have hopened : room (s₁.opened fd (.path "/dev/null".toList)) + 1 = room s₁ := by
          have hcount : ∀ stream, count (s₁.opened fd (.path "/dev/null".toList)) stream =
              count s₁ stream := fun stream => count_eq rfl
          rw [room, room, hcount, hcount]
          omega
        omega
      · rw [htable₂, ← htable₁]
        exact hfree₁

/-- With five numbers the process gives what it should, and the end to read from stays open. -/
lemma runProcess_eq (prog : Str) (answers : Answers) (h : t.Owns held) (hfree : 5 ≤ t.free) :
    ∃ readEnd s, runProcess prog answers (.new t) = .ok (answers.verdict.outcome prog, s) ∧
      s.Owned (readEnd :: held) ∧ room s + 1 = t.free := by
  have hnew : (State.new t).table.free = t.free := rfl
  obtain ⟨readEnd, writeEnd, s₁, hpipe, howned₁, hstreams₁, hfree₁⟩ :=
    exec_pipe (owned_new h) (by omega)
  have hplain₁ : Plain s₁ := fun stream => by
    rw [hstreams₁]
    exact plain_new t stream
  have hroom₁ := room_of_plain hplain₁
  obtain ⟨outcome₂, s₂, hlaunch, howned₂, hroom₂, hfailed, hok⟩ :=
    exec_launch answers howned₁ hplain₁
  cases hdevNull : answers.devNull with
  | false =>
    refine ⟨readEnd, s₂, ?_, howned₂, by omega⟩
    rw [verdict_of_failed (.inl hdevNull)]
    cases outcome₂ with
    | ok _ => exact absurd rfl (hfailed hdevNull)
    | error e => simp only [runProcess, hpipe, hlaunch, Verdict.outcome]
  | true =>
    obtain ⟨rfl, hfree₂⟩ := hok hdevNull (by omega)
    have hpipeRoom := (roomForPipe_iff howned₂).mpr (by omega)
    obtain ⟨outcome₃, s₃, hstart, howned₃, hroom₃, hruns⟩ :=
      exec_start howned₂ (by omega) answers.launch
    refine ⟨readEnd, s₃, ?_, howned₃, by omega⟩
    simp only [runProcess, hpipe, hlaunch, hpipeRoom, hstart]
    cases outcome₃ with
    | ok _ =>
      have hfinish := finish_eq prog hdevNull (hruns.mp rfl)
      exact congrArg (fun outcome => Except.ok (outcome, s₃)) hfinish
    | error e =>
      have hnot : ¬ ∃ pid, answers.launch = .runs pid := fun hpid => by
        cases hruns.mpr hpid
      rw [verdict_of_failed (.inr hnot)]
      rfl

/-- With four numbers there is none for the pipe of `start`. -/
lemma runProcess_error (prog : Str) {answers : Answers} (h : t.Owns held) (hfree : t.free = 4)
    (hdevNull : answers.devNull = true) :
    runProcess prog answers (.new t) = .error .uninitialized := by
  have hnew : (State.new t).table.free = t.free := rfl
  obtain ⟨readEnd, writeEnd, s₁, hpipe, howned₁, hstreams₁, hfree₁⟩ :=
    exec_pipe (owned_new h) (by omega)
  have hplain₁ : Plain s₁ := fun stream => by
    rw [hstreams₁]
    exact plain_new t stream
  obtain ⟨outcome₂, s₂, hlaunch, howned₂, -, -, hok⟩ := exec_launch answers howned₁ hplain₁
  obtain ⟨rfl, hfree₂⟩ := hok hdevNull (by omega)
  have hpipeRoom : s₂.roomForPipe = false := by
    rw [Bool.eq_false_iff, ne_eq, roomForPipe_iff howned₂]
    omega
  simp only [runProcess, hpipe, hlaunch, hpipeRoom]
  rfl

/-- A call gives what it should, and one number less is free behind it. -/
lemma call_eq (query : Query) (h : t.Owns held) (hfree : 5 ≤ t.free) :
    ∃ readEnd t', call query t = .ok (query.member.expected query.answers.verdict, t') ∧
      t'.Owns (readEnd :: held) ∧ t'.free + 1 = t.free := by
  obtain ⟨readEnd, s, hrun, howned, hroom⟩ :=
    runProcess_eq "pkg-config".toList query.answers h hfree
  obtain ⟨howns, hfree'⟩ := destroyed howned
  refine ⟨readEnd, s.destroy.table, ?_, howns, by omega⟩
  simp only [call, hrun, Except.mapError, Except.ok_bind, result_outcome]
  rfl

lemma call_error {query : Query} (h : t.Owns held) (hfree : t.free = 4)
    (hdevNull : query.answers.devNull = true) :
    call query t = .error (.descriptors .uninitialized) := by
  simp only [call, runProcess_error _ h hfree hdevNull, Except.mapError]
  rfl

end Call

/-- As long as there are five free numbers, every call of a member returns or throws what the run of
`pkg-config` asks for, whatever the parts in which its output comes; but each leaves
a descriptor open, so that all calls work if and only if there are four free numbers more than calls,
where `/dev/null` can be opened. -/
theorem calls_leak (queries : List Query) {t : Descriptors File} {held : List Nat}
    (h : t.Owns held) (hfree : 4 ≤ t.free) :
    (queries.length + 4 ≤ t.free → ∃ leaked t',
      calls t queries = .ok (queries.map fun q => q.member.expected q.answers.verdict, t') ∧
        t'.Owns (leaked ++ held) ∧ leaked.length = queries.length) ∧
      (t.free < queries.length + 4 → (∀ q ∈ queries, q.answers.devNull = true) →
        calls t queries = .error (.descriptors .uninitialized)) := by
  induction queries generalizing t held with
  | nil =>
    refine ⟨fun _ => ⟨[], t, rfl, h, rfl⟩, fun hlt => absurd hlt ?_⟩
    exact Nat.not_lt.mpr (by simpa using hfree)
  | cons query queries ih =>
    rw [List.length_cons, List.forall_mem_cons]
    rcases Nat.lt_or_ge t.free 5 with hlt | hge
    · refine ⟨fun hle => absurd hle (by omega), fun _ hdevNull => ?_⟩
      rw [calls, call_error h (by omega) hdevNull.1]
      rfl
    · obtain ⟨readEnd, t₁, hcall, howns₁, hfree₁⟩ := call_eq query h hge
      obtain ⟨hall, hfault⟩ := ih howns₁ (by omega)
      refine ⟨fun hle => ?_, fun hlt hdevNull => ?_⟩
      · obtain ⟨leaked, t', hcalls, howns', hlength⟩ := hall (by omega)
        refine ⟨leaked ++ [readEnd], t', ?_, ?_, by simp [hlength]⟩
        · rw [calls, hcall, Except.ok_bind]
          simp only [hcalls]
          rfl
        · rwa [List.append_assoc]
      · rw [calls, hcall, Except.ok_bind]
        simp only [hfault (by omega) hdevNull.2]
        rfl

/-- A package with version `1.2`, whose output comes in two parts. -/
def version : Query := ⟨.run, ⟨true, .runs 7, [some "1.".toList, some "2\n".toList], .reaped (.exited 0)⟩⟩

/-- In a table of six numbers two calls work. -/
theorem calls_leak_version : ∃ leaked t',
    calls (.empty 6) [version, version] =
        .ok ([.ok (.text "1.2".toList), .ok (.text "1.2".toList)], t') ∧
      t'.Owns (leaked ++ []) ∧ leaked.length = 2 :=
  (calls_leak [version, version] (.empty 6) (by decide)).1 (by decide)

end Utilmm.Pkgconfig
