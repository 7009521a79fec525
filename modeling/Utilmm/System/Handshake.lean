import Utilmm.System.Process

/-!
# How `start` learns about a failure of the child

Parent and child of a `fork` share a pipe. The child writes two words to it if `chdir` or `execvp`
fails, and the write end closes when `execvp` succeeds or the child ends. The parent closes its own
write end and reads: at the end of the pipe the child runs, and otherwise the second word is the
error. A pipe keeps each word whole.
-/

namespace Utilmm.System.Handshake

/-- `CHDIR_ERROR`. -/
def chdirError : Int := 0

/-- `EXEC_ERROR`. -/
def execError : Int := 1

/-- Where the parent is, with the local variable `error_type` once its `read` has returned; `none`
for a variable which was not set. -/
inductive Parent
  /-- `write_guard.close()` -/
  | closing
  | readingType
  | readingError (errorType : Option Int)
  | returned
  | threw (error : Option Int)
  deriving DecidableEq, Repr

/-- Where the child is. -/
inductive Child
  /-- `output_file::redirect` -/
  | redirecting
  /-- `chdir` -/
  | entering
  /-- `execvp` -/
  | executing
  /-- `send_child_error`, with the words which it has still to write -/
  | reporting (words : List Int)
  /-- The new program. -/
  | running
  /-- A throw of `redirect` has left `start`, in a second copy of the program. -/
  | escaped
  | exited
  | killed
  deriving DecidableEq, Repr

structure State where
  parent : Parent
  child : Child
  pipe : List Int
  parentWrites : Bool
  childWrites : Bool
  /-- All words that the child has written. -/
  sent : List Int
  /-- The error of the system call which failed in the child. -/
  failed : Option Int
  deriving DecidableEq, Repr

/-- The next system call of the parent, which a signal may interrupt, or of the child, with its
error if it fails. -/
inductive Action
  | parent (interrupted : Bool)
  | child (error : Option Int)
  | kill
  deriving DecidableEq, Repr

namespace State

/-- Behind the `fork`. -/
def forked : State := ⟨.closing, .redirecting, [], true, true, [], none⟩

/-- There is nothing to read, and there will never be. -/
def atEnd (s : State) : Bool := s.pipe.isEmpty && !s.parentWrites && !s.childWrites

/-- What `read` returns: the word, if there is one. -/
def read (s : State) : Option Int × State := (s.pipe.head?, { s with pipe := s.pipe.tail })

def write (s : State) (word : Int) : State :=
  { s with pipe := s.pipe ++ [word], sent := s.sent ++ [word] }

/-- The parent's side of `process::start`, and `process::process_child_error`. The result of the
second `read` is not looked at, and of the first one only whether it is zero. -/
def parentStep (s : State) (interrupted : Bool) : State :=
  match s.parent with
  | .closing => { s with parent := .readingType, parentWrites := false }
  | .readingType =>
    if interrupted then { s with parent := .readingError none }
    else
      match s.read with
      | (none, s) => { s with parent := .returned }
      | (some word, s) => { s with parent := .readingError (some word) }
  | .readingError _ =>
    if interrupted then { s with parent := .threw none }
    else { s.read.2 with parent := .threw s.read.1 }
  | _ => s

/-- The child ends or starts the new program, and its write end closes. -/
def leave (s : State) (child : Child) : State := { s with child, childWrites := false }

/-- `process::send_child_error`, from its start. -/
def report (s : State) (errorType error : Int) : State :=
  { s with child := .reporting [errorType, error], failed := some error }

/-- The child's side of `process::start`, which has a working directory to go to or not. -/
def childStep (wdir : Bool) (s : State) (error : Option Int) : State :=
  match s.child, error with
  | .redirecting, none => { s with child := if wdir then .entering else .executing }
  | .redirecting, some _ => s.leave .escaped
  | .entering, none => { s with child := .executing }
  | .entering, some error => s.report chdirError error
  | .executing, none => s.leave .running
  | .executing, some error => s.report execError error
  | .reporting [], _ => s.leave .exited
  | .reporting (word :: words), _ => { s.write word with child := .reporting words }
  | _, _ => s

def step (wdir : Bool) (s : State) : Action → State
  | .parent interrupted => s.parentStep interrupted
  | .child error => s.childStep wdir error
  | .kill => s.leave .killed

/-- `read` blocks as long as there is nothing to read and a write end is open. -/
def canRead (s : State) : Bool := !s.pipe.isEmpty || s.atEnd

/-- The child still has a system call to make. -/
def childMoves (s : State) : Bool :=
  match s.child with
  | .redirecting | .entering | .executing | .reporting _ => true
  | _ => false

/-- The process is there. A child that has left `start` is nobody's business here. -/
def Legal (s : State) : Action → Prop
  | .parent interrupted =>
    match s.parent with
    | .closing => interrupted = false
    | .readingType | .readingError _ => interrupted || s.canRead
    | _ => False
  | .child _ => s.childMoves
  | .kill => s.childMoves || s.child = .running

end State

/-- The two sides of `process::start` behind the `fork`. -/
def machine (wdir : Bool) : Machine State Action Empty where
  legal := State.Legal
  step s a := .ok (s.step wdir a)

namespace State

variable {wdir : Bool} {s s' : State} {a : Action}

/-! ### What a step can do -/

inductive Moves (wdir : Bool) (s : State) : Action → State → Prop
  | closes (hparent : s.parent = .closing) :
    Moves wdir s (.parent false) { s with parent := .readingType, parentWrites := false }
  | missesType (hparent : s.parent = .readingType) :
    Moves wdir s (.parent true) { s with parent := .readingError none }
  | readsEnd (hparent : s.parent = .readingType) (hend : s.atEnd) :
    Moves wdir s (.parent false) { s with parent := .returned }
  | readsType {word : Int} {pipe : List Int} (hparent : s.parent = .readingType)
    (hpipe : s.pipe = word :: pipe) :
    Moves wdir s (.parent false) { s with parent := .readingError (some word), pipe }
  | missesError {errorType : Option Int} (hparent : s.parent = .readingError errorType) :
    Moves wdir s (.parent true) { s with parent := .threw none }
  | readsNoError {errorType : Option Int} (hparent : s.parent = .readingError errorType)
    (hend : s.atEnd) : Moves wdir s (.parent false) { s with parent := .threw none }
  | readsError {errorType : Option Int} {word : Int} {pipe : List Int}
    (hparent : s.parent = .readingError errorType) (hpipe : s.pipe = word :: pipe) :
    Moves wdir s (.parent false) { s with parent := .threw (some word), pipe }
  | redirects (hchild : s.child = .redirecting) :
    Moves wdir s (.child none) { s with child := if wdir then .entering else .executing }
  | escapes {error : Int} (hchild : s.child = .redirecting) :
    Moves wdir s (.child (some error)) (s.leave .escaped)
  | enters (hchild : s.child = .entering) :
    Moves wdir s (.child none) { s with child := .executing }
  | fails {errorType error : Int} (hchild : s.child = .entering ∨ s.child = .executing) :
    Moves wdir s (.child (some error)) (s.report errorType error)
  | executes (hchild : s.child = .executing) : Moves wdir s (.child none) (s.leave .running)
  | writes {error : Option Int} {word : Int} {words : List Int}
    (hchild : s.child = .reporting (word :: words)) :
    Moves wdir s (.child error) { s.write word with child := .reporting words }
  | exits {error : Option Int} (hchild : s.child = .reporting []) :
    Moves wdir s (.child error) (s.leave .exited)
  | dies (hchild : s.childMoves ∨ s.child = .running) : Moves wdir s .kill (s.leave .killed)

lemma moves_parent {interrupted : Bool} (h : s.Legal (.parent interrupted)) :
    Moves wdir s (.parent interrupted) (s.parentStep interrupted) := by
  cases hparent : s.parent with
  | closing =>
    simp only [Legal, hparent] at h
    subst h
    simpa only [parentStep, hparent] using Moves.closes hparent
  | readingType =>
    simp only [Legal, hparent, canRead] at h
    cases interrupted with
    | true => simpa [parentStep, hparent] using Moves.missesType hparent
    | false =>
      cases hpipe : s.pipe with
      | nil =>
        have hend : s.atEnd := by simpa [hpipe] using h
        simpa [parentStep, hparent, read, hpipe] using Moves.readsEnd hparent hend
      | cons word pipe =>
        simpa [parentStep, hparent, read, hpipe] using Moves.readsType hparent hpipe
  | readingError errorType =>
    simp only [Legal, hparent, canRead] at h
    cases interrupted with
    | true => simpa [parentStep, hparent] using Moves.missesError hparent
    | false =>
      cases hpipe : s.pipe with
      | nil =>
        have hend : s.atEnd := by simpa [hpipe] using h
        simpa [parentStep, hparent, read, hpipe] using Moves.readsNoError hparent hend
      | cons word pipe =>
        simpa [parentStep, hparent, read, hpipe] using Moves.readsError hparent hpipe
  | returned => simp [Legal, hparent] at h
  | threw error => simp [Legal, hparent] at h

lemma moves_child {error : Option Int} (h : s.childMoves) :
    Moves wdir s (.child error) (s.childStep wdir error) := by
  cases hchild : s.child with
  | redirecting =>
    cases error with
    | none => simpa only [childStep, hchild] using Moves.redirects hchild
    | some error => simpa only [childStep, hchild] using Moves.escapes hchild
  | entering =>
    cases error with
    | none => simpa only [childStep, hchild] using Moves.enters hchild
    | some error => simpa only [childStep, hchild] using Moves.fails (Or.inl hchild)
  | executing =>
    cases error with
    | none => simpa only [childStep, hchild] using Moves.executes hchild
    | some error => simpa only [childStep, hchild] using Moves.fails (Or.inr hchild)
  | reporting words =>
    cases words with
    | nil => simpa only [childStep, hchild] using Moves.exits hchild
    | cons word words => simpa only [childStep, hchild] using Moves.writes hchild
  | running => simp [childMoves, hchild] at h
  | escaped => simp [childMoves, hchild] at h
  | exited => simp [childMoves, hchild] at h
  | killed => simp [childMoves, hchild] at h

lemma moves_of_legal (h : s.Legal a) : Moves wdir s a (s.step wdir a) := by
  cases a with
  | parent interrupted => exact moves_parent h
  | child error => exact moves_child h
  | kill => exact .dies (by simpa [Legal] using h)

/-! ### Every run ends -/

/-- How many steps are left at most. -/
def left (s : State) : Nat :=
  (match s.parent with
    | .closing => 3
    | .readingType => 2
    | .readingError _ => 1
    | .returned | .threw _ => 0) +
  match s.child with
    | .redirecting => 7
    | .entering => 6
    | .executing => 5
    | .reporting words => words.length + 2
    | .running => 1
    | .escaped | .exited | .killed => 0

lemma Moves.left_lt (h : Moves wdir s a s') : s'.left < s.left := by
  cases h with
  | closes hparent => simp [left, hparent]
  | missesType hparent => simp [left, hparent]
  | readsEnd hparent hend => simp [left, hparent]
  | readsType hparent hpipe => simp [left, hparent]
  | missesError hparent => simp [left, hparent]
  | readsNoError hparent hend => simp [left, hparent]
  | readsError hparent hpipe => simp [left, hparent]
  | redirects hchild => cases wdir <;> simp [left, hchild]
  | escapes hchild => simp [left, leave, hchild]
  | enters hchild => simp [left, hchild]
  | fails hchild => rcases hchild with hchild | hchild <;> simp [left, report, hchild]
  | executes hchild => simp [left, leave, hchild]
  | writes hchild => simp [left, write, hchild]
  | exits hchild => simp [left, leave, hchild]
  | dies hchild =>
    cases hs : s.child <;> simp [left, leave, childMoves, hs] at hchild ⊢

/-! ### No run gets stuck -/

/-- The parent holds its write end until it closes it, and the child until it has left `start`. -/
structure Writes (s : State) : Prop where
  parent : s.parentWrites = decide (s.parent = .closing)
  child : s.childWrites = s.childMoves

lemma Writes.forked : forked.Writes := ⟨rfl, rfl⟩

lemma Writes.moves (h : s.Writes) (hmoves : Moves wdir s a s') : s'.Writes := by
  obtain ⟨hparent', hchild'⟩ := h
  cases hmoves with
  | closes hparent => exact ⟨rfl, hchild'⟩
  | missesType hparent => exact ⟨by simpa [hparent] using hparent', hchild'⟩
  | readsEnd hparent hend => exact ⟨by simpa [hparent] using hparent', hchild'⟩
  | readsType hparent hpipe => exact ⟨by simpa [hparent] using hparent', hchild'⟩
  | missesError hparent => exact ⟨by simpa [hparent] using hparent', hchild'⟩
  | readsNoError hparent hend => exact ⟨by simpa [hparent] using hparent', hchild'⟩
  | readsError hparent hpipe => exact ⟨by simpa [hparent] using hparent', hchild'⟩
  | redirects hchild =>
    refine ⟨hparent', ?_⟩
    cases wdir <;> simpa [childMoves, hchild] using hchild'
  | escapes hchild => exact ⟨hparent', rfl⟩
  | enters hchild => exact ⟨hparent', by simpa [childMoves, hchild] using hchild'⟩
  | fails hchild =>
    refine ⟨hparent', ?_⟩
    rcases hchild with hchild | hchild <;> simpa [childMoves, report, hchild] using hchild'
  | executes hchild => exact ⟨hparent', rfl⟩
  | writes hchild => exact ⟨hparent', by simpa [childMoves, write, hchild] using hchild'⟩
  | exits hchild => exact ⟨hparent', rfl⟩
  | dies hchild => exact ⟨hparent', rfl⟩

/-- The parent has left `start`. -/
def Left (s : State) : Prop := s.parent = .returned ∨ ∃ error, s.parent = .threw error

/-- When the child has no system call to make, there is something to read or an end. -/
lemma Writes.canRead (h : s.Writes) (hparent : s.parent ≠ .closing) (hchild : s.childMoves = false) :
    s.canRead := by
  cases hpipe : s.pipe <;> simp [State.canRead, atEnd, h.parent, h.child, hparent, hchild, hpipe]

/-- As long as the parent is in `start`, one of the two can go on by itself. -/
lemma Writes.progress (h : s.Writes) :
    s.Left ∨ ∃ a, a ≠ .kill ∧ a ≠ .parent true ∧ s.Legal a := by
  cases hchild : s.childMoves with
  | true => exact Or.inr ⟨.child none, by simp, by simp, hchild⟩
  | false =>
    cases hparent : s.parent with
    | closing => exact Or.inr ⟨.parent false, by simp, by simp, by simp [Legal, hparent]⟩
    | readingType =>
      have hread := h.canRead (by simp [hparent]) hchild
      exact Or.inr ⟨.parent false, by simp, by simp, by simp [Legal, hparent, hread]⟩
    | readingError errorType =>
      have hread := h.canRead (by simp [hparent]) hchild
      exact Or.inr ⟨.parent false, by simp, by simp, by simp [Legal, hparent, hread]⟩
    | returned => exact Or.inl (Or.inl hparent)
    | threw error => exact Or.inl (Or.inr ⟨error, hparent⟩)

/-! ### What the parent is told -/

/-- The words that the child has sent are the beginning of its report. -/
def ChildTold (s : State) : Prop :=
  match s.child with
  | .redirecting | .entering | .executing | .running | .escaped => s.sent = [] ∧ s.failed = none
  | .reporting words => ∃ errorType error, s.failed = some error ∧ s.sent ++ words = [errorType, error]
  | .exited => ∃ errorType error, s.failed = some error ∧ s.sent = [errorType, error]
  | .killed => s.sent = [] ∨ ∃ errorType error, s.failed = some error ∧ s.sent <+: [errorType, error]

/-- What the parent has read are the words that the child has sent, in a run in which no `read` is
interrupted. -/
def ParentTold (s : State) : Prop :=
  match s.parent with
  | .closing | .readingType => s.pipe = s.sent
  | .readingError none => False
  | .readingError (some errorType) => s.sent = errorType :: s.pipe
  | .returned => s.sent = [] ∧ s.childWrites = false
  | .threw none => s.sent.length = 1 ∧ s.childWrites = false
  | .threw (some error) => ∃ errorType, s.sent = [errorType, error]

lemma ChildTold.forked : forked.ChildTold := ⟨rfl, rfl⟩

lemma ChildTold.sent_begins (h : s.ChildTold) :
    s.sent = [] ∨ ∃ errorType error, s.failed = some error ∧ s.sent <+: [errorType, error] := by
  cases hchild : s.child <;> simp only [ChildTold, hchild] at h
  case reporting words =>
    obtain ⟨errorType, error, hfailed, hwords⟩ := h
    exact Or.inr ⟨errorType, error, hfailed, words, hwords⟩
  case exited =>
    obtain ⟨errorType, error, hfailed, hsent⟩ := h
    exact Or.inr ⟨errorType, error, hfailed, by rw [hsent]⟩
  case killed => exact h
  all_goals exact Or.inl h.1

/-- A child that makes no more system calls in `start` has nothing to report, has reported it, or
was killed. -/
lemma ChildTold.of_left (h : s.ChildTold) (hmoves : s.childMoves = false) :
    s.sent = [] ∧ (s.child = .running ∨ s.child = .escaped) ∨ s.sent.length = 2 ∨
      s.child = .killed := by
  cases hchild : s.child <;> simp only [ChildTold, childMoves, hchild] at h hmoves
  case running => exact Or.inl ⟨h.1, Or.inl rfl⟩
  case escaped => exact Or.inl ⟨h.1, Or.inr rfl⟩
  case exited =>
    obtain ⟨errorType, error, -, hsent⟩ := h
    exact Or.inr (Or.inl (by rw [hsent]; rfl))
  case killed => exact Or.inr (Or.inr rfl)
  all_goals cases hmoves

/-- A child that has written both words has nothing more to do but to exit. -/
lemma ChildTold.of_length (h : s.ChildTold) (hlength : s.sent.length = 2) :
    s.child = .reporting [] ∨ s.child = .exited ∨ s.child = .killed := by
  cases hchild : s.child <;> simp only [ChildTold, hchild] at h
  case reporting words =>
    obtain ⟨errorType, error, -, hwords⟩ := h
    have hsum := congrArg List.length hwords
    rw [List.length_append, hlength, List.length_cons, List.length_singleton] at hsum
    exact Or.inl (by rw [List.length_eq_zero_iff.mp (Nat.add_eq_left.mp hsum)])
  case exited => exact Or.inr (Or.inl rfl)
  case killed => exact Or.inr (Or.inr rfl)
  all_goals simp [h.1] at hlength

lemma ChildTold.moves (h : s.ChildTold) (hmoves : Moves wdir s a s') : s'.ChildTold := by
  cases hmoves with
  | closes hparent => exact h
  | missesType hparent => exact h
  | readsEnd hparent hend => exact h
  | readsType hparent hpipe => exact h
  | missesError hparent => exact h
  | readsNoError hparent hend => exact h
  | readsError hparent hpipe => exact h
  | redirects hchild =>
    simp only [ChildTold, hchild] at h
    cases wdir <;> exact h
  | escapes hchild =>
    simp only [ChildTold, hchild] at h
    exact h
  | enters hchild =>
    simp only [ChildTold, hchild] at h
    exact h
  | @fails errorType error hchild =>
    have hsent : s.sent = [] := by
      rcases hchild with hchild | hchild <;> simp only [ChildTold, hchild] at h <;> exact h.1
    exact ⟨errorType, error, rfl, by simp [report, hsent]⟩
  | executes hchild =>
    simp only [ChildTold, hchild] at h
    exact h
  | writes hchild =>
    simp only [ChildTold, hchild] at h
    simpa [ChildTold, write] using h
  | exits hchild =>
    simp only [ChildTold, hchild, List.append_nil] at h
    exact h
  | dies hchild => exact h.sent_begins

lemma ParentTold.forked : forked.ParentTold := rfl

/-- The parent does not see what the child does but for what it writes. -/
lemma ParentTold.of_silent (h : s.ParentTold) (hparent : s'.parent = s.parent)
    (hpipe : s'.pipe = s.pipe) (hsent : s'.sent = s.sent)
    (hchild : s.childWrites = false → s'.childWrites = false) : s'.ParentTold := by
  cases hs : s.parent with
  | readingError errorType =>
    cases errorType with
    | none => simp [ParentTold, hs] at h
    | some errorType => simpa [ParentTold, hparent, hpipe, hsent, hs] using h
  | returned =>
    simp only [ParentTold, hs] at h
    simp [ParentTold, hparent, hsent, hs, h.1, hchild h.2]
  | threw error =>
    cases error with
    | none =>
      simp only [ParentTold, hs] at h
      simp [ParentTold, hparent, hsent, hs, h.1, hchild h.2]
    | some error => simpa [ParentTold, hparent, hsent, hs] using h
  | closing => simpa [ParentTold, hparent, hpipe, hsent, hs] using h
  | readingType => simpa [ParentTold, hparent, hpipe, hsent, hs] using h

lemma ParentTold.moves (h : s.ParentTold) (hwrites : s.Writes) (htold : s.ChildTold)
    (hmoves : Moves wdir s a s') (hcalm : a ≠ .parent true) : s'.ParentTold := by
  cases hmoves with
  | closes hparent =>
    simp only [ParentTold, hparent] at h
    exact h
  | missesType hparent => exact absurd rfl hcalm
  | readsEnd hparent hend =>
    simp only [ParentTold, hparent] at h
    simp only [atEnd, Bool.and_eq_true, List.isEmpty_iff, Bool.not_eq_true'] at hend
    exact ⟨h ▸ hend.1.1, hend.2⟩
  | readsType hparent hpipe =>
    simp only [ParentTold, hparent, hpipe] at h
    exact h.symm
  | missesError hparent => exact absurd rfl hcalm
  | @readsNoError errorType hparent hend =>
    simp only [atEnd, Bool.and_eq_true, List.isEmpty_iff, Bool.not_eq_true'] at hend
    cases errorType with
    | none => simp [ParentTold, hparent] at h
    | some errorType =>
      simp only [ParentTold, hparent, hend.1.1] at h
      exact ⟨by rw [h]; rfl, hend.2⟩
  | @readsError errorType word pipe hparent hpipe =>
    cases errorType with
    | none => simp [ParentTold, hparent] at h
    | some errorType =>
      simp only [ParentTold, hparent, hpipe] at h
      -- a report has two words
      have hnil : pipe = [] := by
        rcases htold.sent_begins with hsent | ⟨t, e, -, hsent⟩
        · cases h.symm.trans hsent
        · have hlength := hsent.length_le
          rw [h] at hlength
          exact List.length_eq_zero_iff.mp (by simpa using hlength)
      exact ⟨errorType, by rw [h, hnil]⟩
  | redirects hchild => exact h.of_silent rfl rfl rfl id
  | escapes hchild => exact h.of_silent rfl rfl rfl fun _ => rfl
  | enters hchild => exact h.of_silent rfl rfl rfl id
  | fails hchild => exact h.of_silent rfl rfl rfl id
  | executes hchild => exact h.of_silent rfl rfl rfl fun _ => rfl
  | @writes error word words hchild =>
    have hopen : s.childWrites = true := by simp [hwrites.child, childMoves, hchild]
    cases hparent : s.parent with
    | closing => simp_all [ParentTold, write]
    | readingType => simp_all [ParentTold, write]
    | readingError errorType => cases errorType <;> simp_all [ParentTold, write]
    | returned => simp [ParentTold, hparent, hopen] at h
    | threw errorRead =>
      cases errorRead with
      | none => simp [ParentTold, hparent, hopen] at h
      | some errorRead =>
        simp only [ParentTold, hparent] at h
        obtain ⟨errorType, hsent⟩ := h
        simp [ChildTold, hchild, hsent] at htold
  | exits hchild => exact h.of_silent rfl rfl rfl fun _ => rfl
  | dies hchild => exact h.of_silent rfl rfl rfl fun _ => rfl

end State

/-! ### Runs -/

open State

variable {wdir : Bool} {as : List Action} {s : State}

lemma writes_of_run (hlegal : (machine wdir).Legal forked as)
    (hrun : as.foldlM (machine wdir).step forked = .ok s) : s.Writes := by
  refine hlegal.result (I := Writes) (C := fun _ => True) ?_ Writes.forked (by simp) hrun
  rintro s a s' h ha - hs'
  obtain rfl := Except.ok.inj hs'
  have hmoves : Moves wdir s a (s.step wdir a) := moves_of_legal ha
  exact h.moves hmoves

/-- Every run of the two sides has at most ten steps. As long as the parent is in `start`, one of the
two sides can go on by itself: its `read` does not block, or the child has a system call to make. -/
theorem start_ends (wdir : Bool) {as : List Action} {s : State}
    (hlegal : (machine wdir).Legal forked as)
    (hrun : as.foldlM (machine wdir).step forked = .ok s) :
    as.length ≤ 10 ∧ (s.Left ∨ ∃ a, a ≠ .kill ∧ a ≠ .parent true ∧ s.Legal a) := by
  refine ⟨?_, (writes_of_run hlegal hrun).progress⟩
  have hlength : as.length + s.left ≤ forked.left := by
    refine hlegal.length_le (fun s a s' ha hs' => ?_) hrun
    obtain rfl := Except.ok.inj hs'
    have hmoves : Moves wdir s a (s.step wdir a) := moves_of_legal ha
    exact hmoves.left_lt
  exact (Nat.le_add_right _ _).trans hlength

/-- The parent waits for the child, which has not come to `execvp`. -/
theorem start_ends_waiting :
    let s : State := ⟨.readingType, .executing, [], false, true, [], none⟩
    s.canRead = false ∧ [Action.parent false, .child none].length ≤ 10 ∧
      (s.Left ∨ ∃ a, a ≠ .kill ∧ a ≠ .parent true ∧ s.Legal a) :=
  ⟨rfl, start_ends false (.cons rfl rfl (.cons rfl rfl trivial)) rfl⟩

/-- What the two sides know of each other, in a run in which no `read` is interrupted. -/
structure State.Agree (s : State) : Prop where
  writes : s.Writes
  childTold : s.ChildTold
  parentTold : s.ParentTold

lemma agree_of_run (hlegal : (machine wdir).Legal forked as)
    (hrun : as.foldlM (machine wdir).step forked = .ok s) (hcalm : ∀ a ∈ as, a ≠ .parent true) :
    s.Agree := by
  refine hlegal.result (I := Agree) (C := fun a => a ≠ .parent true) ?_
    ⟨Writes.forked, ChildTold.forked, ParentTold.forked⟩ hcalm hrun
  rintro s a s' ⟨hwrites, hchild, hparent⟩ ha hcalm hs'
  obtain rfl := Except.ok.inj hs'
  have hmoves : Moves wdir s a (s.step wdir a) := moves_of_legal ha
  exact ⟨hwrites.moves hmoves, hchild.moves hmoves,
    hparent.moves hwrites hchild hmoves hcalm⟩

lemma not_killed_of_run (hlegal : (machine wdir).Legal forked as)
    (hrun : as.foldlM (machine wdir).step forked = .ok s) (hkill : ∀ a ∈ as, a ≠ .kill) :
    s.child ≠ .killed := by
  refine hlegal.result (I := fun s => s.child ≠ .killed) (C := (· ≠ .kill)) ?_ (by decide) hkill hrun
  rintro s a s' h ha hne hs'
  obtain rfl := Except.ok.inj hs'
  have hmoves : Moves wdir s a (s.step wdir a) := moves_of_legal ha
  generalize s.step wdir a = s' at hmoves
  cases hmoves with
  | dies hchild => exact absurd rfl hne
  | redirects hchild => cases wdir <;> simp
  | escapes hchild => simp [leave]
  | enters hchild => simp
  | fails hchild => simp [report]
  | executes hchild => simp [leave]
  | writes hchild => simp
  | exits hchild => simp [leave]
  | _ => exact h

/-- What the parent has learnt in `start`, and what has become of the child. -/
def State.Outcome (s : State) : Prop :=
  s.parent = .returned ∧ s.sent = [] ∧
      (s.child = .running ∨ s.child = .escaped ∨ s.child = .killed) ∨
    s.parent = .threw none ∧ s.sent.length = 1 ∧ s.child = .killed ∨
    ∃ errorType error, s.parent = .threw (some error) ∧ s.sent = [errorType, error] ∧
      s.failed = some error ∧ (s.child = .reporting [] ∨ s.child = .exited ∨ s.child = .killed)

/-- If no `read` is interrupted, the parent returns when the child has started the new program or
was lost before it wrote a word, and throws the error of the child when the child has written both
words. Only a child which was killed between the two words leaves it without an error to throw. -/
theorem start_outcome (wdir : Bool) {as : List Action} {s : State}
    (hlegal : (machine wdir).Legal forked as)
    (hrun : as.foldlM (machine wdir).step forked = .ok s) (hcalm : ∀ a ∈ as, a ≠ .parent true)
    (hleft : s.Left) :
    s.Outcome ∧ ((∀ a ∈ as, a ≠ .kill) → s.child ≠ .killed) := by
  refine ⟨?_, not_killed_of_run hlegal hrun⟩
  obtain ⟨hwrites, hchild, hparent⟩ := agree_of_run hlegal hrun hcalm
  rcases hleft with hs | ⟨error | error, hs⟩
  · simp only [ParentTold, hs] at hparent
    refine Or.inl ⟨hs, hparent.1, ?_⟩
    rcases hchild.of_left (hwrites.child ▸ hparent.2) with ⟨-, hc⟩ | hlength | hc
    · exact hc.imp_right Or.inl
    · simp [hparent.1] at hlength
    · exact Or.inr (Or.inr hc)
  · simp only [ParentTold, hs] at hparent
    refine Or.inr (Or.inl ⟨hs, hparent.1, ?_⟩)
    rcases hchild.of_left (hwrites.child ▸ hparent.2) with ⟨hsent, -⟩ | hlength | hc
    · simp [hsent] at hparent
    · rw [hparent.1] at hlength
      cases hlength
    · exact hc
  · simp only [ParentTold, hs] at hparent
    obtain ⟨errorType, hsent⟩ := hparent
    refine Or.inr (Or.inr ⟨errorType, error, hs, hsent, ?_, hchild.of_length (by rw [hsent]; rfl)⟩)
    rcases hchild.sent_begins with hnil | ⟨t, e, hfailed, hbegins⟩
    · cases hsent.symm.trans hnil
    · have heq := hbegins.eq_of_length (by rw [hsent]; rfl)
      rw [hsent] at heq
      cases heq
      exact hfailed

/-- The program is not found. -/
def notFound : List Action :=
  [.child none, .parent false, .child (some 2), .child none, .parent false, .child none,
    .parent false, .child none]

lemma legal_notFound : (machine false).Legal forked notFound :=
  .cons rfl rfl <| .cons rfl rfl <| .cons rfl rfl <| .cons rfl rfl <| .cons rfl rfl <|
    .cons rfl rfl <| .cons rfl rfl <| .cons rfl rfl trivial

theorem start_outcome_notFound :
    let s : State := ⟨.threw (some 2), .exited, [], false, false, [execError, 2], some 2⟩
    s.Outcome ∧ ((∀ a ∈ notFound, a ≠ .kill) → s.child ≠ .killed) :=
  start_outcome false legal_notFound rfl (by decide) (Or.inr ⟨some 2, rfl⟩)

/-- When a signal interrupts the first `read`, the parent throws although the program runs. -/
example : ([.parent false, .parent true, .child none, .child none, .parent false].foldlM
    (machine false).step forked).map (fun s => (s.parent, s.child)) =
      .ok (.threw none, .running) := by
  decide

end Utilmm.System.Handshake
