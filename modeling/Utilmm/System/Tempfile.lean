import Utilmm.System.AutoClose
import Utilmm.System.UnixError

/-!
# Temporary files

A `tempfile` has a stream and, if it was made from a base name, the path of a file which it removes
when it is destroyed. The system chooses the six last characters of the name, and each of its calls
may fail.
-/

namespace Utilmm.System

structure Tempfile where
  /-- `m_path`. -/
  path : Str
  /-- `m_guard`. -/
  guard : AutoClose
  deriving DecidableEq

namespace Tempfile

inductive Fault
  | buffer (fault : CString.Fault)
  | file (fault : FileFault)

/-- The exceptions of the functions here. -/
inductive Thrown
  | unixError
  | badCast
  deriving DecidableEq, Repr

/-- What `tempfile::mkstemp` passes to `::mkstemp`, as a C string. -/
def template (base : Str) : Except CString.Fault Str := do
  let value := Vector.replicate (base.length + 6 + 1) nul
  let value ← CString.strncpy nul value base base.length
  let value ← CString.write value base.length (List.replicate 6 'X')
  let value ← CString.store value (base.length + 6) nul
  return CString.text nul value.toList

/-- The answer of the system to `::mkstemp`: six characters and a descriptor. -/
abbrev Answer : Type := Option (Str × Int)

/-- `::mkstemp`, which gives a name and a descriptor. -/
def systemMkstemp (template : Str) (answer : Answer) : Option (Str × Int) :=
  if List.replicate 6 'X' <:+ template then
    answer.map fun (suffix, fd) => (template.take (template.length - 6) ++ suffix, fd)
  else none

/-- `tempfile::handle`. -/
def handle (t : Tempfile) : Except Thrown Nat :=
  if t.path = [] then .ok 0
  else
    match t.guard.handleFile with
    | none => .error .badCast
    | some file => .ok file

/-- Temporary files with their users, and what they leave behind. -/
structure State where
  /-- The files on the disk. -/
  disk : Str → Bool
  /-- What is open. -/
  alive : Handle → Bool
  /-- The objects, `none` once one is destroyed. -/
  files : List (Option Tempfile)
  /-- What `detach` has returned, until the user closes it. -/
  user : List Handle
  /-- The files which were detached. -/
  kept : List Str
  /-- What stays open with nobody to close it. -/
  lost : List Handle
  /-- The files which stay on the disk with nobody to remove them. -/
  left : List Str

def State.new : State := ⟨fun _ => false, fun _ => false, [], [], [], [], []⟩

inductive Op
  /-- `tempfile(basename)`, with the stream of `fdopen` if there is one -/
  | named (base : Str) (answer : Answer) (stream : Option Nat)
  /-- `tempfile()`, with the stream of `tmpfile` if there is one -/
  | anonymous (stream : Option Nat)
  | detach (i : Nat)
  /-- `~tempfile` -/
  | destroy (i : Nat) (closeFails removeFails : Bool)
  /-- A user closes what `detach` has returned. -/
  | userClose (handle : Handle)
  deriving DecidableEq

namespace State

def file (s : State) (i : Nat) : Option Tempfile := s.files[i]?.join

/-- `fdopen`: the stream has the descriptor. -/
def fdopen (s : State) (fd : Int) : Option Nat → State
  | none => { s with lost := .fileno fd :: s.lost }
  | some file => { s with
      alive := Function.update (Function.update s.alive (.fileno fd) false) (.stream file) true }

/-- `tempfile::mkstemp`, without a result if it throws. The stream may be null. -/
def mkstemp (s : State) (base : Str) (answer : Answer) (stream : Option Nat) :
    Except Fault (Option (Str × Nat) × State) := do
  let template ← (template base).mapError .buffer
  match systemMkstemp template answer with
  | none => return (none, s)
  | some (path, fd) =>
    let s := { s with
      disk := Function.update s.disk path true
      alive := Function.update s.alive (.fileno fd) true }
    return (some (path, stream.getD 0), s.fdopen fd stream)

/-- `tempfile::tempfile(base)`. If it throws, the members are destroyed and the file stays. -/
def construct (s : State) (t : Tempfile) : Except Fault State :=
  match t.handle with
  | .ok (_ + 1) => .ok { s with files := s.files ++ [some t] }
  | .ok 0 | .error _ => do
    let (_, alive, _) ← (t.guard.close s.alive false).mapError .file
    return { s with alive, left := t.path :: s.left }

/-- `tempfile::detach`. The result is null if there is no path. -/
def detach (s : State) (i : Nat) (t : Tempfile) : State :=
  match t.handle with
  | .error _ => s
  | .ok h =>
    { s with
      files := s.files.set i (some ⟨[], t.guard.detach⟩)
      user := (if h = 0 then [] else [.stream h]) ++ s.user
      lost := (if h = 0 then t.guard.target.toList else []) ++ s.lost
      kept := (if t.path = [] then [] else [t.path]) ++ s.kept }

/-- The body of `tempfile::~tempfile`. -/
def destroyPath (s : State) (t : Tempfile) (closeFails removeFails : Bool) :
    Except Fault (AutoClose × State) :=
  if t.path = [] then .ok (t.guard, s)
  else do
    let (guard, alive, thrown) ← (t.guard.close s.alive closeFails).mapError .file
    let s := { s with alive }
    if thrown || removeFails then return (guard, { s with left := t.path :: s.left })
    else return (guard, { s with disk := Function.update s.disk t.path false })

def exec (s : State) : Op → Except Fault State
  | .named base answer stream => do
    let (made, s) ← s.mkstemp base answer stream
    match made with
    | none => return s
    | some (path, stream) => s.construct ⟨path, .ofHandle (.stream stream)⟩
  | .anonymous none => .ok s
  | .anonymous (some stream) =>
    .ok { s with
      alive := Function.update s.alive (.stream stream) true
      files := s.files ++ [some ⟨[], .ofHandle (.stream stream)⟩] }
  | .detach i =>
    match s.file i with
    | none => .ok s
    | some t => .ok (s.detach i t)
  | .destroy i closeFails removeFails =>
    match s.file i with
    | none => .ok s
    | some t => do
      let (guard, s) ← s.destroyPath t closeFails removeFails
      -- the destructor of the guard comes last
      let (_, alive, _) ← (guard.close s.alive closeFails).mapError .file
      return { s with alive, files := s.files.set i none }
  | .userClose handle => do
    let alive ← (shut s.alive handle).mapError .file
    return { s with alive, user := s.user.erase handle }

/-- What the system makes is new, and the users close what `detach` has returned to them. -/
def Legal (s : State) : Op → Prop
  | .named base answer stream =>
    (∀ suffix fd, answer = some (suffix, fd) → suffix.length = 6) ∧
      (∀ value path fd, template base = .ok value → systemMkstemp value answer = some (path, fd) →
        s.disk path = false ∧ s.alive (.fileno fd) = false) ∧
      ∀ file, stream = some file → file ≠ 0 ∧ s.alive (.stream file) = false
  | .anonymous stream => ∀ file, stream = some file → file ≠ 0 ∧ s.alive (.stream file) = false
  | .detach i | .destroy i _ _ => (s.file i).isSome
  | .userClose handle => handle ∈ s.user

end State

def machine : Machine State Op Fault where
  legal := State.Legal
  step := State.exec

/-! ### Names -/

/-- The system gets the base name with six characters behind it, or the part of the base name before a
zero. -/
lemma template_eq (base : Str) : template base =
    .ok (if nul ∈ base then CString.text nul base else base ++ List.replicate 6 'X') := by
  let copied := (CString.text nul base).take base.length ++
    List.replicate (base.length - (CString.text nul base).length) nul
  have hle : (CString.text nul base).length ≤ base.length := (List.takeWhile_prefix _).length_le
  have hcopied : copied.length = base.length := by
    simp only [copied, List.length_append, List.length_take, List.length_replicate]
    omega
  obtain ⟨v₁, hv₁, hlist₁⟩ := CString.write_of_le (s := copied) (i := 0)
    (v := Vector.replicate (base.length + 6 + 1) nul) (by omega)
  obtain ⟨v₂, hv₂, hlist₂⟩ := CString.write_of_le (s := List.replicate 6 'X') (i := base.length)
    (v := v₁) (by simp)
  obtain ⟨v₃, hv₃, hlist₃⟩ := CString.store_of_lt (v := v₂) (i := base.length + 6)
    (Nat.lt_succ_self _) nul
  have hvalue : v₃.toList = copied ++ (List.replicate 6 'X' ++ [nul]) := by
    rw [List.take_zero, List.nil_append, Nat.zero_add, hcopied, Vector.toList_replicate,
      List.drop_replicate] at hlist₁
    have hdrop : v₁.toList.drop (base.length + 6) = [nul] := by
      have hzeros : base.length + 6 + 1 - base.length = 6 + 1 := by omega
      rw [hlist₁, hzeros, ← List.drop_drop, List.drop_left' hcopied]
      rfl
    rw [hlist₁, List.take_left' hcopied, List.length_replicate, ← hlist₁, hdrop] at hlist₂
    rw [hlist₃, hlist₂, ← List.append_assoc, List.set_append_right _ _ (by simp [hcopied])]
    simp [hcopied]
  have htext : template base = .ok (CString.text nul v₃.toList) := by
    simp only [template, CString.strncpy, hv₁, hv₂, hv₃, copied, Except.ok_bind]
    rfl
  rw [htext, hvalue]
  split_ifs with hnul
  · obtain ⟨k, hk⟩ : ∃ k, base.length - (CString.text nul base).length = k + 1 := by
      refine ⟨base.length - (CString.text nul base).length - 1, ?_⟩
      have hne : (CString.text nul base).length ≠ base.length := fun heq => by
        have hself : CString.text nul base = base :=
          (List.takeWhile_prefix _).eq_of_length heq
        rw [← hself] at hnul
        exact CString.nul_notMem_text hnul
      omega
    simp only [copied, hk, List.replicate_succ, List.take_of_length_le hle, List.append_assoc,
      List.cons_append]
    rw [CString.text_append_nul CString.nul_notMem_text]
  · have hself : copied = base := by
      simp [copied, CString.text_eq_self hnul]
    rw [hself, ← List.append_assoc, CString.text_append_nul]
    simp only [List.mem_append, not_or]
    exact ⟨hnul, by decide⟩

lemma systemMkstemp_ne_nil {value path : Str} {answer : Answer} {fd : Int}
    (hsuffix : ∀ suffix fd, answer = some (suffix, fd) → suffix.length = 6)
    (h : systemMkstemp value answer = some (path, fd)) : path ≠ [] := by
  rw [systemMkstemp] at h
  split_ifs at h
  obtain ⟨⟨suffix, fd'⟩, hanswer, hpath⟩ := Option.map_eq_some_iff.mp h
  have hlength := hsuffix suffix fd' hanswer
  rintro rfl
  have hempty := (List.append_eq_nil_iff.mp (Prod.mk.inj hpath).1).2
  simp [hempty] at hlength

/-! ### Sound states -/

open Ledger

/-- The stream of an object. -/
def target (t : Tempfile) : Option Handle := t.guard.target

/-- The file that an object has to remove. -/
def owned (t : Tempfile) : Option Str := if t.path = [] then none else some t.path

/-- An object with a path has a stream, and none has a descriptor. -/
structure Good (t : Tempfile) : Prop where
  fileno : t.guard.fileno = -1
  stream : t.path ≠ [] → t.guard.stream ≠ 0

/-- `handle` does not throw, and is null without a path. -/
lemma Good.handle_eq {t : Tempfile} (h : t.Good) :
    t.path = [] ∧ t.handle = .ok 0 ∨ t.path ≠ [] ∧ t.guard.stream ≠ 0 ∧
      t.handle = .ok t.guard.stream ∧ t.target = some (.stream t.guard.stream) := by
  by_cases hpath : t.path = []
  · exact .inl ⟨hpath, if_pos hpath⟩
  · have hstream := h.stream hpath
    exact .inr ⟨hpath, hstream, by simp [handle, hpath, AutoClose.handleFile, hstream],
      by simp [target, AutoClose.target, hstream]⟩

namespace State

/-- What somebody has to close. -/
def handles (s : State) : Multiset Handle :=
  s.user + (s.files.filterMap (·.bind target) + s.lost)

/-- The files which somebody has to remove. -/
def paths (s : State) : Multiset Str := s.kept + (s.files.filterMap (·.bind owned) + s.left)

structure Sound (s : State) : Prop where
  handles : Balanced (single s.alive) s.handles
  paths : Balanced (single s.disk) s.paths
  files : ∀ t, some t ∈ s.files → t.Good

/-- The file is made in such a way that somebody removes it. -/
def Removes (s : State) : Op → Prop
  | .named base answer stream => stream = none →
    ∀ value, template base = .ok value → systemMkstemp value answer = none
  | .destroy i closeFails removeFails =>
    ∀ t, s.file i = some t → t.path ≠ [] → closeFails = false ∧ removeFails = false
  | _ => True

/-- No descriptor and no stream is forgotten. -/
def Spares (s : State) : Op → Prop
  | .named base answer stream => stream = none →
    ∀ value, template base = .ok value → systemMkstemp value answer = none
  | .detach i => ∀ t, s.file i = some t → t.path = [] → t.guard.stream = 0
  | _ => True

/-- What a step should do with what it leaves behind. -/
def Leaves (s : State) (op : Op) (s' : State) : Prop :=
  (s'.left = [] ↔ s.left = [] ∧ s.Removes op) ∧ (s'.lost = [] ↔ s.lost = [] ∧ s.Spares op)

namespace Sound

variable {s : State} {i : Nat} {t : Tempfile}

lemma new : Sound .new where
  handles := Balanced.empty
  paths := Balanced.empty
  files := by simp [State.new]

lemma getElem?_of_file (hi : s.file i = some t) : s.files[i]? = some (some t) :=
  Option.join_eq_some_iff.mp hi

lemma good (h : s.Sound) (hi : s.file i = some t) : t.Good :=
  h.files t (List.mem_of_getElem? (getElem?_of_file hi))

/-- What the other objects have. -/
def otherHandles (s : State) (i : Nat) : Multiset Handle :=
  (s.files.eraseIdx i).filterMap (·.bind target)

def otherPaths (s : State) (i : Nat) : Multiset Str :=
  (s.files.eraseIdx i).filterMap (·.bind owned)

lemma handles_eq (hi : s.file i = some t) : s.handles =
    (t.target.toList : Multiset Handle) + (s.user + (otherHandles s i + s.lost)) := by
  rw [State.handles, filterMap_eq (getElem?_of_file hi), otherHandles, Option.bind_some]
  abel

lemma paths_eq (hi : s.file i = some t) : s.paths =
    (t.owned.toList : Multiset Str) + (s.kept + (otherPaths s i + s.left)) := by
  rw [State.paths, filterMap_eq (getElem?_of_file hi), otherPaths, Option.bind_some]
  abel

/-- Object `i` and the rest have something else. -/
lemma update (h : s.Sound) (hi : s.file i = some t) {b : Option Tempfile} {s' : State}
    (hb : ∀ t, b = some t → t.Good) (hfiles : s'.files = s.files.set i b)
    (hhandles : Balanced (single s'.alive) (((b.bind target).toList : Multiset Handle) +
      (s'.user + (otherHandles s i + s'.lost))))
    (hpaths : Balanced (single s'.disk) (((b.bind owned).toList : Multiset Str) +
      (s'.kept + (otherPaths s i + s'.left)))) : s'.Sound := by
  have hlt := (List.getElem?_eq_some_iff.mp (getElem?_of_file hi)).1
  refine ⟨?_, ?_, fun t hmem => ?_⟩
  · rw [State.handles, hfiles, filterMap_set hlt, add_assoc, add_left_comm]
    exact hhandles
  · rw [State.paths, hfiles, filterMap_set hlt, add_assoc, add_left_comm]
    exact hpaths
  · rw [hfiles] at hmem
    exact (List.mem_or_eq_of_mem_set hmem).elim (h.files t) fun heq => hb t heq.symm

/-- A new object. -/
lemma append (h : s.Sound) (ht : t.Good) {s' : State} (hfiles : s'.files = s.files ++ [some t])
    (hhandles : Balanced (single s'.alive) ((t.target.toList : Multiset Handle) + s.handles))
    (hpaths : Balanced (single s'.disk) ((t.owned.toList : Multiset Str) + s.paths))
    (huser : s'.user = s.user) (hkept : s'.kept = s.kept) (hlost : s'.lost = s.lost)
    (hleft : s'.left = s.left) : s'.Sound := by
  have htarget : [some t].filterMap (·.bind target) = t.target.toList := by
    cases htarget : t.target <;> simp [htarget]
  have howned : [some t].filterMap (·.bind owned) = t.owned.toList := by
    cases howned : t.owned <;> simp [howned]
  refine ⟨?_, ?_, fun t' hmem => ?_⟩
  · have hsame : s'.handles = (t.target.toList : Multiset Handle) + s.handles := by
      simp only [State.handles, hfiles, huser, hlost, List.filterMap_append, htarget,
        ← Multiset.coe_add]
      abel
    exact hsame ▸ hhandles
  · have hsame : s'.paths = (t.owned.toList : Multiset Str) + s.paths := by
      simp only [State.paths, hfiles, hkept, hleft, List.filterMap_append, howned,
        ← Multiset.coe_add]
      abel
    exact hsame ▸ hpaths
  · rw [hfiles] at hmem
    refine (List.mem_append.mp hmem).elim (h.files t') fun hmem => ?_
    cases List.mem_singleton.mp hmem
    exact ht

/-- A stream without a path. -/
lemma anonymous (h : s.Sound) {stream : Nat} (hstream : stream ≠ 0)
    (hfresh : s.alive (.stream stream) = false) : Sound { s with
      alive := Function.update s.alive (.stream stream) true
      files := s.files ++ [some ⟨[], .ofHandle (.stream stream)⟩] } := by
  have htarget : target ⟨[], .ofHandle (.stream stream)⟩ = some (.stream stream) := by
    simp [target, AutoClose.target_ofHandle, Handle.Valid, hstream]
  refine h.append (t := ⟨[], .ofHandle (.stream stream)⟩) ⟨rfl, fun hpath => absurd rfl hpath⟩ rfl
    ?_ (by simpa [owned] using h.paths) rfl rfl rfl rfl
  rw [htarget, Option.toList_some, Multiset.coe_singleton, Multiset.singleton_add]
  exact h.handles.create hfresh

/-- The system has made a file but no stream: both the file and its descriptor stay. -/
lemma unnamed (h : s.Sound) {path : Str} {fd : Int} (hdisk : s.disk path = false)
    (hfd : s.alive (.fileno fd) = false) : Sound { s with
      disk := Function.update s.disk path true
      alive := Function.update s.alive (.fileno fd) true
      lost := .fileno fd :: s.lost
      left := path :: s.left } where
  handles := by
    have hmore : Handle.fileno fd ::ₘ s.handles =
        State.handles { s with lost := .fileno fd :: s.lost } := by
      simp only [State.handles, ← Multiset.cons_coe, Multiset.add_cons]
    exact hmore ▸ h.handles.create hfd
  paths := by
    have hmore : path ::ₘ s.paths = State.paths { s with left := path :: s.left } := by
      simp only [State.paths, ← Multiset.cons_coe, Multiset.add_cons]
    exact hmore ▸ h.paths.create hdisk
  files := h.files

/-- A file with a path and a stream. -/
lemma made (h : s.Sound) {path : Str} {fd : Int} {stream : Nat} (hpath : path ≠ [])
    (hdisk : s.disk path = false) (hfd : s.alive (.fileno fd) = false) (hstream : stream ≠ 0)
    (hfresh : s.alive (.stream stream) = false) : Sound { s with
      disk := Function.update s.disk path true
      alive := Function.update (Function.update (Function.update s.alive (.fileno fd) true)
        (.fileno fd) false) (.stream stream) true
      files := s.files ++ [some ⟨path, .ofHandle (.stream stream)⟩] } := by
  have htarget : target ⟨path, .ofHandle (.stream stream)⟩ = some (.stream stream) := by
    simp [target, AutoClose.target_ofHandle, Handle.Valid, hstream]
  have howned : owned ⟨path, .ofHandle (.stream stream)⟩ = some path := if_neg hpath
  have hsame : Function.update (Function.update s.alive (.fileno fd) true) (.fileno fd) false =
      s.alive := by
    rw [Function.update_idem, ← hfd, Function.update_eq_self]
  rw [hsame]
  refine h.append (t := ⟨path, .ofHandle (.stream stream)⟩) ⟨rfl, fun _ => hstream⟩ rfl ?_ ?_
    rfl rfl rfl rfl
  · rw [htarget, Option.toList_some, Multiset.coe_singleton, Multiset.singleton_add]
    exact h.handles.create hfresh
  · rw [howned, Option.toList_some, Multiset.coe_singleton, Multiset.singleton_add]
    exact h.paths.create hdisk

lemma named (h : s.Sound) {base : Str} {answer : Answer} {stream : Option Nat}
    (hlegal : s.Legal (.named base answer stream)) :
    ∃ s', s.exec (.named base answer stream) = .ok s' ∧ s'.Sound ∧
      s.Leaves (.named base answer stream) s' := by
  obtain ⟨hsuffix, hfresh, hstream⟩ := hlegal
  obtain ⟨value, hvalue⟩ : ∃ value, template base = .ok value := ⟨_, template_eq base⟩
  cases hmade : systemMkstemp value answer with
  | none =>
    have hnone : ∀ value', template base = .ok value' → systemMkstemp value' answer = none := by
      intro value' hvalue'
      rw [← Except.ok.inj (hvalue.symm.trans hvalue')]
      exact hmade
    refine ⟨s, ?_, h, (and_iff_left fun _ => hnone).symm, (and_iff_left fun _ => hnone).symm⟩
    simp [State.exec, mkstemp, hvalue, hmade, Except.mapError, Except.ok_bind]
    rfl
  | some made =>
    obtain ⟨path, fd⟩ := made
    have hpath := systemMkstemp_ne_nil hsuffix hmade
    obtain ⟨hdisk, hfd⟩ := hfresh value path fd hvalue hmade
    cases stream with
    | none =>
      have hnot : ¬ ∀ value', template base = .ok value' →
          systemMkstemp value' answer = none := fun hnone => by
        rw [hnone value hvalue] at hmade
        cases hmade
      refine ⟨_, ?_, h.unnamed hdisk hfd, ?_, ?_⟩
      · simp [State.exec, mkstemp, hvalue, hmade, Except.mapError, Except.ok_bind, construct, fdopen,
          handle, hpath, AutoClose.handleFile, AutoClose.ofHandle, AutoClose.close, AutoClose.target]
      · simp [Removes, hnot]
      · simp [Spares, hnot]
    | some stream =>
      obtain ⟨hstream, hfile⟩ := hstream stream rfl
      obtain ⟨k, rfl⟩ := Nat.exists_eq_succ_of_ne_zero hstream
      refine ⟨_, ?_, h.made hpath hdisk hfd hstream hfile, ?_, ?_⟩
      · simp [State.exec, mkstemp, hvalue, hmade, Except.mapError, Except.ok_bind, construct, fdopen,
          handle, hpath, AutoClose.handleFile, AutoClose.ofHandle]
      · simp [Removes]
      · simp [Spares]

lemma target_eq_none_iff (h : t.Good) : t.target = none ↔ t.guard.stream = 0 := by
  by_cases hstream : t.guard.stream = 0 <;> simp [target, AutoClose.target, hstream, h.fileno]

lemma detach (h : s.Sound) (hi : s.file i = some t) :
    (s.detach i t).Sound ∧ s.Leaves (.detach i) (s.detach i t) := by
  have hhandles := handles_eq hi ▸ h.handles
  have hpaths := paths_eq hi ▸ h.paths
  have hb : ∀ t', some (⟨[], t.guard.detach⟩ : Tempfile) = some t' → t'.Good := by
    rintro t' ⟨rfl⟩
    exact ⟨rfl, fun hpath => absurd rfl hpath⟩
  have hspares : s.Spares (.detach i) ↔ (t.path = [] → t.guard.stream = 0) := by
    simp [Spares, hi]
  rcases (h.good hi).handle_eq with ⟨hpath, hhandle⟩ | ⟨hpath, hstream, hhandle, htarget⟩
  · have howned : t.owned = none := if_pos hpath
    have hdetach : s.detach i t = { s with
        files := s.files.set i (some ⟨[], t.guard.detach⟩)
        lost := t.target.toList ++ s.lost } := by
      simp [State.detach, hhandle, hpath, target]
    rw [hdetach]
    refine ⟨h.update hi hb rfl ?_ ?_, (and_iff_left trivial).symm, ?_⟩
    · have hsame : (t.target.toList : Multiset Handle) + (s.user + (otherHandles s i + s.lost)) =
          s.user + (otherHandles s i + (t.target.toList ++ s.lost : List Handle)) := by
        rw [← Multiset.coe_add]
        abel
      rw [hsame] at hhandles
      simpa [target] using hhandles
    · rw [howned] at hpaths
      simpa [owned] using hpaths
    · rw [hspares, List.append_eq_nil_iff, Option.toList_eq_nil_iff, target_eq_none_iff (h.good hi)]
      simp [hpath, and_comm]
  · have howned : t.owned = some t.path := if_neg hpath
    have hdetach : s.detach i t = { s with
        files := s.files.set i (some ⟨[], t.guard.detach⟩)
        user := .stream t.guard.stream :: s.user
        kept := t.path :: s.kept } := by
      simp [State.detach, hhandle, hpath, hstream]
    rw [hdetach]
    refine ⟨h.update hi hb rfl ?_ ?_, (and_iff_left trivial).symm, ?_⟩
    · rw [htarget] at hhandles
      simpa [target, ← Multiset.cons_coe] using hhandles
    · rw [howned] at hpaths
      simpa [owned, ← Multiset.cons_coe] using hpaths
    · simp [hspares, hpath]

lemma destroy (h : s.Sound) (hi : s.file i = some t) (closeFails removeFails : Bool) :
    ∃ s', s.exec (.destroy i closeFails removeFails) = .ok s' ∧ s'.Sound ∧
      s.Leaves (.destroy i closeFails removeFails) s' := by
  obtain ⟨alive, hclose, halive⟩ := t.guard.close_eq_ok closeFails (handles_eq hi ▸ h.handles)
  have hpaths := paths_eq hi ▸ h.paths
  have hremoves : s.Removes (.destroy i closeFails removeFails) ↔
      (t.path ≠ [] → closeFails = false ∧ removeFails = false) := by
    simp [Removes, hi]
  have hspares : s.Spares (.destroy i closeFails removeFails) := trivial
  have hagain : ∀ alive : Handle → Bool, t.guard.detach.close alive closeFails =
      .ok (t.guard.detach, alive, false) := fun _ => rfl
  rcases (h.good hi).handle_eq with ⟨hpath, -⟩ | ⟨hpath, -, -, htarget⟩
  · have howned : t.owned = none := if_pos hpath
    refine ⟨{ s with alive, files := s.files.set i none }, ?_,
      h.update hi (by simp) rfl (by simpa using halive) ?_, ?_, (and_iff_left hspares).symm⟩
    · simp [State.exec, hi, destroyPath, hpath, hclose, Except.mapError, Except.ok_bind]
    · rw [howned] at hpaths
      simpa using hpaths
    · simp [hremoves, hpath]
  · have howned : t.owned = some t.path := if_neg hpath
    have hthrown : (t.guard.target.isSome && closeFails) = closeFails := by
      rw [show t.guard.target = _ from htarget]
      rfl
    rw [hthrown] at hclose
    rw [howned, Option.toList_some, Multiset.coe_singleton, Multiset.singleton_add] at hpaths
    cases hfails : closeFails || removeFails with
    | true =>
      have hbody : s.destroyPath t closeFails removeFails =
          .ok (t.guard.detach, { s with alive, left := t.path :: s.left }) := by
        simp only [destroyPath, if_neg hpath, hclose, Except.mapError, Except.ok_bind, hfails]
        rfl
      refine ⟨{ s with alive, files := s.files.set i none, left := t.path :: s.left }, ?_,
        h.update hi (by simp) rfl (by simpa using halive) ?_, ?_, (and_iff_left hspares).symm⟩
      · simp only [State.exec, hi, hbody, Except.ok_bind, hagain]
        rfl
      · simpa [← Multiset.cons_coe] using hpaths
      · have hnot : ¬ (closeFails = false ∧ removeFails = false) := by
          rw [← Bool.or_eq_false_iff, hfails]
          simp
        simp [hremoves, hpath, hnot]
    | false =>
      have hbody : s.destroyPath t closeFails removeFails =
          .ok (t.guard.detach, { s with alive, disk := Function.update s.disk t.path false }) := by
        simp only [destroyPath, if_neg hpath, hclose, Except.mapError, Except.ok_bind, hfails]
        rfl
      refine ⟨{ s with
        alive, files := s.files.set i none, disk := Function.update s.disk t.path false }, ?_,
        h.update hi (by simp) rfl (by simpa using halive) ?_, ?_, (and_iff_left hspares).symm⟩
      · simp only [State.exec, hi, hbody, Except.ok_bind, hagain]
        rfl
      · simpa using hpaths.delete.2
      · have hyes := hremoves.mpr fun _ => Bool.or_eq_false_iff.mp hfails
        exact (and_iff_left hyes).symm

lemma userClose (h : s.Sound) {handle : Handle} (hhandle : handle ∈ s.user) :
    ∃ s', s.exec (.userClose handle) = .ok s' ∧ s'.Sound ∧ s.Leaves (.userClose handle) s' := by
  have hheld : s.handles =
      handle ::ₘ State.handles { s with user := s.user.erase handle } := by
    rw [State.handles, State.handles, Multiset.coe_eq_coe.mpr (List.perm_cons_erase hhandle),
      ← Multiset.cons_coe, Multiset.cons_add]
  obtain ⟨halive, hrest⟩ := (hheld ▸ h.handles).delete
  let s' : State := { s with
    alive := Function.update s.alive handle false, user := s.user.erase handle }
  refine ⟨s', ?_, ⟨hrest, h.paths, h.files⟩, (and_iff_left trivial).symm,
    (and_iff_left trivial).symm⟩
  simp only [State.exec, shut, if_pos halive]
  rfl

lemma exec (h : s.Sound) {op : Op} (hlegal : s.Legal op) :
    ∃ s', s.exec op = .ok s' ∧ s'.Sound ∧ s.Leaves op s' := by
  cases op with
  | named base answer stream => exact h.named hlegal
  | anonymous stream =>
    cases stream with
    | none => exact ⟨s, rfl, h, (and_iff_left trivial).symm, (and_iff_left trivial).symm⟩
    | some stream =>
      obtain ⟨hstream, hfresh⟩ := hlegal stream rfl
      exact ⟨_, rfl, h.anonymous hstream hfresh, (and_iff_left trivial).symm,
        (and_iff_left trivial).symm⟩
  | detach i =>
    obtain ⟨t, hi⟩ := Option.isSome_iff_exists.mp hlegal
    exact ⟨s.detach i t, by simp only [State.exec, hi], h.detach hi⟩
  | destroy i closeFails removeFails =>
    obtain ⟨t, hi⟩ := Option.isSome_iff_exists.mp hlegal
    exact h.destroy hi closeFails removeFails
  | userClose handle => exact h.userClose hlegal

end Sound

end State

/-- In every run each open handle and each file on the disk has one owner, and nothing is closed or
removed twice. An object with a path shows an open stream, and one without a path none. A file stays
on the disk with nobody to remove it if and only if a call of the system failed behind `::mkstemp`.
A handle stays open with nobody to close it if and only if there was no stream for a file, or
a file without a path was detached. -/
theorem removed_iff (ops : List Op) (hlegal : machine.Legal .new ops) :
    ∃ s, ops.foldlM machine.step .new = .ok s ∧
      (∀ handle, s.alive handle = true ↔ handle ∈ s.handles) ∧ s.handles.Nodup ∧
      (∀ path, s.disk path = true ↔ path ∈ s.paths) ∧ s.paths.Nodup ∧
      (∀ t, some t ∈ s.files → t.path = [] ∧ t.handle = .ok 0 ∨
        ∃ file, t.handle = .ok file ∧ s.alive (.stream file) = true) ∧
      (s.left = [] ↔ machine.Meets State.Removes .new ops) ∧
      (s.lost = [] ↔ machine.Meets State.Spares .new ops) := by
  obtain ⟨s, hrun, hsound, hleft⟩ := hlegal.result_iff_meets (I := State.Sound)
    (C := State.Removes) (D := fun s => s.left = [])
    (fun s op h hop => (h.exec hop).imp fun _ h => ⟨h.1, h.2.1, h.2.2.1⟩) .new
  obtain ⟨s', hrun', -, hlost⟩ := hlegal.result_iff_meets (I := State.Sound)
    (C := State.Spares) (D := fun s => s.lost = [])
    (fun s op h hop => (h.exec hop).imp fun _ h => ⟨h.1, h.2.1, h.2.2.2⟩) .new
  obtain rfl : s = s' := Except.ok.inj (hrun.symm.trans hrun')
  refine ⟨s, hrun, fun _ => hsound.handles.alive_iff, hsound.handles.single_nodup,
    fun _ => hsound.paths.alive_iff, hsound.paths.single_nodup, fun t ht => ?_,
    hleft.trans (and_iff_right rfl), hlost.trans (and_iff_right rfl)⟩
  rcases (hsound.files t ht).handle_eq with hnone | ⟨-, -, hhandle, htarget⟩
  · exact .inl hnone
  · refine .inr ⟨_, hhandle, hsound.handles.alive_iff.mpr ?_⟩
    have hmem : Handle.stream t.guard.stream ∈ s.files.filterMap (·.bind target) :=
      List.mem_filterMap.mpr ⟨some t, ht, htarget⟩
    simp [State.handles, hmem]

/-- A file from a base name and one without a path. -/
def tempfileRun : List Op :=
  [.named "bla".toList (some ("aBcDeF".toList, 3)) (some 7), .anonymous (some 8), .detach 1,
    .destroy 0 false false]

lemma legal_tempfileRun : machine.Legal .new tempfileRun := by
  refine .cons ⟨?_, ?_, ?_⟩ rfl (.cons ?_ rfl (.cons rfl rfl (.cons rfl rfl trivial)))
  · rintro suffix fd ⟨rfl, rfl⟩
    rfl
  · rintro value path fd - -
    exact ⟨rfl, rfl⟩
  · rintro file ⟨rfl⟩
    exact ⟨by decide, rfl⟩
  · rintro file ⟨rfl⟩
    exact ⟨by decide, rfl⟩

/-- The file without a path was detached, and its stream stays open. -/
theorem removed_iff_tempfileRun : ∃ s, tempfileRun.foldlM machine.step .new = .ok s ∧
    s.handles.Nodup ∧ (s.lost = [] ↔ machine.Meets State.Spares .new tempfileRun) :=
  (removed_iff tempfileRun legal_tempfileRun).imp fun _ h => ⟨h.1, h.2.2.1, h.2.2.2.2.2.2.2⟩

end Tempfile

end Utilmm.System
