import Std.Data.TreeMap.Lemmas
import Utilmm.Core.CString
import Utilmm.Core.Environ
import Utilmm.System.Handshake
import Utilmm.System.Ownership
import Utilmm.System.UnixError

/-!
# What the new program of a process object gets

Between `fork` and `execvp` the child points its output streams to their redirections, overrides
variables of its environment and goes to the working directory. The numbers of the descriptors are
those of the parent at the time of `start`, with the pipe on the two lowest free ones, and a
descriptor of the user stays open in the new program.
-/

namespace Utilmm.System.Redirection

open Throwing (exec exec_bind_ok)

/-! ### What is set for the next child -/

structure Settings where
  cmdline : List Str
  env : Std.TreeMap Str Str
  wdir : Str
  /-- `m_pgid`, once `m_do_setpgid` is set. -/
  pgid : Option Int

/-- The calls which prepare a child. -/
inductive Setting
  /-- `process::push`, also written `<<`. -/
  | push (argument : Str)
  /-- `process::clear`. -/
  | clear
  | setEnvironment (key value : Str)
  | clearEnvironment
  | setWorkdir (wdir : Str)
  | setPgid (pgid : Int)
  deriving DecidableEq, Repr

namespace Settings

def empty : Settings := ⟨[], ∅, [], none⟩

def apply (settings : Settings) : Setting → Settings
  | .push argument => { settings with cmdline := settings.cmdline ++ [argument] }
  | .clear => { settings with cmdline := [] }
  | .setEnvironment key value => { settings with env := settings.env.insert key value }
  | .clearEnvironment => { settings with env := ∅ }
  | .setWorkdir wdir => { settings with wdir }
  | .setPgid pgid => { settings with pgid := some pgid }

/-- `process::environment`. -/
def environment (settings : Settings) (key : Str) : Str := (settings.env[key]?).getD []

/-- The loop over `env`, in the order of the keys. Each text is passed as a C string. -/
def putenvArgs (settings : Settings) : List Str :=
  settings.env.toList.map fun (key, value) => CString.text nul (key ++ '=' :: value)

/-- `stringlist_to_execlist`, as the C strings which the new program finds. -/
def execArgv (settings : Settings) : List Str := settings.cmdline.map (CString.text nul)

end Settings

/-! ### The child -/

/-- A program at its start. -/
structure Image where
  /-- What `execvp` has looked for. -/
  prog : Str
  argv : List Str
  environ : List Str
  /-- Where `chdir` went to, if it was called. -/
  dir : Option Str
  /-- The argument of `setpgid`, if it was called. -/
  pgid : Option Int
  files : Nat → Option File

/-- How the child's side of `start` ends. -/
inductive Outcome
  /-- A throw of `redirect` or `close` has left `start`, in a second copy of the program. -/
  | escaped
  /-- `execvp` has followed a null pointer. -/
  | killed
  /-- `send_child_error`, with what its words were written to. -/
  | reported (errorType : Int) (file : Option File)
  | runs (image : Image)

/-- Which system calls of the child succeed, if they get what they need. -/
structure Answers where
  chdir : Bool
  execvp : Bool

/-- `dup2`, in a table of the given size. -/
def dup2 (size : Nat) (files : Nat → Option File) (fd stream : Nat) :
    Option (Nat → Option File) :=
  if stream < size then (files fd).map fun file => Function.update files stream (some file)
  else none

/-- `output_file::redirect`. -/
def redirectOutput (size : Nat) (files : Nat → Option File) (handle : Option Nat) (stream : Nat) :
    Option (Nat → Option File) :=
  match handle with
  | none => some files
  | some fd => dup2 size files fd stream

namespace State

/-- The child's side of `process::start`. -/
def startChild (s : State) (settings : Settings) (environ : List Str) (answers : Answers)
    (readEnd writeEnd : Nat) : Outcome :=
  let size := s.table.slots.length
  match (redirectOutput size s.fileOf s.streams.stdout 1).bind
      (redirectOutput size · s.streams.stderr 2) with
  | none => .escaped
  | some files =>
    if (files readEnd).isNone then .escaped
    else
      let files := Function.update files readEnd none
      let environ := settings.putenvArgs.foldl (Environ.putenv '=') environ
      if settings.wdir ≠ [] && !answers.chdir then
        .reported Handshake.chdirError (files writeEnd)
      else
        match settings.execArgv with
        | [] => .killed
        | prog :: args =>
          if answers.execvp then
            .runs
              { prog, argv := prog :: args, environ
                dir := if settings.wdir ≠ [] then some (CString.text nul settings.wdir) else none
                pgid := settings.pgid
                -- `FD_CLOEXEC`
                files := Function.update files writeEnd none }
          else .reported Handshake.execError (files writeEnd)

/-- `process::start`, as its child sees it. -/
def launch (s : State) (settings : Settings) (environ : List Str) (answers : Answers) :
    Except Fault Outcome :=
  match exec pipe s with
  | (.ok (some (readEnd, writeEnd)), s) =>
    .ok (s.startChild settings environ answers readEnd writeEnd)
  | _ => .error .uninitialized

end State

/-! ### Histories of calls -/

section

variable {calls : List Setting}

/-- The calls behind the last one of a kind, newest first. -/
def since (stop : Setting) (calls : List Setting) : List Setting :=
  calls.reverse.takeWhile (· ≠ stop)

/-- The arguments since the last `clear`. -/
def pushed (calls : List Setting) : List Str :=
  ((since .clear calls).filterMap fun
    | .push argument => some argument
    | _ => none).reverse

/-- The value which a key got last since the last `clear_environment`. -/
def lastSet (calls : List Setting) (key : Str) : Option Str :=
  (since .clearEnvironment calls).findSome? fun
    | .setEnvironment key' value => if key' = key then some value else none
    | _ => none

/-- The variable a key stands for, which ends at the first `=` or zero. -/
def varName (key : Str) : Str := Environ.name '=' (CString.text nul key)

lemma since_concat (stop c : Setting) :
    since stop (calls ++ [c]) = if c = stop then [] else c :: since stop calls := by
  rw [since, List.reverse_concat, List.takeWhile_cons]
  by_cases hc : c = stop <;> simp [hc, since]

namespace Settings

lemma cmdline_foldl (calls : List Setting) : (calls.foldl apply empty).cmdline = pushed calls := by
  induction calls using List.reverseRecOn with
  | nil => rfl
  | append_singleton calls c ih =>
    rw [List.foldl_append, List.foldl_cons, List.foldl_nil, pushed, since_concat]
    cases c <;> simp [apply, ih, pushed]

lemma env_foldl (calls : List Setting) (key : Str) :
    (calls.foldl apply empty).env[key]? = lastSet calls key := by
  induction calls using List.reverseRecOn with
  | nil => exact Std.TreeMap.getElem?_emptyc
  | append_singleton calls c ih =>
    rw [List.foldl_append, List.foldl_cons, List.foldl_nil, lastSet, since_concat]
    cases c with
    | setEnvironment key' value =>
      rw [if_neg (by simp), List.findSome?_cons, apply, Std.TreeMap.getElem?_insert, ih]
      simp only [Std.LawfulEqCmp.compare_eq_iff_eq]
      split_ifs <;> rfl
    | clearEnvironment => exact Std.TreeMap.getElem?_emptyc
    | _ => simpa [apply, lastSet] using ih

end Settings

/-- Neither the value nor the sign behind the key has a part in the name. -/
lemma name_putenvArg (key value : Str) :
    Environ.name '=' (CString.text nul (key ++ '=' :: value)) = varName key := by
  simp only [varName, Environ.name, CString.text, List.takeWhile_takeWhile]
  exact takeWhile_append_of_head (by simp) key

/-- The last overridden key for a variable decides about it. -/
lemma getLast?_putenvArgs {settings : Settings} {key value x : Str}
    (hset : settings.env[key]? = some value) (hname : varName key = x)
    (hlast : ∀ key' value', settings.env[key']? = some value' → varName key' = x →
      (compare key' key).isLE) :
    (settings.putenvArgs.filter (Environ.name '=' · = x)).getLast?
      = some (CString.text nul (key ++ '=' :: value)) := by
  have hfilter : settings.putenvArgs.filter (Environ.name '=' · = x)
      = (settings.env.toList.filter (varName ·.1 = x)).map
          fun p => CString.text nul (p.1 ++ '=' :: p.2) := by
    rw [Settings.putenvArgs, List.filter_map]
    simp only [Function.comp_def, name_putenvArg]
  have hmem_iff (p : Str × Str) : p ∈ settings.env.toList.filter (varName ·.1 = x) ↔
      settings.env[p.1]? = some p.2 ∧ varName p.1 = x := by
    rw [List.mem_filter, Std.TreeMap.mem_toList_iff_getElem?_eq_some, decide_eq_true_eq]
  have hmem := (hmem_iff (key, value)).mpr ⟨hset, hname⟩
  have hsorted := (Std.TreeMap.ordered_keys_toList (t := settings.env)).filter (varName ·.1 = x)
  rw [hfilter, List.getLast?_map]
  obtain ⟨front, last, hfront⟩ := (List.eq_nil_or_concat' _).resolve_left (List.ne_nil_of_mem hmem)
  have hle := (hmem_iff last).mp (hfront ▸ List.mem_append_right front List.mem_cons_self)
  rw [hfront] at hmem hsorted ⊢
  rcases List.mem_append.mp hmem with hfirst | hlast'
  · -- a key in front of the last one is smaller
    have hlt : compare key last.1 = .lt :=
      (List.pairwise_append.mp hsorted).2.2 _ hfirst last List.mem_cons_self
    have hgt := hlast last.1 last.2 hle.1 hle.2
    rw [Std.OrientedCmp.gt_of_lt hlt] at hgt
    cases hgt
  · rw [List.getLast?_concat, ← List.mem_singleton.mp hlast']
    rfl

namespace State

variable {s s' : State} {settings : Settings} {environ : List Str} {answers : Answers}
  {readEnd writeEnd : Nat} {image : Image}

/-- The child gets to the new program behind its redirections. -/
lemma startChild_eq_runs
    (h : s.startChild settings environ answers readEnd writeEnd = .runs image) :
    ∃ files, (redirectOutput s.table.slots.length s.fileOf s.streams.stdout 1).bind
        (redirectOutput s.table.slots.length · s.streams.stderr 2) = some files ∧
      settings.execArgv = image.argv ∧ image.argv.head? = some image.prog ∧
      image = { image with
        environ := settings.putenvArgs.foldl (Environ.putenv '=') environ
        dir := if settings.wdir ≠ [] then some (CString.text nul settings.wdir) else none
        pgid := settings.pgid
        files := Function.update (Function.update files readEnd none) writeEnd none } := by
  rw [startChild] at h
  split at h
  next => cases h
  next files hfiles =>
    split at h
    · cases h
    · split at h
      · cases h
      · split at h
        next => cases h
        next prog args hargv =>
          split at h
          · cases h
            exact ⟨files, hfiles, hargv, rfl, rfl⟩
          · cases h

lemma launch_eq (hpipe : exec pipe s = (.ok (some (readEnd, writeEnd)), s')) :
    s.launch settings environ answers
      = .ok (s'.startChild settings environ answers readEnd writeEnd) := by
  rw [launch, hpipe]

lemma exists_pipe_of_launch {outcome : Outcome}
    (h : s.launch settings environ answers = .ok outcome) :
    ∃ readEnd writeEnd s', exec pipe s = (.ok (some (readEnd, writeEnd)), s') := by
  rw [launch] at h
  split at h
  next readEnd writeEnd s' hpipe => exact ⟨readEnd, writeEnd, s', hpipe⟩
  next => cases h

end State

/-- The new program gets the words which were pushed since the last `clear`. A variable that no key
is about is that of the parent, and otherwise the last key about it decides. -/
theorem image_of_calls (s : State) (environ : List Str) (answers : Answers) (calls : List Setting)
    {image : Image} (h : s.launch (calls.foldl .apply .empty) environ answers = .ok (.runs image)) :
    (image.argv = (pushed calls).map (CString.text nul) ∧ image.argv.head? = some image.prog) ∧
    ∀ x ≠ [],
      ((∀ key value, lastSet calls key = some value → varName key ≠ x) →
        Environ.getenv '=' image.environ x = Environ.getenv '=' environ x) ∧
      (∀ key value, lastSet calls key = some value → varName key = x →
        (∀ key' value', lastSet calls key' = some value' → varName key' = x →
          (compare key' key).isLE) →
        Environ.getenv '=' image.environ x
          = Environ.value '=' (CString.text nul (key ++ '=' :: value))) ∧
      ∀ value, lastSet calls x = some value → '=' ∉ x → nul ∉ x →
        (∀ key value', lastSet calls key = some value' → varName key = x → key = x) →
        (calls.foldl Settings.apply .empty).environment x = value ∧
          Environ.getenv '=' image.environ x = some (CString.text nul value) := by
  obtain ⟨readEnd, writeEnd, s', hpipe⟩ := State.exists_pipe_of_launch h
  rw [State.launch_eq hpipe, Except.ok.injEq] at h
  obtain ⟨files, -, hargv, hprog, himage⟩ := State.startChild_eq_runs h
  have henviron : image.environ
      = (calls.foldl Settings.apply .empty).putenvArgs.foldl (Environ.putenv '=') environ := by
    rw [himage]
  refine ⟨⟨?_, hprog⟩, fun x hx => ?_⟩
  · rw [← hargv, Settings.execArgv, Settings.cmdline_foldl]
  have hget : Environ.getenv '=' ((calls.foldl Settings.apply .empty).putenvArgs.foldl
      (Environ.putenv '=') environ) x = _ := Environ.getenv_foldl_putenv hx _
  rw [← henviron] at hget
  have hdecides {key value : Str} (hset : lastSet calls key = some value) (hname : varName key = x)
      (hlast : ∀ key' value', lastSet calls key' = some value' → varName key' = x →
        (compare key' key).isLE) :
      Environ.getenv '=' image.environ x
        = Environ.value '=' (CString.text nul (key ++ '=' :: value)) := by
    simp only [← Settings.env_foldl] at hset hlast
    rw [hget, getLast?_putenvArgs hset hname hlast]
  refine ⟨fun hnone => ?_, fun key value => hdecides, fun value hset hsign hnul honly => ?_⟩
  · have hnil : (calls.foldl Settings.apply .empty).putenvArgs.filter (Environ.name '=' · = x)
        = [] := by
      refine List.filter_eq_nil_iff.mpr fun arg harg => ?_
      obtain ⟨p, hp, rfl⟩ := List.mem_map.mp harg
      rw [Std.TreeMap.mem_toList_iff_getElem?_eq_some, Settings.env_foldl] at hp
      rw [decide_eq_true_eq, name_putenvArg]
      exact hnone p.1 p.2 hp
    rw [hget, hnil]
    rfl
  · have htext : CString.text nul (x ++ '=' :: value) = x ++ '=' :: CString.text nul value := by
      rw [CString.text_append hnul, CString.text, List.takeWhile_cons_of_pos (by decide)]
      rfl
    have hname : varName x = x := by
      rw [varName, CString.text_eq_self hnul, Environ.name_of_not_mem hsign]
    refine ⟨by rw [Settings.environment, Settings.env_foldl, hset]; rfl, ?_⟩
    rw [hdecides hset hname fun key value' hset' hname' => ?_, htext, Environ.value_append hsign]
    rw [honly key value' hset' hname']
    exact Ordering.isLE_of_eq_eq Std.ReflCmp.compare_self

/-- A word is taken back, and a variable of the parent is overridden. -/
def sortCalls : List Setting :=
  [.push "ls".toList, .clear, .push "sort".toList, .push "-u".toList,
    .setEnvironment "LANG".toList "de".toList, .setEnvironment "LANG".toList "C".toList]

theorem image_of_calls_sort : ∃ image,
    (State.new (.empty 8)).launch (sortCalls.foldl .apply .empty) ["LANG=en".toList] ⟨true, true⟩
      = .ok (.runs image) ∧
    image.argv = ["sort".toList, "-u".toList] ∧
    Environ.getenv '=' image.environ "LANG".toList = some "C".toList := by
  refine ⟨_, rfl, ?_, ?_⟩
  · exact (image_of_calls (State.new (.empty 8)) ["LANG=en".toList] ⟨true, true⟩ sortCalls rfl).1.1
  · refine (((image_of_calls (State.new (.empty 8)) ["LANG=en".toList] ⟨true, true⟩ sortCalls
      rfl).2 "LANG".toList (by decide)).2.2 "C".toList (by decide) (by decide) (by decide) ?_).2
    intro key value hset _
    by_contra hne
    have hnone : lastSet sortCalls key = none := by
      simpa [lastSet, since, sortCalls] using Ne.symm hne
    rw [hnone] at hset
    cases hset

end

/-! ### The descriptors of the child -/

section

variable {s s' : State} {readEnd writeEnd : Nat} {size fd stream : Nat} {handle : Option Nat}
  {files : Nat → Option File}

lemma fileOf_ne_none_of_lt {fd' : Nat} (h : s.table.freeSlot = some fd) (hlt : fd' < fd) :
    s.fileOf fd' ≠ none :=
  Option.map_eq_none_iff.not.mpr (Descriptors.get_ne_none_of_lt h hlt)

/-- The pipe takes the two lowest free numbers. -/
structure Piped (s s' : State) (readEnd writeEnd : Nat) : Prop where
  streams : s'.streams = s.streams
  size : s'.table.slots.length = s.table.slots.length
  readEnd_lt : readEnd < s.table.slots.length
  writeEnd_lt : writeEnd < s.table.slots.length
  files : ∀ fd, s'.fileOf fd
    = if fd = readEnd ∨ fd = writeEnd then some .pipe else s.fileOf fd
  readEnd_free : s.fileOf readEnd = none
  writeEnd_free : s.fileOf writeEnd = none
  ordered : readEnd < writeEnd
  lowest : ∀ fd, s.fileOf fd = none → fd = readEnd ∨ writeEnd ≤ fd

lemma Piped.of_exec (hpipe : exec pipe s = (.ok (some (readEnd, writeEnd)), s')) :
    Piped s s' readEnd writeEnd := by
  cases hfree : s.table.freeSlot with
  | none =>
    have hnone : exec (create .pipe) s = (.ok none, s) := exec_create_none hfree
    rw [Redirection.pipe, exec_bind_ok (Throwing.exec_get s), exec_bind_ok hnone,
      exec_bind_ok hnone] at hpipe
    cases hpipe
  | some fd =>
    have hread : exec (create .pipe) s = (.ok (some fd), s.opened fd .pipe) :=
      exec_create_some hfree
    cases hfree' : (s.opened fd .pipe).table.freeSlot with
    | none =>
      rw [Redirection.pipe, exec_bind_ok (Throwing.exec_get s), exec_bind_ok hread,
        exec_bind_ok (exec_create_none hfree')] at hpipe
      cases hpipe
    | some fd' =>
      rw [Redirection.pipe, exec_bind_ok (Throwing.exec_get s), exec_bind_ok hread,
        exec_bind_ok (exec_create_some hfree')] at hpipe
      cases hpipe
      have hopened (fd₀ : Nat) : (s.opened readEnd .pipe).fileOf fd₀
          = if fd₀ = readEnd then some .pipe else s.fileOf fd₀ := State.fileOf_opened hfree
      have hread' := Descriptors.get_of_freeSlot hfree
      have hwrite := Descriptors.get_of_freeSlot hfree'
      have hfile' : (s.opened readEnd .pipe).fileOf writeEnd = none := by
        rw [State.fileOf, hwrite.1]
        rfl
      have hne : writeEnd ≠ readEnd := by
        rintro rfl
        rw [hopened, if_pos rfl] at hfile'
        cases hfile'
      rw [hopened, if_neg hne] at hfile'
      have hlowest : ∀ fd₀, s.fileOf fd₀ = none → readEnd ≤ fd₀ := fun fd₀ h₀ => by
        by_contra hlt
        exact fileOf_ne_none_of_lt hfree (not_le.mp hlt) h₀
      exact {
        streams := rfl
        size := by simp [State.opened, Descriptors.put]
        readEnd_lt := hread'.2
        writeEnd_lt := by simpa [State.opened, Descriptors.put] using hwrite.2
        files := fun fd₀ => by
          rw [State.fileOf_opened hfree', hopened]
          split_ifs <;> simp_all
        readEnd_free := by rw [State.fileOf, hread'.1]; rfl
        writeEnd_free := hfile'
        ordered := lt_of_le_of_ne (hlowest writeEnd hfile') hne.symm
        lowest := fun fd₀ h₀ => by
          by_contra hcon
          obtain ⟨hne₀, hlt⟩ := not_or.mp hcon
          exact fileOf_ne_none_of_lt hfree' (not_le.mp hlt)
            (((hopened fd₀).trans (if_neg hne₀)).trans h₀) }

namespace Piped

lemma taken_iff (hp : Piped s s' readEnd writeEnd) (fd : Nat) :
    fd = readEnd ∨ fd = writeEnd ↔ s.fileOf fd = none ∧ fd ≤ writeEnd := by
  have hordered := hp.ordered
  constructor
  · rintro (rfl | rfl)
    · exact ⟨hp.readEnd_free, hordered.le⟩
    · exact ⟨hp.writeEnd_free, le_rfl⟩
  · rintro ⟨hfree, hle⟩
    have := hp.lowest fd hfree
    omega

lemma one_taken_iff (hp : Piped s s' readEnd writeEnd) :
    1 = readEnd ∨ 1 = writeEnd ↔ s.fileOf 1 = none := by
  have hordered := hp.ordered
  rw [hp.taken_iff, and_iff_left (by omega)]

lemma one_kept (hp : Piped s s' readEnd writeEnd) :
    s'.fileOf 1 = s.fileOf 1 ∨ s.fileOf 1 = none := by
  by_cases hfree : s.fileOf 1 = none
  · exact Or.inr hfree
  · exact Or.inl (by rw [hp.files, if_neg (hp.one_taken_iff.not.mpr hfree)])

lemma writeEnd_eq_one_iff (hp : Piped s s' readEnd writeEnd) :
    writeEnd = 1 ↔ s.fileOf 0 = none ∧ s.fileOf 1 = none := by
  have hordered := hp.ordered
  have hzero := hp.taken_iff 0
  have hone := hp.one_taken_iff
  rw [← hone]
  rw [and_iff_left (Nat.zero_le _)] at hzero
  rw [← hzero]
  omega

/-- The pipe takes the number `2` if it is free, but for the numbers `0` and `1` being free. -/
lemma two_taken_iff (hp : Piped s s' readEnd writeEnd) :
    2 = readEnd ∨ 2 = writeEnd ↔
      s.fileOf 2 = none ∧ (s.fileOf 0 ≠ none ∨ s.fileOf 1 ≠ none) := by
  have hordered := hp.ordered
  have hone := hp.writeEnd_eq_one_iff
  rw [hp.taken_iff, ← not_and_or, ← hone]
  exact and_congr_right fun _ => by omega

lemma writeEnd_eq_two_iff (hp : Piped s s' readEnd writeEnd) :
    writeEnd = 2 ↔ s.fileOf 2 = none ∧ (s.fileOf 0 ≠ none ∨ s.fileOf 1 ≠ none) ∧
      (s.fileOf 0 = none ∨ s.fileOf 1 = none) := by
  have hordered := hp.ordered
  have hzero := hp.taken_iff 0
  rw [and_iff_left (Nat.zero_le _)] at hzero
  rw [← and_assoc, ← hp.two_taken_iff, ← hzero, ← hp.one_taken_iff]
  omega

end Piped

/-- A stream keeps its file if it has no redirection. -/
lemma redirectOutput_eq (hopen : ∀ fd, handle = some fd → files fd ≠ none ∧ stream < size) :
    redirectOutput size files handle stream
      = some (Function.update files stream ((handle.bind files).or (files stream))) := by
  cases handle with
  | none => simp [redirectOutput]
  | some fd =>
    obtain ⟨hfile, hlt⟩ := hopen fd rfl
    obtain ⟨file, hfile⟩ := Option.ne_none_iff_exists'.mp hfile
    simp [redirectOutput, dup2, hlt, hfile]

/-- What the child's numbers stand for when its streams are redirected. -/
def childFiles (s : State) (requested : PerStream (Option File)) : Nat → Option File :=
  let files := Function.update s.fileOf 1 (requested.stdout.or (s.fileOf 1))
  Function.update files 2
    ((if s.streams.stderr = some 1 then files 1 else requested.stderr).or (s.fileOf 2))

/-- With its streams open the child goes on behind the redirections. -/
lemma Piped.redirects (hp : Piped s s' readEnd writeEnd) (h : Inv s) :
    (redirectOutput s'.table.slots.length s'.fileOf s'.streams.stdout 1).bind
        (redirectOutput s'.table.slots.length · s'.streams.stderr 2)
      = some (childFiles s' s.requested) := by
  -- the numbers of the streams are not those of the pipe, so there are three
  have hstream (stream : Stream) {fd : Nat} (hfd : s.streams.get stream = some fd) :
      s'.fileOf fd = s.requested.get stream ∧ s'.fileOf fd ≠ none ∧ 2 < s.table.slots.length := by
    obtain ⟨d, hd⟩ := h.owned.isOpen hfd
    have hopen : s.fileOf fd = some d.file := by rw [State.fileOf, hd]; rfl
    have hlt := Descriptors.lt_length_of_get hd
    have hread : fd ≠ readEnd := fun heq => by simp [heq, hp.readEnd_free] at hopen
    have hwrite : fd ≠ writeEnd := fun heq => by simp [heq, hp.writeEnd_free] at hopen
    have hfile : s'.fileOf fd = s.fileOf fd := by rw [hp.files, if_neg (by tauto)]
    have htarget := h.redirected stream
    rw [State.target, hfd, Option.bind_some] at htarget
    refine ⟨hfile.trans htarget, by simp [hfile, hopen], ?_⟩
    have := hp.readEnd_lt
    have := hp.writeEnd_lt
    have := hp.ordered
    omega
  have hstdout : s'.streams.stdout.bind s'.fileOf = s.requested.stdout := by
    have htarget := h.redirected .stdout
    rw [hp.streams]
    cases hfd : s.streams.stdout with
    | none => simpa [State.target, PerStream.get, hfd] using htarget
    | some fd => exact (hstream .stdout hfd).1
  have hopen (fd : Nat) (hfd : s'.streams.stdout = some fd) :
      s'.fileOf fd ≠ none ∧ 1 < s'.table.slots.length := by
    rw [hp.streams] at hfd
    obtain ⟨-, hne, hsize⟩ := hstream .stdout hfd
    exact ⟨hne, by rw [hp.size]; omega⟩
  rw [redirectOutput_eq hopen, Option.bind_some, hstdout]
  rw [redirectOutput_eq, childFiles]
  · have hstderr : s'.streams.stderr.bind (Function.update s'.fileOf 1
        (s.requested.stdout.or (s'.fileOf 1)))
        = if s'.streams.stderr = some 1 then s.requested.stdout.or (s'.fileOf 1)
          else s.requested.stderr := by
      have htarget := h.redirected .stderr
      rw [hp.streams]
      cases hfd : s.streams.stderr with
      | none => simpa [State.target, PerStream.get, hfd] using htarget
      | some fd =>
        simp only [Option.bind_some, Function.update_apply, Option.some.injEq]
        split_ifs
        · rfl
        · exact (hstream .stderr hfd).1
    rw [hstderr, Function.update_self, Function.update_of_ne (by decide)]
  · intro fd hfd
    rw [hp.streams] at hfd
    obtain ⟨-, hne, hsize⟩ := hstream .stderr hfd
    refine ⟨?_, by rwa [hp.size]⟩
    rw [Function.update_apply]
    split_ifs with hfd₁
    · -- the number is that of the standard output
      subst hfd₁
      simpa [Option.or_eq_none_iff] using fun _ => hne
    · exact hne

/-- What holds of the child at its end. -/
lemma startChild_cases (settings : Settings) (environ : List Str) (answers : Answers)
    (h : (redirectOutput s.table.slots.length s.fileOf s.streams.stdout 1).bind
      (redirectOutput s.table.slots.length · s.streams.stderr 2) = some files)
    (hread : files readEnd ≠ none) (hne : writeEnd ≠ readEnd) :
    (s.startChild settings environ answers readEnd writeEnd = .killed) ∨
    (∃ errorType, s.startChild settings environ answers readEnd writeEnd
      = .reported errorType (files writeEnd)) ∨
    ∃ image, s.startChild settings environ answers readEnd writeEnd = .runs image ∧
      image.files = Function.update (Function.update files readEnd none) writeEnd none := by
  have hwrite : Function.update files readEnd none writeEnd = files writeEnd :=
    Function.update_of_ne hne none files
  have hopen : ¬ (files readEnd).isNone := by simpa using hread
  simp only [State.startChild, h, if_neg hopen, hwrite]
  split
  · exact Or.inr (Or.inl ⟨_, rfl⟩)
  · split
    · exact Or.inl rfl
    · split
      · exact Or.inr (Or.inr ⟨_, rfl, rfl⟩)
      · exact Or.inr (Or.inl ⟨_, rfl⟩)

@[simp] lemma childFiles_one (requested : PerStream (Option File)) :
    childFiles s requested 1 = requested.stdout.or (s.fileOf 1) := by
  rw [childFiles, Function.update_of_ne (by decide), Function.update_self]

@[simp] lemma childFiles_two (requested : PerStream (Option File)) :
    childFiles s requested 2
      = (if s.streams.stderr = some 1 then requested.stdout.or (s.fileOf 1)
        else requested.stderr).or (s.fileOf 2) := by
  rw [childFiles, Function.update_self, Function.update_self]

lemma childFiles_of_ne (requested : PerStream (Option File)) (h₁ : fd ≠ 1) (h₂ : fd ≠ 2) :
    childFiles s requested fd = s.fileOf fd := by
  rw [childFiles, Function.update_of_ne h₂, Function.update_of_ne h₁]

/-- No number is closed by a redirection. -/
lemma childFiles_ne_none {requested : PerStream (Option File)} (h : s.fileOf fd ≠ none) :
    childFiles s requested fd ≠ none := by
  by_cases htwo : fd = 2
  · subst htwo
    simp [Option.or_eq_none_iff, h]
  by_cases hone : fd = 1
  · subst hone
    simp [Option.or_eq_none_iff, h]
  · rwa [childFiles_of_ne _ hone htwo]

/-- What the child's standard error output is redirected to: under the number `1` it finds what the
standard output was redirected to before. -/
def State.errorTarget (s : State) : Option File :=
  if s.streams.stderr = some 1 then s.requested.stdout.or s.requested.stderr
  else s.requested.stderr

/-- The new program has its standard output where it was requested, as long as the number `1` was
open in the parent, and its standard error output if the number `2` was open or the pipe has taken
`0` and `1`. All other numbers are those of the parent. An error goes to the pipe, unless the pipe
has taken the number of an output. -/
def State.Explains (s : State) : Outcome → Prop
  | .escaped => False
  | .killed => True
  | .reported _ file =>
    file = some
      (if s.fileOf 0 = none ∧ s.fileOf 1 = none then s.requested.stdout.getD .pipe
      else if s.fileOf 2 = none ∧ (s.fileOf 0 = none ∨ s.fileOf 1 = none) then
        s.errorTarget.getD .pipe
      else .pipe)
  | .runs image =>
    image.files 1 = (s.fileOf 1).map (s.requested.stdout.getD ·) ∧
    image.files 2 =
      (if s.fileOf 2 = none ∧ (s.fileOf 0 ≠ none ∨ s.fileOf 1 ≠ none) then none
      else s.errorTarget.or (s.fileOf 2)) ∧
    ∀ fd, fd ≠ 1 → fd ≠ 2 → image.files fd = s.fileOf fd

/-- The number of the standard error output may be that of the standard output. -/
lemma Inv.errorTarget_eq (h : Inv s) (hfile : s'.fileOf 1 = s.fileOf 1 ∨ s.fileOf 1 = none) :
    (if s.streams.stderr = some 1 then s.requested.stdout.or (s'.fileOf 1)
      else s.requested.stderr) = s.errorTarget := by
  rw [State.errorTarget]
  split_ifs with hone
  · obtain ⟨d, hd⟩ := h.owned.isOpen (show s.streams.get .stderr = some 1 from hone)
    have hopen : s.fileOf 1 ≠ none := by simp [State.fileOf, hd]
    have htarget := h.redirected .stderr
    rw [State.target] at htarget
    simp only [PerStream.get, hone, Option.bind_some] at htarget
    rw [hfile.resolve_right hopen, htarget]
  · rfl

lemma Piped.reported (hp : Piped s s' readEnd writeEnd) (h : Inv s) (errorType : Int) :
    s.Explains (.reported errorType (childFiles s' s.requested writeEnd)) := by
  have hpipe : s'.fileOf writeEnd = some .pipe := by rw [hp.files, if_pos (Or.inr rfl)]
  have hone := hp.writeEnd_eq_one_iff
  have htwo := hp.writeEnd_eq_two_iff
  rw [State.Explains]
  split_ifs with h₁ h₂
  · obtain rfl := hone.mpr h₁
    rw [childFiles_one, hpipe]
    cases s.requested.stdout <;> rfl
  · have hnot := (not_and_or.mp h₁)
    obtain rfl := htwo.mpr ⟨h₂.1, hnot, h₂.2⟩
    rw [childFiles_two, hp.streams, h.errorTarget_eq hp.one_kept, hpipe]
    cases s.errorTarget <;> rfl
  · rw [childFiles_of_ne, hpipe]
    · exact fun heq => h₁ (hone.mp heq)
    · exact fun heq => h₂ ⟨(htwo.mp heq).1, (htwo.mp heq).2.2⟩

lemma Piped.runs (hp : Piped s s' readEnd writeEnd) (h : Inv s) {image : Image}
    (himage : image.files
      = Function.update (Function.update (childFiles s' s.requested) readEnd none) writeEnd none) :
    s.Explains (.runs image) := by
  have hfiles (fd : Nat) : image.files fd
      = if fd = readEnd ∨ fd = writeEnd then none else childFiles s' s.requested fd := by
    rw [himage, Function.update_apply, Function.update_apply]
    split_ifs <;> simp_all
  refine ⟨?_, ?_, fun fd h₁ h₂ => ?_⟩
  · rw [hfiles, childFiles_one]
    split_ifs with htaken
    · rw [hp.one_taken_iff.mp htaken]
      rfl
    · obtain ⟨file, hfile⟩ := Option.ne_none_iff_exists'.mp (hp.one_taken_iff.not.mp htaken)
      rw [hp.files, if_neg htaken, hfile]
      cases s.requested.stdout <;> rfl
  · rw [hfiles]
    by_cases htaken : 2 = readEnd ∨ 2 = writeEnd
    · rw [if_pos htaken, if_pos (hp.two_taken_iff.mp htaken)]
    · rw [if_neg htaken, if_neg (hp.two_taken_iff.not.mp htaken), childFiles_two, hp.files 2,
        if_neg htaken, hp.streams, h.errorTarget_eq hp.one_kept]
  · rw [hfiles, childFiles_of_ne _ h₁ h₂, hp.files]
    split_ifs with htaken
    · exact ((hp.taken_iff fd).mp htaken).1.symm
    · rfl

/-- A child of an object that was used as it should be gets to `execvp`, and its descriptors are
explained by what was requested and by the numbers that were open. -/
theorem files_of_child (size : Nat) (as : List Action)
    (hlegal : machine.Legal (State.new (.empty size)) as)
    (hmeets : machine.Meets State.Admits (State.new (.empty size)) as) {s : State}
    (hrun : as.foldlM machine.step (State.new (.empty size)) = .ok s)
    (settings : Settings) (environ : List Str) (answers : Answers) {outcome : Outcome}
    (h : s.launch settings environ answers = .ok outcome) : s.Explains outcome := by
  have hinv : Inv s := by
    refine Machine.Holds.result ?_ hrun
    exact Machine.Holds.of_invariant (fun _ h => h)
      (fun s a h hlegal hadmits => ⟨_, step_of_admits hadmits, h.perform hlegal hadmits⟩)
      (Inv.new size) hlegal hmeets
  obtain ⟨readEnd, writeEnd, s', hpipe⟩ := State.exists_pipe_of_launch h
  rw [State.launch_eq hpipe, Except.ok.injEq] at h
  have hp := Piped.of_exec hpipe
  have hread : childFiles s' s.requested readEnd ≠ none :=
    childFiles_ne_none (by rw [hp.files, if_pos (Or.inl rfl)]; exact Option.some_ne_none _)
  subst h
  rcases startChild_cases settings environ answers (hp.redirects hinv) hread hp.ordered.ne' with
    hkilled | ⟨errorType, hreported⟩ | ⟨image, hruns, himage⟩
  · rw [hkilled]
    trivial
  · rw [hreported]
    exact hp.reported hinv errorType
  · rw [hruns]
    exact hp.runs hinv himage

/-- The parent closes its standard output, whose number a redirection gets. -/
def detachedRun : List Action :=
  [.userOpen 0, .userOpen 1, .userOpen 2, .userClose 1, .redirectToPath .stderr "log".toList true]

theorem files_of_child_detached : ∃ s image file,
    detachedRun.foldlM machine.step (State.new (.empty 8)) = .ok s ∧
      s.launch ⟨["sort".toList], ∅, [], none⟩ [] ⟨true, true⟩ = .ok (.runs image) ∧
      s.Explains (.runs image) ∧
      s.launch ⟨["sort".toList], ∅, [], none⟩ [] ⟨true, false⟩ =
        .ok (.reported Handshake.execError file) ∧
      s.Explains (.reported Handshake.execError file) := by
  have hlegal : machine.Legal (State.new (.empty 8)) detachedRun :=
    .cons trivial rfl (.cons trivial rfl (.cons trivial rfl (.cons rfl rfl (.cons rfl rfl trivial))))
  have hmeets : machine.Meets State.Admits (State.new (.empty 8)) detachedRun :=
    .cons trivial rfl (.cons trivial rfl (.cons trivial rfl (.cons trivial rfl
      (.cons trivial rfl trivial))))
  have hexplains := @files_of_child 8 detachedRun hlegal hmeets _ rfl
    ⟨["sort".toList], ∅, [], none⟩ []
  exact ⟨_, _, _, rfl, rfl, hexplains ⟨true, true⟩ rfl, rfl, hexplains ⟨true, false⟩ rfl⟩

end

end Utilmm.System.Redirection
