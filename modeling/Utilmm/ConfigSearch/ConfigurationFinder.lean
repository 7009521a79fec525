import Utilmm.Core.Except
import Utilmm.Text

/-!
# The search for configuration files

A configuration file is searched for in the current directory and then in the directories of
`ROCK_CONFIG_PATH`. For a system configuration the directories are searched twice, first below
`BASENAME/ID` and then below `BASENAME`. A path is the text of it. What Boost.Filesystem does with
paths is a parameter, and the warnings on `stderr` are the state.
-/

namespace Utilmm

namespace ConfigurationFinder

/-- The functions of Boost.Filesystem. -/
structure FileSystem where
  /-- `operator/` -/
  slash : Str → Str → Str
  exist : Str → Bool
  systemComplete : Str → Str

/-- What they do: to append the empty path has no effect, and a path that exists is completed to
a path which is not empty. -/
structure FileSystem.Lawful (fs : FileSystem) : Prop where
  slash_nil : ∀ p, fs.slash p [] = p
  systemComplete_ne_nil : ∀ p, fs.exist p = true → fs.systemComplete p ≠ []

inductive Fault
  /-- An access to an element which is not there. -/
  | noElement (i : Nat)
  deriving DecidableEq

/-- `v[i]` -/
def element (v : List Str) (i : Nat) : Throwing Fault (List Str) Str :=
  match v[i]? with
  | some x => pure x
  | none => throw (.noElement i)

def warn (line : Str) : Throwing Fault (List Str) Unit := modify (· ++ [line])

variable (fs : FileSystem)

/-- The loop of `search`. -/
def searchLoop (searchFile : Str) : List Str → Str
  | [] => []
  | dir :: searchDirectories =>
    if fs.exist (fs.slash dir searchFile) then fs.systemComplete (fs.slash dir searchFile)
    else searchLoop searchFile searchDirectories

def search (file : Str) (searchDirectories : List Str) : Str :=
  if file ≠ [] then
    if fs.exist file then fs.systemComplete file else searchLoop fs file searchDirectories
  else []

/-- `find`, where `configEnv` is the value of the environment variable. -/
def find (configEnv : Option Str) (configFile packagename : Str) :
    Throwing Fault (List Str) Str := do
  let configurationDir := configEnv.getD []
  let searchDirectories ← if configurationDir = [] then do
      warn "WARNING: ConfigurationFinder: environment variable ROCK_CONFIG_PATH is not set".toList
      pure []
    else pure (configurationDir.splitOn ':')
  let searchDirectories :=
    if packagename ≠ [] then searchDirectories.map (fs.slash · packagename) else searchDirectories
  return search fs configFile searchDirectories

def warnInvalid (systemId : Str) (result : List Str) : Throwing Fault (List Str) Unit :=
  if result.length ≠ 2 then do
    warn "WARNING: ConfigurationFinder: Invalid systemConfig provided".toList
    warn ("ConfigurationFinder: searching in basedir ".toList ++ systemId)
  else pure ()

/-- The components of a file but the last one, as a path. -/
def subdirectory (result : List Str) : Throwing Fault (List Str) Str :=
  if 2 ≤ result.length then
    (List.range (result.length - 1)).foldlM
      (fun subdir i => do return fs.slash subdir (← element result i)) []
  else pure []

def findSystemConfig (configEnv : Option Str) (file systemId : Str) :
    Throwing Fault (List Str) Str := do
  let result := systemId.splitOn '_'
  warnInvalid systemId result
  let baseDir ← element result 0
  let id ← element result 1
  let systemIdDir := fs.slash baseDir id
  let result := file.splitOn '/'
  let searchFile ← element result (result.length - 1)
  let subdir ← subdirectory fs result
  let (systemIdDir, baseDir) :=
    if subdir ≠ [] then (fs.slash systemIdDir subdir, fs.slash baseDir subdir)
    else (systemIdDir, baseDir)
  let systemIdConfig ← find fs configEnv searchFile systemIdDir
  let baseConfig ← find fs configEnv searchFile baseDir
  return if systemIdConfig ≠ [] then systemIdConfig else baseConfig

/-! ### The order of the places -/

/-- The directories of `ROCK_CONFIG_PATH`. -/
def directories (configEnv : Option Str) : List Str :=
  match configEnv with
  | none | some [] => []
  | some (c :: s) => (c :: s).splitOn ':'

/-- The last component of a file, and the directory of the other ones. -/
def name (file : Str) : Str := (file.splitOn '/').getLast (List.splitOn_ne_nil _ _)

def subdir (file : Str) : Str := (file.splitOn '/').dropLast.foldl fs.slash []

/-- The first place which is there, completed, or the empty text. -/
def firstPlace : List Str → Str
  | [] => []
  | place :: places => if fs.exist place then fs.systemComplete place else firstPlace places

/-- Below `BASENAME/ID`, if there is an `ID`, and below `BASENAME`. -/
def roots (file systemId : Str) : List Str :=
  match systemId.splitOn '_' with
  | [] => []
  | [base] => [fs.slash base (subdir fs file)]
  | base :: id :: _ =>
    [fs.slash (fs.slash base id) (subdir fs file), fs.slash base (subdir fs file)]

/-- The places of a system configuration. A file without a name has none. -/
def places (configEnv : Option Str) (file systemId : Str) : List Str :=
  if name file = [] then [] else
    name file :: (roots fs file systemId).flatMap fun root =>
      (directories configEnv).map fun dir => fs.slash (fs.slash dir root) (name file)

variable {fs}

/-! ### Paths of POSIX -/

/-- A separator is put in between unless there is one or nothing is appended. -/
def append (p q : Str) : Str :=
  if q = [] then p
  else if p = [] || p.getLast? = some '/' || q.head? = some '/' then p ++ q
  else p ++ '/' :: q

/-- The functions for a current directory and the paths that exist, where the empty path does
not. -/
def posix (cwd : Str) (exist : Str → Bool) : FileSystem where
  slash := append
  exist p := p ≠ [] && exist p
  systemComplete p := if p.head? = some '/' then p else append cwd p

lemma posix_lawful (cwd : Str) (exist : Str → Bool) : (posix cwd exist).Lawful where
  slash_nil p := rfl
  systemComplete_ne_nil p hp := by
    have hne : p ≠ [] := by
      rw [posix, Bool.and_eq_true, decide_eq_true_eq] at hp
      exact hp.1
    simp only [posix, append, if_neg hne]
    split_ifs <;> simp [hne]

/-! ### Lists and their elements -/

@[simp] lemma exec_warn (line : Str) (log : List Str) :
    Throwing.exec (warn line) log = (.ok (), log ++ [line]) := rfl

lemma exec_element {v : List Str} {i : Nat} (h : i < v.length) (log : List Str) :
    Throwing.exec (element v i) log = (.ok v[i], log) := by
  rw [element, List.getElem?_eq_getElem h]
  rfl

lemma exec_element_of_le {v : List Str} {i : Nat} (h : v.length ≤ i) (log : List Str) :
    Throwing.exec (element v i) log = (.error (.noElement i), log) := by
  rw [element, List.getElem?_eq_none h]
  rfl

/-- The loop over the components but the last one. -/
lemma exec_range_foldlM (v : List Str) {n : Nat} (hn : n ≤ v.length) (log : List Str) :
    Throwing.exec ((List.range n).foldlM
      (fun subdir i => do return fs.slash subdir (← element v i)) []) log =
      (.ok ((v.take n).foldl fs.slash []), log) := by
  induction n with
  | zero => rfl
  | succ n ih =>
    rw [List.range_succ, List.foldlM_append, Throwing.exec_bind_ok (ih (Nat.le_of_succ_le hn)),
      List.foldlM_cons, Throwing.exec_bind, Throwing.exec_bind_ok (exec_element hn log),
      List.take_succ_eq_append_getElem hn, List.foldl_append]
    rfl

lemma exec_warnInvalid (systemId : Str) (result log : List Str) :
    ∃ log', Throwing.exec (warnInvalid systemId result) log = (.ok (), log') := by
  rw [warnInvalid]
  split_ifs
  · exact ⟨_, rfl⟩
  · exact ⟨log, rfl⟩

lemma exec_subdirectory (file : Str) (log : List Str) :
    Throwing.exec (subdirectory fs (file.splitOn '/')) log = (.ok (subdir fs file), log) := by
  rw [subdirectory, subdir, List.dropLast_eq_take]
  split_ifs with h
  · exact exec_range_foldlM _ (Nat.sub_le _ _) log
  · rw [show (file.splitOn '/').length - 1 = 0 by omega]
    rfl

/-- The last component is there. -/
lemma exec_element_last (file : Str) (log : List Str) :
    Throwing.exec (element (file.splitOn '/') ((file.splitOn '/').length - 1)) log =
      (.ok (name file), log) := by
  have hpos := List.length_pos_iff.mpr (List.splitOn_ne_nil '/' file)
  rw [exec_element (Nat.sub_lt hpos Nat.one_pos), name, List.getLast_eq_getElem]

lemma splitOn_of_notMem {a : Char} {s : Str} (h : a ∉ s) : s.splitOn a = [s] :=
  List.splitOn_eq_singleton h

lemma splitOn_of_mem {a : Char} {s : Str} (h : a ∈ s) :
    ∃ x y l, s.splitOn a = x :: y :: l := by
  obtain ⟨s₁, s₂, rfl⟩ := List.append_of_mem h
  obtain ⟨x, l₁, h₁⟩ := List.exists_cons_of_ne_nil (List.splitOn_ne_nil a s₁)
  obtain ⟨y, l₂, h₂⟩ := List.exists_cons_of_ne_nil (List.splitOn_ne_nil a s₂)
  rw [List.splitOn_append_cons_self, h₁, h₂]
  cases l₁ with
  | nil => exact ⟨x, y, l₂, rfl⟩
  | cons z l₁ => exact ⟨x, z, l₁ ++ y :: l₂, rfl⟩

/-! ### A search finds the first place -/

lemma searchLoop_eq (searchFile : Str) (dirs : List Str) :
    searchLoop fs searchFile dirs = firstPlace fs (dirs.map (fs.slash · searchFile)) := by
  induction dirs with
  | nil => rfl
  | cons dir dirs ih => rw [searchLoop, List.map_cons, firstPlace, ih]

lemma search_eq {file : Str} (h : file ≠ []) (dirs : List Str) :
    search fs file dirs = firstPlace fs (file :: dirs.map (fs.slash · file)) := by
  rw [search, if_pos h, firstPlace, searchLoop_eq]

/-- To append the empty package name has no effect. -/
lemma exec_find (hfs : fs.Lawful) (configEnv : Option Str) (configFile packagename : Str)
    (log : List Str) : ∃ log', Throwing.exec (find fs configEnv configFile packagename) log =
      (.ok (search fs configFile ((directories configEnv).map (fs.slash · packagename))), log') := by
  have hmap : ∀ dirs : List Str, (if packagename ≠ [] then dirs.map (fs.slash · packagename)
      else dirs) = dirs.map (fs.slash · packagename) := by
    intro dirs
    split_ifs with h
    · rfl
    · rw [not_not.mp h]
      simp [hfs.slash_nil]
  rw [find]
  match configEnv with
  | none | some [] => exact ⟨_, by simp only [hmap]; rfl⟩
  | some (c :: s) => exact ⟨_, by simp only [hmap]; rfl⟩

lemma firstPlace_append (hfs : fs.Lawful) (places places' : List Str) :
    firstPlace fs (places ++ places') =
      if firstPlace fs places ≠ [] then firstPlace fs places else firstPlace fs places' := by
  induction places with
  | nil => rfl
  | cons place places ih =>
    rw [List.cons_append, firstPlace, firstPlace]
    by_cases h : fs.exist place = true
    · rw [if_pos h, if_pos h, if_pos (hfs.systemComplete_ne_nil place h)]
    · rw [if_neg h, if_neg h, ih]

/-- Two searches, both of which look into the current directory first. -/
lemma firstPlace_cons_append (hfs : fs.Lawful) (place : Str) (places places' : List Str) :
    firstPlace fs (place :: (places ++ places')) =
      if firstPlace fs (place :: places) ≠ [] then firstPlace fs (place :: places)
      else firstPlace fs (place :: places') := by
  rw [← List.cons_append, firstPlace_append hfs]
  by_cases h : fs.exist place = true
  · have hne := hfs.systemComplete_ne_nil place h
    rw [firstPlace, if_pos h, if_pos hne, if_pos hne]
  · rw [firstPlace, if_neg h, firstPlace, if_neg h]

/-- With a `BASENAME` and an `ID` both searches take place, and the first one counts. -/
lemma exec_findSystemConfig (hfs : fs.Lawful) {base id : Str} {l : List Str}
    (configEnv : Option Str) (file systemId : Str) (h : systemId.splitOn '_' = base :: id :: l)
    (log : List Str) : ∃ log', Throwing.exec (findSystemConfig fs configEnv file systemId) log =
      (.ok (firstPlace fs (places fs configEnv file systemId)), log') := by
  obtain ⟨log₁, hwarn⟩ := exec_warnInvalid systemId (base :: id :: l) log
  have hroots : (if subdir fs file ≠ [] then
      (fs.slash (fs.slash base id) (subdir fs file), fs.slash base (subdir fs file))
      else (fs.slash base id, base)) =
      (fs.slash (fs.slash base id) (subdir fs file), fs.slash base (subdir fs file)) := by
    split_ifs with hsub
    · rfl
    · rw [not_not.mp hsub, hfs.slash_nil, hfs.slash_nil]
  obtain ⟨log₂, hid⟩ := exec_find hfs configEnv (name file)
    (fs.slash (fs.slash base id) (subdir fs file)) log₁
  obtain ⟨log₃, hbase⟩ := exec_find hfs configEnv (name file)
    (fs.slash base (subdir fs file)) log₂
  refine ⟨log₃, ?_⟩
  rw [findSystemConfig, h, Throwing.exec_bind_ok hwarn,
    Throwing.exec_bind_ok (exec_element (Nat.zero_lt_succ _) log₁),
    Throwing.exec_bind_ok (exec_element (Nat.succ_lt_succ (Nat.zero_lt_succ _)) log₁),
    Throwing.exec_bind_ok (exec_element_last file log₁),
    Throwing.exec_bind_ok (exec_subdirectory file log₁)]
  simp only [List.getElem_cons_zero, List.getElem_cons_succ, hroots]
  rw [Throwing.exec_bind_ok hid, Throwing.exec_bind_ok hbase, Throwing.exec_pure, places, roots, h]
  by_cases hname : name file = []
  · rw [if_pos hname, hname]
    rfl
  · rw [if_neg hname, search_eq hname, search_eq hname]
    simp only [List.flatMap_cons, List.flatMap_nil, List.append_nil, List.map_map]
    rw [firstPlace_cons_append hfs]
    rfl

/-- Without an underscore there is no second element, and the code goes on after its warning. -/
lemma exec_findSystemConfig_of_notMem (fs : FileSystem) {systemId : Str} (configEnv : Option Str)
    (file : Str) (h : '_' ∉ systemId) (log : List Str) : ∃ log',
    Throwing.exec (findSystemConfig fs configEnv file systemId) log =
      (.error (.noElement 1), log') := by
  obtain ⟨log₁, hwarn⟩ := exec_warnInvalid systemId [systemId] log
  refine ⟨log₁, ?_⟩
  rw [findSystemConfig, splitOn_of_notMem h, Throwing.exec_bind_ok hwarn,
    Throwing.exec_bind_ok (exec_element (Nat.zero_lt_succ _) log₁),
    Throwing.exec_bind_error (exec_element_of_le (v := [systemId]) (i := 1) le_rfl log₁)]

/-- The file is found in its first place and no element is missing, if and only if the identifier
has an underscore. -/
theorem findSystemConfig_firstPlace_iff (fs : FileSystem) (hfs : fs.Lawful)
    (configEnv : Option Str) (file systemId : Str) (log : List Str) :
    (∃ log', Throwing.exec (findSystemConfig fs configEnv file systemId) log =
      (.ok (firstPlace fs (places fs configEnv file systemId)), log')) ↔ '_' ∈ systemId := by
  constructor
  · intro hfound
    by_contra hmem
    obtain ⟨log₁, hfault⟩ := exec_findSystemConfig_of_notMem fs configEnv file hmem log
    obtain ⟨log₂, hok⟩ := hfound
    cases hok.symm.trans hfault
  · intro hmem
    obtain ⟨base, id, l, h⟩ := splitOn_of_mem hmem
    exact exec_findSystemConfig hfs configEnv file systemId h log

theorem findSystemConfig_firstPlace_iff_secondDirectory :
    ∃ log', Throwing.exec (findSystemConfig (posix "/home".toList fun p =>
        p = "/b/x/1/d/f".toList ∨ p = "/a/x/d/f".toList) (some "/a:/b".toList)
        "d/f".toList "x_1".toList) [] = (.ok "/b/x/1/d/f".toList, log') :=
  (findSystemConfig_firstPlace_iff _ (posix_lawful _ _) (some "/a:/b".toList) "d/f".toList
    "x_1".toList []).mpr (by decide)

/-- With the identifier `x` the element behind the only one is read. -/
theorem not_findSystemConfig_firstPlace_baseOnly : ¬ ∃ log',
    Throwing.exec (findSystemConfig (posix "/home".toList fun p => p = "/a/x/f".toList)
      (some "/a".toList) "f".toList "x".toList) [] = (.ok "/a/x/f".toList, log') := by
  rintro ⟨log', hok⟩
  obtain ⟨log₁, hfault⟩ := exec_findSystemConfig_of_notMem
    (posix "/home".toList fun p => p = "/a/x/f".toList) (some "/a".toList) "f".toList
    (show '_' ∉ "x".toList by decide) []
  cases hok.symm.trans hfault

end ConfigurationFinder

end Utilmm
