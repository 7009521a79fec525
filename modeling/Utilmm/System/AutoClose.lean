import Utilmm.Core.Except
import Utilmm.Core.Ledger
import Utilmm.Core.Runs

/-!
# Guards for files

An `auto_close` has a file descriptor or a stream, and closes it when it is destroyed. It has a
member for each of them, and `close` looks at the descriptor only if there is no stream. The system
closes what it is told to close also when it reports an error.
-/

namespace Utilmm.System

/-- What has to be closed. The descriptor `-1` and the stream zero stand for nothing. -/
inductive Handle
  | fileno (fd : Int)
  | stream (file : Nat)
  deriving DecidableEq, Repr

/-- A handle which stands for something. -/
def Handle.Valid : Handle → Prop
  | .fileno fd => fd ≠ -1
  | .stream file => file ≠ 0

instance : DecidablePred Handle.Valid
  | .fileno fd => inferInstanceAs (Decidable (fd ≠ -1))
  | .stream file => inferInstanceAs (Decidable (file ≠ 0))

inductive FileFault
  /-- Something was closed which is not open. -/
  | notOpen
  deriving DecidableEq, Repr

/-- `::close` and `fclose`. -/
def shut (alive : Handle → Bool) (handle : Handle) : Except FileFault (Handle → Bool) :=
  if alive handle then .ok (Function.update alive handle false) else .error .notOpen

structure AutoClose where
  fileno : Int
  stream : Nat
  deriving DecidableEq, Repr

namespace AutoClose

/-- `auto_close()`. -/
def new : AutoClose := ⟨-1, 0⟩

/-- `auto_close(fileno)` and `auto_close(stream)`. -/
def ofHandle : Handle → AutoClose
  | .fileno fd => ⟨fd, 0⟩
  | .stream file => ⟨-1, file⟩

/-- `auto_close::detach`. -/
def detach (_ : AutoClose) : AutoClose := ⟨-1, 0⟩

/-- What `close` closes. -/
def target (a : AutoClose) : Option Handle :=
  if a.stream ≠ 0 then some (.stream a.stream)
  else if a.fileno ≠ -1 then some (.fileno a.fileno)
  else none

/-- `auto_close::close`, where the system may report an error, and whether it throws. -/
def close (a : AutoClose) (alive : Handle → Bool) (fails : Bool) :
    Except FileFault (AutoClose × (Handle → Bool) × Bool) :=
  match a.target with
  | none => .ok (a.detach, alive, false)
  | some handle => do
    let alive ← shut alive handle
    return (a.detach, alive, fails)

/-- `m_fileno = fileno` and `m_stream = stream`. -/
def assign (a : AutoClose) : Handle → AutoClose
  | .fileno fd => { a with fileno := fd }
  | .stream file => { a with stream := file }

/-- `auto_close::reset`. -/
def reset (a : AutoClose) (alive : Handle → Bool) (handle : Handle) (fails : Bool) :
    Except FileFault (AutoClose × (Handle → Bool) × Bool) := do
  let (a, alive, thrown) ← a.close alive fails
  return (if thrown then a else a.assign handle, alive, thrown)

/-- `handle<int>`, without a result if it throws. -/
def handleInt (a : AutoClose) : Option Int := if a.fileno = -1 then none else some a.fileno

/-- `handle<FILE*>`, without a result if it throws. -/
def handleFile (a : AutoClose) : Option Nat := if a.stream = 0 then none else some a.stream

/-- It has no descriptor and a stream at the same time. -/
def Single (a : AutoClose) : Prop := a.fileno = -1 ∨ a.stream = 0

variable {a : AutoClose} {handle : Handle}

lemma single_ofHandle (handle : Handle) : (ofHandle handle).Single := by
  cases handle with
  | fileno fd => exact .inr rfl
  | stream file => exact .inl rfl

lemma target_ofHandle (handle : Handle) :
    (ofHandle handle).target = if handle.Valid then some handle else none := by
  cases handle with
  | fileno fd => by_cases h : fd = -1 <;> simp [target, ofHandle, Handle.Valid, h]
  | stream file => by_cases h : file = 0 <;> simp [target, ofHandle, Handle.Valid, h]

@[simp] lemma target_detach (a : AutoClose) : a.detach.target = none := rfl

lemma valid_of_target (h : a.target = some handle) : handle.Valid := by
  rw [target] at h
  split_ifs at h with hstream hfileno
  · cases h
    exact hstream
  · cases h
    exact hfileno

/-- A guard with one member set shows what it closes. -/
lemma Single.handles (h : a.Single) :
    (∀ fd, a.handleInt = some fd ↔ a.target = some (.fileno fd)) ∧
      ∀ file, a.handleFile = some file ↔ a.target = some (.stream file) := by
  rcases a with ⟨fileno, stream⟩
  rcases h with h | h
  · obtain rfl : fileno = -1 := h
    by_cases hstream : stream = 0 <;> simp [handleInt, handleFile, target, hstream]
  · obtain rfl : stream = 0 := h
    by_cases hfileno : fileno = -1 <;> simp [handleInt, handleFile, target, hfileno]

end AutoClose

/-! ### Runs -/

namespace AutoClose

/-- Several guards, and their user. -/
structure State where
  /-- What is open. -/
  alive : Handle → Bool
  /-- What the user has to close. -/
  user : List Handle
  /-- The guards, `none` once one is destroyed. -/
  guards : List (Option AutoClose)

def State.new : State := ⟨fun _ => false, [], []⟩

inductive Op
  /-- The user opens something. -/
  | userOpen (handle : Handle)
  /-- The user closes something. -/
  | userClose (handle : Handle)
  /-- A guard is made, for what the user passes or for nothing. -/
  | make (handle : Option Handle)
  | close (i : Nat) (fails : Bool)
  | reset (i : Nat) (handle : Handle) (fails : Bool)
  | detach (i : Nat)
  /-- `~auto_close` -/
  | destroy (i : Nat) (fails : Bool)
  deriving DecidableEq, Repr

namespace State

def guard (s : State) (i : Nat) : Option AutoClose := s.guards[i]?.join

def exec (s : State) : Op → Except FileFault State
  | .userOpen handle =>
    .ok { s with alive := Function.update s.alive handle true, user := handle :: s.user }
  | .userClose handle => do
    let alive ← System.shut s.alive handle
    return { s with alive, user := s.user.erase handle }
  | .make none => .ok { s with guards := s.guards ++ [some AutoClose.new] }
  | .make (some handle) =>
    .ok { s with user := s.user.erase handle, guards := s.guards ++ [some (ofHandle handle)] }
  | .close i fails =>
    match s.guard i with
    | none => .ok s
    | some a => do
      let (a, alive, _) ← a.close s.alive fails
      return { s with alive, guards := s.guards.set i (some a) }
  | .reset i handle fails =>
    match s.guard i with
    | none => .ok s
    | some a => do
      let (a, alive, thrown) ← a.reset s.alive handle fails
      -- if it throws the user keeps what was passed
      let user := if thrown then s.user else s.user.erase handle
      return { s with alive, user, guards := s.guards.set i (some a) }
  | .detach i =>
    match s.guard i with
    | none => .ok s
    | some a =>
      .ok { s with user := a.target.toList ++ s.user, guards := s.guards.set i (some a.detach) }
  | .destroy i fails =>
    match s.guard i with
    | none => .ok s
    | some a => do
      let (_, alive, _) ← a.close s.alive fails
      return { s with alive, guards := s.guards.set i none }

/-- The user opens what was not open, and passes and closes what is theirs. The guards are alive. -/
def Legal (s : State) : Op → Prop
  | .userOpen handle => handle.Valid ∧ s.alive handle = false
  | .userClose handle => handle ∈ s.user
  | .make handle => ∀ h ∈ handle, ¬ h.Valid ∨ h ∈ s.user
  | .reset i handle _ => (s.guard i).isSome ∧ (¬ handle.Valid ∨ handle ∈ s.user)
  | .close i _ | .detach i | .destroy i _ => (s.guard i).isSome

/-- What the user and the guards have to close. -/
def holdings (s : State) : Multiset Handle := s.user + s.guards.filterMap (·.bind target)

end State

def machine : Machine State Op FileFault where
  legal := State.Legal
  step := State.exec

/-! ### Sound states -/

open Ledger

variable {alive : Handle → Bool} {held : Multiset Handle}

/-- A guard closes what it has. -/
lemma close_eq_ok (a : AutoClose) (fails : Bool)
    (h : Balanced (single alive) ((a.target.toList : Multiset Handle) + held)) :
    ∃ alive', a.close alive fails = .ok (a.detach, alive', a.target.isSome && fails) ∧
      Balanced (single alive') held := by
  cases htarget : a.target with
  | none =>
    rw [htarget] at h
    exact ⟨alive, by simp only [close, htarget]; rfl, by simpa using h⟩
  | some handle =>
    rw [htarget] at h
    obtain ⟨halive, hrest⟩ := Balanced.delete h
    refine ⟨_, ?_, hrest⟩
    simp only [close, htarget, shut, if_pos halive]
    rfl

/-- Each open handle has one owner, who closes it. -/
structure State.Sound (s : State) : Prop where
  balanced : Balanced (single s.alive) s.holdings
  valid : ∀ handle ∈ s.user, handle.Valid
  guards : ∀ a, some a ∈ s.guards → a.Single

namespace State.Sound

variable {s : State} {i : Nat} {a : AutoClose} {handle : Handle}

lemma new : Sound .new where
  balanced := Balanced.empty
  valid := by simp [State.new]
  guards := by simp [State.new]

lemma getElem?_of_guard (hi : s.guard i = some a) : s.guards[i]? = some (some a) :=
  Option.join_eq_some_iff.mp hi

/-- What the other guards have. -/
def others (s : State) (i : Nat) : Multiset Handle := (s.guards.eraseIdx i).filterMap (·.bind target)

lemma holdings_eq (hi : s.guard i = some a) :
    s.holdings = (a.target.toList : Multiset Handle) + (s.user + others s i) := by
  rw [holdings, filterMap_eq (getElem?_of_guard hi), others, Option.bind_some]
  abel

/-- The user parts with a handle, or passes one that stands for nothing. -/
lemma user_eq (h : s.Sound) (hhandle : ¬ handle.Valid ∨ handle ∈ s.user) :
    (s.user : Multiset Handle) = (ofHandle handle).target.toList + s.user.erase handle := by
  rw [target_ofHandle]
  by_cases hvalid : handle.Valid
  · have hmem := hhandle.resolve_left (not_not.mpr hvalid)
    rw [if_pos hvalid, Multiset.coe_eq_coe.mpr (List.perm_cons_erase hmem)]
    rfl
  · have hmem : handle ∉ s.user := fun hmem => hvalid (h.valid handle hmem)
    rw [if_neg hvalid, List.erase_of_not_mem hmem]
    simp

lemma valid_erase (h : s.Sound) : ∀ handle' ∈ s.user.erase handle, handle'.Valid :=
  fun handle' hmem => h.valid handle' (List.mem_of_mem_erase hmem)

/-- Guard `i` and the user have something else. -/
lemma update (h : s.Sound) (hi : s.guard i = some a) {alive : Handle → Bool} {user : List Handle}
    {b : Option AutoClose} (huser : ∀ handle ∈ user, handle.Valid) (hb : ∀ a, b = some a → a.Single)
    (hbalanced : Balanced (single alive) (((b.bind target).toList : Multiset Handle) +
      (user + others s i))) :
    Sound { s with alive, user, guards := s.guards.set i b } where
  balanced := by
    have hlt := (List.getElem?_eq_some_iff.mp (getElem?_of_guard hi)).1
    rw [holdings, filterMap_set hlt, add_left_comm]
    exact hbalanced
  valid := huser
  guards a hmem := (List.mem_or_eq_of_mem_set hmem).elim (h.guards a) fun heq => hb a heq.symm

lemma userOpen (h : s.Sound) (hvalid : handle.Valid) (hfresh : s.alive handle = false) :
    Sound { s with alive := Function.update s.alive handle true, user := handle :: s.user } where
  balanced := by
    rw [holdings, ← Multiset.cons_coe, Multiset.cons_add]
    exact h.balanced.create hfresh
  valid := List.forall_mem_cons.mpr ⟨hvalid, h.valid⟩
  guards := h.guards

lemma userClose (h : s.Sound) (hhandle : handle ∈ s.user) :
    ∃ s', s.exec (.userClose handle) = .ok s' ∧ s'.Sound := by
  have hheld : s.holdings = handle ::ₘ State.holdings { s with user := s.user.erase handle } := by
    rw [holdings, holdings, Multiset.coe_eq_coe.mpr (List.perm_cons_erase hhandle),
      ← Multiset.cons_coe, Multiset.cons_add]
  obtain ⟨halive, hrest⟩ := (hheld ▸ h.balanced).delete
  let s' : State := { s with
    alive := Function.update s.alive handle false, user := s.user.erase handle }
  refine ⟨s', ?_, hrest, h.valid_erase, h.guards⟩
  simp only [State.exec, System.shut, if_pos halive]
  rfl

lemma make (h : s.Sound) (hhandle : ¬ handle.Valid ∨ handle ∈ s.user) : Sound { s with
    user := s.user.erase handle, guards := s.guards ++ [some (ofHandle handle)] } where
  balanced := by
    have hguard : [some (ofHandle handle)].filterMap (·.bind target) =
        (ofHandle handle).target.toList := by
      cases htarget : (ofHandle handle).target <;> simp [htarget]
    have hsame : s.holdings = State.holdings { s with
        user := s.user.erase handle, guards := s.guards ++ [some (ofHandle handle)] } := by
      simp only [holdings, h.user_eq hhandle, List.filterMap_append, hguard, ← Multiset.coe_add]
      abel
    exact hsame ▸ h.balanced
  valid := h.valid_erase
  guards a hmem := (List.mem_append.mp hmem).elim (h.guards a) fun hmem => by
    cases List.mem_singleton.mp hmem
    exact single_ofHandle handle

lemma makeNone (h : s.Sound) : Sound { s with guards := s.guards ++ [some AutoClose.new] } := by
  have hnot : Handle.fileno (-1) ∉ s.user := fun hmem => h.valid _ hmem rfl
  have hnull : ¬ (Handle.fileno (-1)).Valid ∨ Handle.fileno (-1) ∈ s.user :=
    .inl fun hvalid => hvalid rfl
  have hmake := h.make hnull
  rwa [List.erase_of_not_mem hnot] at hmake

/-- A guard closes what it has. -/
lemma closed (h : s.Sound) (hi : s.guard i = some a) (fails : Bool) :
    ∃ alive thrown, a.close s.alive fails = .ok (a.detach, alive, thrown) ∧
      Balanced (single alive) (s.user + others s i) :=
  (a.close_eq_ok fails (holdings_eq hi ▸ h.balanced)).imp fun _ h => ⟨_, h⟩

lemma close (h : s.Sound) (hi : s.guard i = some a) (fails : Bool) :
    ∃ s', s.exec (.close i fails) = .ok s' ∧ s'.Sound := by
  obtain ⟨alive, thrown, hclose, halive⟩ := h.closed hi fails
  let s' : State := { s with alive, guards := s.guards.set i (some a.detach) }
  refine ⟨s', ?_, h.update hi h.valid ?_ (by simpa using halive)⟩
  · simp only [State.exec, hi, hclose]
    rfl
  · rintro b ⟨rfl⟩
    exact .inl rfl

lemma destroy (h : s.Sound) (hi : s.guard i = some a) (fails : Bool) :
    ∃ s', s.exec (.destroy i fails) = .ok s' ∧ s'.Sound := by
  obtain ⟨alive, thrown, hclose, halive⟩ := h.closed hi fails
  let s' : State := { s with alive, guards := s.guards.set i none }
  refine ⟨s', ?_, h.update hi h.valid (by simp) (by simpa using halive)⟩
  simp only [State.exec, hi, hclose]
  rfl

lemma detach (h : s.Sound) (hi : s.guard i = some a) : Sound { s with
    user := a.target.toList ++ s.user, guards := s.guards.set i (some a.detach) } := by
  refine h.update hi (fun handle hmem => ?_) ?_ ?_
  · rcases List.mem_append.mp hmem with hmem | hmem
    · exact valid_of_target (Option.mem_toList.mp hmem)
    · exact h.valid handle hmem
  · rintro b ⟨rfl⟩
    exact .inl rfl
  · have hbalanced := holdings_eq hi ▸ h.balanced
    simpa [← Multiset.coe_add, add_assoc] using hbalanced

/-- If the guard cannot close what it had without an error, it does not take what the user passes. -/
lemma reset (h : s.Sound) (hi : s.guard i = some a) (hhandle : ¬ handle.Valid ∨ handle ∈ s.user)
    (fails : Bool) : ∃ s', s.exec (.reset i handle fails) = .ok s' ∧ s'.Sound := by
  obtain ⟨alive, thrown, hclose, halive⟩ := h.closed hi fails
  cases thrown with
  | true =>
    let s' : State := { s with alive, guards := s.guards.set i (some a.detach) }
    refine ⟨s', ?_, h.update hi h.valid ?_ (by simpa using halive)⟩
    · simp only [State.exec, hi, AutoClose.reset, hclose]
      rfl
    · rintro b ⟨rfl⟩
      exact .inl rfl
  | false =>
    let s' : State := { s with
      alive, user := s.user.erase handle, guards := s.guards.set i (some (ofHandle handle)) }
    refine ⟨s', ?_, h.update hi h.valid_erase ?_ ?_⟩
    · simp only [State.exec, hi, AutoClose.reset, hclose]
      rfl
    · rintro b ⟨rfl⟩
      exact single_ofHandle handle
    · rw [h.user_eq hhandle, add_assoc] at halive
      exact halive

lemma exec (h : s.Sound) {op : Op} (hlegal : s.Legal op) :
    ∃ s', s.exec op = .ok s' ∧ s'.Sound := by
  cases op with
  | userOpen handle => exact ⟨_, rfl, h.userOpen hlegal.1 hlegal.2⟩
  | userClose handle => exact h.userClose hlegal
  | make handle =>
    cases handle with
    | none => exact ⟨_, rfl, h.makeNone⟩
    | some handle => exact ⟨_, rfl, h.make (hlegal handle rfl)⟩
  | close i fails =>
    obtain ⟨a, hi⟩ := Option.isSome_iff_exists.mp hlegal
    exact h.close hi fails
  | reset i handle fails =>
    obtain ⟨a, hi⟩ := Option.isSome_iff_exists.mp hlegal.1
    exact h.reset hi hlegal.2 fails
  | detach i =>
    obtain ⟨a, hi⟩ := Option.isSome_iff_exists.mp hlegal
    exact ⟨_, by simp only [State.exec, hi], h.detach hi⟩
  | destroy i fails =>
    obtain ⟨a, hi⟩ := Option.isSome_iff_exists.mp hlegal
    exact h.destroy hi fails

end State.Sound

/-- In every run nothing is closed twice, what is open has one owner, the user or a guard, and
a guard shows exactly what it closes, whether or not the system reports errors. -/
theorem one_owner (ops : List Op) (hlegal : machine.Legal .new ops) :
    ∃ s, ops.foldlM machine.step .new = .ok s ∧
      (∀ handle, s.alive handle = true ↔ handle ∈ s.holdings) ∧ s.holdings.Nodup ∧
      ∀ a, some a ∈ s.guards →
        (∀ fd, a.handleInt = some fd ↔ a.target = some (.fileno fd)) ∧
          ∀ file, a.handleFile = some file ↔ a.target = some (.stream file) := by
  obtain ⟨s, hrun, hsound, -⟩ := hlegal.result_iff_meets (I := State.Sound)
    (C := fun _ _ => True) (D := fun _ => True)
    (fun s op h hop => (h.exec hop).imp fun _ h => ⟨h.1, h.2, by simp⟩) .new
  exact ⟨s, hrun, fun _ => hsound.balanced.alive_iff, hsound.balanced.single_nodup,
    fun a ha => (hsound.guards a ha).handles⟩

/-- A guard for a descriptor takes a stream instead, and another one cannot. -/
def guardRun : List Op :=
  [.userOpen (.fileno 3), .userOpen (.stream 7), .make (some (.fileno 3)),
    .reset 0 (.stream 7) false, .userOpen (.fileno 3), .reset 0 (.fileno 3) true,
    .userClose (.fileno 3), .destroy 0 false]

lemma legal_guardRun : machine.Legal .new guardRun := by
  have hmem : ∀ h ∈ some (Handle.fileno 3), ¬ h.Valid ∨ h ∈ [Handle.stream 7, .fileno 3] := by
    rintro h ⟨rfl⟩
    exact .inr (by decide)
  exact .cons ⟨by decide, rfl⟩ rfl (.cons ⟨by decide, rfl⟩ rfl (.cons hmem rfl
    (.cons ⟨rfl, .inr (by decide)⟩ rfl (.cons ⟨by decide, rfl⟩ rfl (.cons ⟨rfl, .inr (by decide)⟩ rfl
    (.cons (List.mem_singleton_self (Handle.fileno 3)) rfl (.cons rfl rfl trivial)))))))

/-- The descriptor that the guard did not take was left to the user. -/
theorem one_owner_guardRun : ∃ s, guardRun.foldlM machine.step .new = .ok s ∧ s.holdings.Nodup :=
  (one_owner guardRun legal_guardRun).imp fun _ h => ⟨h.1, h.2.2.1⟩

end AutoClose

end Utilmm.System
