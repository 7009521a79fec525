import Utilmm.Core.Keys
import Utilmm.System.Process

/-!
# The children of the process objects

A process object has a child as long as it is running, whose pid it knows. It is only when an object
is running that a system call for it has a target of its own.
-/

namespace Utilmm.System

namespace World

variable {w w' : World} {this pid : Nat} {process : Process} {child : Child}

/-- The targets of all system calls are children of the objects for which they are made. -/
def Proper (w : World) : Prop := ∀ call ∈ w.calls, call.own = true ∧ call.pid ≠ 0

lemma owns_iff : w.owns this pid = true ↔
    ∃ child ∈ w.children, child.pid = pid ∧ child.owner = some this := by
  simp [owns]

lemma object_eq_ok (h : w.objects[this]? = some (some process)) : w.object this = .ok process := by
  rw [object, h]

@[simp] lemma objects_construct :
    w.construct.objects = w.objects ++ [some ⟨false, 0, true, 0⟩] := rfl

@[simp] lemma objects_deregister : (w.deregister this).objects = w.objects := rfl

@[simp] lemma children_put : (w.put this process).children = w.children := rfl

@[simp] lemma calls_put : (w.put this process).calls = w.calls := rfl

/-- What an object is after a step which is about it. -/
lemma object_of_set {p p' : Option Process} (h : w.objects[this]? = some p)
    (hobjects : w'.objects = w.objects.set this p') : w'.objects[this]? = some p' := by
  rw [hobjects, List.getElem?_set_self (List.getElem?_eq_some_iff.mp h).1]

lemma objects_put_self (h : this < w.objects.length) :
    (w.put this process).objects[this]? = some (some process) := by
  rw [put, List.getElem?_set_self h]

lemma eq_of_put {process' : Process}
    (h : (w.put this process).objects[this]? = some (some process'))
    (hlt : this < w.objects.length) : process' = process := by
  simpa using h.symm.trans (objects_put_self hlt)

lemma objects_put_of_ne {this' : Nat} (h : this' ≠ this) :
    (w.put this process).objects[this']? = w.objects[this']? := by
  rw [put, List.getElem?_set_ne h.symm]

lemma set_self (h : w.objects[this]? = some (some process)) :
    w.objects.set this (some process) = w.objects := by
  obtain ⟨hlt, hget⟩ := List.getElem?_eq_some_iff.mp h
  rw [← hget, List.set_getElem_self]

lemma runs_iff (hnodup : (w.children.map Child.pid).Nodup) (hchild : child ∈ w.children) :
    w.Runs child.pid ↔ child.exit = none := by
  refine ⟨fun ⟨child', hchild', hpid, hexit⟩ => ?_, fun hexit => ⟨child, hchild, rfl, hexit⟩⟩
  rwa [← List.inj_on_of_nodup_map hnodup hchild' hchild hpid]

lemma owner_ne_of_mem_disown (h : child ∈ (w.disown this).children) : child.owner ≠ some this := by
  obtain ⟨child', -, rfl⟩ := List.mem_map.mp h
  by_cases howner : child'.owner = some this <;> simp [howner]

lemma mem_disown_iff (h : child.owner ≠ none ∧ child.owner ≠ some this) :
    child ∈ (w.disown this).children ↔ child ∈ w.children := by
  rw [disown, List.mem_map]
  refine ⟨?_, fun hchild => ⟨child, hchild, if_neg h.2⟩⟩
  rintro ⟨child', hchild', rfl⟩
  by_cases howner : child'.owner = some this
  · simp [howner] at h
  · rwa [if_neg howner]

lemma nodup_fork (hnodup : (w.children.map Child.pid).Nodup)
    (hfresh : ∀ child' ∈ w.children, child'.pid ≠ child.pid) :
    ((w.fork child).children.map Child.pid).Nodup := by
  rw [fork, List.map_append, List.nodup_append]
  refine ⟨hnodup, List.nodup_singleton _, ?_⟩
  rintro pid hpid pid' hpid' rfl
  obtain ⟨child', hchild', rfl⟩ := List.mem_map.mp hpid
  exact hfresh child' hchild' (List.mem_singleton.mp hpid')

lemma destroy_of_running {w₁ w₂ : World} {answer : Answer} {b : Bool}
    (hthis : w.objects[this]? = some (some process)) (hrunning : process.running = true)
    (hsignal : (w.deregister this).signal this answer = .ok w₁)
    (hwait : w₁.wait this true answer = .ok (b, w₂)) :
    w.destroy this answer = .ok { w₂ with objects := w₂.objects.set this none } := by
  have hthis₀ : (w.deregister this).object this = .ok process := object_eq_ok hthis
  simp only [destroy, hthis₀, Except.ok_bind, hrunning, if_true, hsignal, hwait]
  rfl

lemma find_child (hnodup : (w.children.map Child.pid).Nodup) (hchild : child ∈ w.children) :
    (w.children.find? fun child' => some child'.pid = some child.pid) = some child := by
  simpa using List.find?_key hnodup hchild

end World

/-- The objects which are running are those with a child. -/
structure Tracked (w : World) : Prop where
  proper : w.Proper
  nodup : (w.children.map Child.pid).Nodup
  pos : ∀ child ∈ w.children, 0 < child.pid
  owned : ∀ child ∈ w.children, ∀ this, child.owner = some this →
    ∃ process, w.objects[this]? = some (some process) ∧ process.running = true ∧
      process.pid = child.pid
  running : ∀ this process, w.objects[this]? = some (some process) → process.running = true →
    ∃ child ∈ w.children, child.pid = process.pid ∧ child.owner = some this

namespace Tracked

variable {w w' : World} {this pid : Nat} {process : Process} {child : Child} {answer : Answer}

lemma empty : Tracked World.empty := by
  constructor <;> simp [World.empty, World.Proper]

/-- An object which is not running has no child. -/
lemma owner_ne (h : Tracked w) (hthis : w.objects[this]? = some (some process))
    (hrunning : process.running = false) (hchild : child ∈ w.children) :
    child.owner ≠ some this := by
  intro howner
  obtain ⟨process', hthis', hrunning', -⟩ := h.owned child hchild this howner
  rw [hthis] at hthis'
  cases hthis'
  rw [hrunning] at hrunning'
  cases hrunning'

lemma owns_eq_false (h : Tracked w) (hthis : w.objects[this]? = some (some process))
    (hrunning : process.running = false) : w.owns this pid = false := by
  refine Bool.eq_false_iff.mpr fun howns => ?_
  obtain ⟨child, hchild, -, howner⟩ := World.owns_iff.mp howns
  exact h.owner_ne hthis hrunning hchild howner

lemma deregister (h : Tracked w) (this : Nat) : Tracked (w.deregister this) :=
  ⟨h.proper, h.nodup, h.pos, h.owned, h.running⟩

/-- A system call for a child. -/
lemma record (h : Tracked w) (syscall : Syscall) (hchild : child ∈ w.children)
    (howner : child.owner = some this) : Tracked (w.record syscall this child.pid) where
  proper := by
    refine List.forall_mem_append.mpr ⟨h.proper, List.forall_mem_singleton.mpr ⟨?_, ?_⟩⟩
    · exact World.owns_iff.mpr ⟨child, hchild, rfl, howner⟩
    · exact (h.pos child hchild).ne'
  nodup := h.nodup
  pos := h.pos
  owned := h.owned
  running := h.running

/-- A step which is about one object and its children. -/
lemma update (h : Tracked w) (hcalls : w'.calls = w.calls)
    (hnodup : (w'.children.map Child.pid).Nodup) (hpos : ∀ child ∈ w'.children, 0 < child.pid)
    (hobjects : ∀ this', this' ≠ this → w'.objects[this']? = w.objects[this']?)
    (hchildren : ∀ this', this' ≠ this → ∀ child : Child, child.owner = some this' →
      (child ∈ w'.children ↔ child ∈ w.children))
    (howned : ∀ child ∈ w'.children, child.owner = some this →
      ∃ process, w'.objects[this]? = some (some process) ∧ process.running = true ∧
        process.pid = child.pid)
    (hrunning : ∀ process, w'.objects[this]? = some (some process) → process.running = true →
      ∃ child ∈ w'.children, child.pid = process.pid ∧ child.owner = some this) :
    Tracked w' := by
  refine ⟨?_, hnodup, hpos, ?_, ?_⟩
  · rw [World.Proper, hcalls]
    exact h.proper
  · intro child hchild this' howner
    by_cases hthis : this' = this
    · subst hthis
      exact howned child hchild howner
    · rw [hobjects this' hthis]
      exact h.owned child ((hchildren this' hthis child howner).mp hchild) this' howner
  · intro this' process hprocess hrun
    by_cases hthis : this' = this
    · subst hthis
      exact hrunning process hprocess hrun
    · rw [hobjects this' hthis] at hprocess
      obtain ⟨child, hchild, hpid, howner⟩ := h.running this' process hprocess hrun
      exact ⟨child, (hchildren this' hthis child howner).mpr hchild, hpid, howner⟩

/-- The child of an object is reaped. -/
lemma reap (h : Tracked w) (hthis : w.objects[this]? = some (some process))
    (hrunning : process.running = true) {process' : Process} (hrunning' : process'.running = false) :
    Tracked (World.put { w with
      children := w.children.filter fun child => child.pid ≠ process.pid } this process') := by
  have hlt : this < w.objects.length := (List.getElem?_eq_some_iff.mp hthis).1
  obtain ⟨child, hchild, hpid, howner⟩ := h.running this process hthis hrunning
  refine h.update rfl (h.nodup.sublist (List.filter_sublist.map _))
    (fun child hchild => h.pos child (List.mem_of_mem_filter hchild))
    (fun this' hne => World.objects_put_of_ne hne) ?_ ?_ ?_
  · -- the other objects have other children
    intro this' hne child' howner'
    rw [World.children_put, List.mem_filter]
    refine ⟨And.left, fun hchild' => ⟨hchild', ?_⟩⟩
    have hpid' : child'.pid ≠ process.pid := by
      intro heq
      have := List.inj_on_of_nodup_map h.nodup hchild' hchild (heq.trans hpid.symm)
      rw [this, howner] at howner'
      exact hne (Option.some.inj howner').symm
    simpa using hpid'
  · intro child' hchild' howner'
    rw [World.children_put, List.mem_filter] at hchild'
    obtain ⟨process₁, hthis₁, -, hpid₁⟩ := h.owned child' hchild'.1 this howner'
    rw [hthis] at hthis₁
    cases hthis₁
    simp [hpid₁] at hchild'
  · intro process₁ hthis₁ hrunning₁
    obtain rfl := World.eq_of_put hthis₁ hlt
    rw [hrunning'] at hrunning₁
    cases hrunning₁

/-! ### `wait`, `running` and `signal` -/

lemma waitpid_child (h : Tracked w) (hchild : child ∈ w.children) (hang : Bool) :
    w.waitpid this child.pid hang answer =
      if child.exit = none ∧ hang = false then (.nothing, w.record .waitpid this child.pid)
      else (.reaped (child.exit.getD answer.exit), { w.record .waitpid this child.pid with
        children := w.children.filter fun child' => child'.pid ≠ child.pid }) := by
  have hne : child.pid ≠ 0 := (h.pos child hchild).ne'
  have hfind : ((w.record .waitpid this child.pid).children.find? fun child' =>
      some child'.pid = some child.pid) = some child := World.find_child h.nodup hchild
  rw [World.waitpid]
  simp only [hne, if_false, hfind]
  cases child.exit <;> cases hang <;> simp [World.record]

/-- A running object waits for its child. -/
lemma wait (h : Tracked w) (hthis : w.objects[this]? = some (some process))
    (hrunning : process.running = true) (hang : Bool) (answer : Answer) :
    ∃ b w' process', w.wait this hang answer = .ok (b, w') ∧ Tracked w' ∧
      w'.managed = w.managed ∧ w'.objects = w.objects.set this (some process') ∧
      process'.running = !b ∧ (b = false ↔ hang = false ∧ w.Runs process.pid) ∧
      (b = false → process' = process ∧ w'.children = w.children) := by
  obtain ⟨child, hchild, hpid, howner⟩ := h.running this process hthis hrunning
  have hruns := World.runs_iff h.nodup hchild
  have hrecord := h.record .waitpid hchild howner
  rw [World.wait, World.object_eq_ok hthis, Except.ok_bind, ← hpid, h.waitpid_child hchild]
  by_cases hexit : child.exit = none ∧ hang = false
  · refine ⟨false, w.record .waitpid this child.pid, process, ?_, hrecord, rfl,
      (World.set_self hthis).symm, by simp [hrunning], by simp [hruns, hexit],
      fun _ => ⟨rfl, rfl⟩⟩
    rw [if_pos hexit]
    rfl
  · have hreap : ∀ process', process'.running = false → Tracked (World.put
        { w.record .waitpid this child.pid with
          children := w.children.filter fun child' => child'.pid ≠ child.pid } this process') :=
      fun process' hrunning' => hpid.symm ▸ hrecord.reap hthis hrunning hrunning'
    have hfalse : true = false ↔ hang = false ∧ w.Runs child.pid := by
      rw [hruns, and_comm]
      simp [hexit]
    rw [if_neg hexit]
    cases child.exit.getD answer.exit with
    | exited code => exact ⟨true, _, _, rfl, hreap _ rfl, rfl, rfl, rfl, hfalse, by simp⟩
    | signaled => exact ⟨true, _, _, rfl, hreap _ rfl, rfl, rfl, rfl, hfalse, by simp⟩

/-- `running` tells whether the object is running afterwards. -/
lemma running_eq (h : Tracked w) (hthis : w.objects[this]? = some (some process))
    (answer : Answer) :
    ∃ b w' process', w.running this answer = .ok (b, w') ∧ Tracked w' ∧
      w'.managed = w.managed ∧ w'.objects = w.objects.set this (some process') ∧
      process'.running = b ∧ (b = true ↔ process.running = true ∧ w.Runs process.pid) ∧
      (b = true → process' = process ∧ w'.children = w.children) := by
  rw [World.running, World.object_eq_ok hthis, Except.ok_bind]
  by_cases hrunning : process.running = true
  · obtain ⟨b, w', process', hwait, htracked, hmanaged, hobjects, hrunning', hb, hsame⟩ :=
      h.wait hthis hrunning false answer
    have hthis' := World.object_eq_ok (World.object_of_set hthis hobjects)
    refine ⟨!b, w', process', ?_, htracked, hmanaged, hobjects, hrunning', ?_, ?_⟩
    · simp only [hrunning, if_true, hwait, hthis', Except.ok_bind, hrunning']
      rfl
    · simp [hrunning, hb]
    · simpa using hsame
  · refine ⟨false, w, process, by rw [if_neg hrunning]; rfl, h, rfl, (World.set_self hthis).symm,
      by simpa using hrunning, by simp [hrunning], by simp⟩

/-- `signal` is about a child which is not reaped. -/
lemma signal (h : Tracked w) (hthis : w.objects[this]? = some (some process))
    (answer : Answer) :
    ∃ w' process', w.signal this answer = .ok w' ∧ Tracked w' ∧
      w'.managed = w.managed ∧ w'.objects = w.objects.set this (some process') ∧
      (process'.running = true ↔ process.running = true ∧ w.Runs process.pid) ∧
      (process'.running = true → process' = process ∧ w'.children = w.children) := by
  obtain ⟨b, w', process', hrunning, htracked, hmanaged, hobjects, hrunning', hb, hsame⟩ :=
    h.running_eq hthis answer
  have hthis' := World.object_of_set hthis hobjects
  cases b with
  | false =>
    refine ⟨w', process', ?_, htracked, hmanaged, hobjects, by rw [hrunning', hb],
      by rwa [hrunning']⟩
    rw [World.signal, hrunning]
    rfl
  | true =>
    obtain ⟨child, hchild, hpid, howner⟩ := htracked.running this process' hthis' hrunning'
    refine ⟨w'.kill this process'.pid, process', ?_, hpid ▸ htracked.record .kill hchild howner,
      hmanaged, hobjects, by rw [hrunning', hb], by rwa [hrunning']⟩
    simp only [World.signal, hrunning, Except.ok_bind, if_true, World.object_eq_ok hthis']
    rfl

/-! ### `start` and `detach` -/

/-- A child for an object without one. -/
lemma fork (h : Tracked w) (hthis : w.objects[this]? = some (some process))
    (hrunning : process.running = false) (hpos : 0 < pid)
    (hfresh : ∀ child ∈ w.children, child.pid ≠ pid) {process' : Process}
    (hprocess' : process'.running = true ∧ process'.pid = pid) :
    Tracked ((w.fork ⟨pid, some this, none⟩).put this process') := by
  have hlt : this < w.objects.length := (List.getElem?_eq_some_iff.mp hthis).1
  have hself : ((w.fork ⟨pid, some this, none⟩).put this process').objects[this]? =
      some (some process') := World.objects_put_self hlt
  refine h.update rfl (World.nodup_fork h.nodup hfresh) ?_
    (fun this' hne => World.objects_put_of_ne hne) ?_ ?_ ?_
  · exact List.forall_mem_append.mpr ⟨h.pos, List.forall_mem_singleton.mpr hpos⟩
  · intro this' hne child howner
    refine ⟨fun hchild => ?_, List.mem_append_left _⟩
    rcases List.mem_append.mp hchild with hchild | hchild
    · exact hchild
    · rw [List.mem_singleton.mp hchild] at howner
      exact absurd (Option.some.inj howner).symm hne
  · intro child hchild howner
    rcases List.mem_append.mp hchild with hchild | hchild
    · exact absurd howner (h.owner_ne hthis hrunning hchild)
    · rw [List.mem_singleton.mp hchild]
      exact ⟨process', hself, hprocess'⟩
  · intro process₁ hthis₁ hrunning₁
    obtain rfl := World.eq_of_put hthis₁ hlt
    exact ⟨⟨pid, some this, none⟩, by simp [World.fork], hprocess'.2.symm, rfl⟩

/-- A child which is nobody's. -/
lemma fork_none (h : Tracked w) (hpos : 0 < pid) (hfresh : ∀ child ∈ w.children, child.pid ≠ pid)
    (exit : Option Exit) : Tracked (w.fork ⟨pid, none, exit⟩) := by
  refine ⟨h.proper, World.nodup_fork h.nodup hfresh, ?_, ?_, ?_⟩
  · exact List.forall_mem_append.mpr ⟨h.pos, List.forall_mem_singleton.mpr hpos⟩
  · intro child hchild this howner
    rcases List.mem_append.mp hchild with hchild | hchild
    · exact h.owned child hchild this howner
    · rw [List.mem_singleton.mp hchild] at howner
      cases howner
  · intro this process hthis hrunning
    obtain ⟨child, hchild, hpid, howner⟩ := h.running this process hthis hrunning
    exact ⟨child, List.mem_append_left _ hchild, hpid, howner⟩

lemma start (h : Tracked w) (hthis : w.objects[this]? = some (some process)) {launch : Launch}
    {answer : Answer}
    (hfresh : ∀ w', w.running this answer = .ok (false, w') → w'.Fresh launch) :
    ∃ w' process', w.start this launch answer = .ok w' ∧ Tracked w' ∧ w'.managed = w.managed ∧
      w'.objects = w.objects.set this (some process') := by
  obtain ⟨b, w₁, process₁, hrunning, htracked, hmanaged, hobjects, hrunning₁, -⟩ :=
    h.running_eq hthis answer
  have hthis₁ := World.object_of_set hthis hobjects
  rw [World.start, hrunning, Except.ok_bind]
  cases b with
  | true => exact ⟨w₁, process₁, rfl, htracked, hmanaged, hobjects⟩
  | false =>
    have hfresh₁ := hfresh w₁ hrunning
    cases launch with
    | forkFails => exact ⟨w₁, process₁, rfl, htracked, hmanaged, hobjects⟩
    | execFails pid =>
      exact ⟨_, process₁, rfl, htracked.fork_none hfresh₁.1 hfresh₁.2 _, hmanaged, hobjects⟩
    | runs pid =>
      refine ⟨(w₁.fork ⟨pid, some this, none⟩).put this { process₁ with running := true, pid },
        { process₁ with running := true, pid }, ?_,
        htracked.fork hthis₁ hrunning₁ hfresh₁.1 hfresh₁.2 ⟨rfl, rfl⟩, hmanaged, ?_⟩
      · simp only [Bool.false_eq_true, if_false, World.object_eq_ok hthis₁, Except.ok_bind]
        rfl
      · rw [World.put, World.fork, hobjects, List.set_set]

lemma detach (h : Tracked w) (hthis : w.objects[this]? = some (some process)) :
    ∃ w' process', w.detach this = .ok w' ∧ Tracked w' ∧ w'.managed = w.managed ∧
      w'.objects = w.objects.set this (some process') := by
  refine ⟨(w.disown this).put this { process with running := false, pid := 0 },
    { process with running := false, pid := 0 }, ?_, ?_, rfl, rfl⟩
  · rw [World.detach, World.object_eq_ok hthis]
    rfl
  · have hlt : this < w.objects.length := (List.getElem?_eq_some_iff.mp hthis).1
    have hpids : (w.disown this).children.map Child.pid = w.children.map Child.pid :=
      List.map_modify_key (some this) fun _ => rfl
    refine h.update rfl (hpids.symm ▸ h.nodup) ?_ (fun this' hne => World.objects_put_of_ne hne)
      ?_ ?_ ?_
    · intro child hchild
      have hpid : child.pid ∈ w.children.map Child.pid := hpids ▸ List.mem_map_of_mem hchild
      obtain ⟨child', hchild', hpid'⟩ := List.mem_map.mp hpid
      exact hpid' ▸ h.pos child' hchild'
    · intro this' hne child howner
      exact World.mem_disown_iff (by simpa [howner] using hne)
    · intro child hchild howner
      exact absurd howner (World.owner_ne_of_mem_disown hchild)
    · intro process' hthis' hrunning'
      obtain rfl := World.eq_of_put hthis' hlt
      cases hrunning'

/-! ### Objects and children come and go -/

lemma exit (h : Tracked w) (pid : Nat) (exit : Exit) : Tracked (w.exit pid exit) := by
  have hpids : (w.exit pid exit).children.map Child.pid = w.children.map Child.pid :=
    List.map_modify_key pid fun _ => rfl
  -- a child is the same but for its exit
  have hmem : ∀ child ∈ (w.exit pid exit).children, ∃ child' ∈ w.children,
      child'.pid = child.pid ∧ child'.owner = child.owner := by
    intro child hchild
    obtain ⟨child', hchild', rfl⟩ := List.mem_map.mp hchild
    refine ⟨child', hchild', ?_⟩
    split <;> exact ⟨rfl, rfl⟩
  refine ⟨h.proper, hpids.symm ▸ h.nodup, fun child hchild => ?_, fun child hchild this howner => ?_,
    fun this process hthis hrunning => ?_⟩
  · obtain ⟨child', hchild', hpid, -⟩ := hmem child hchild
    exact hpid ▸ h.pos child' hchild'
  · obtain ⟨child', hchild', hpid, howner'⟩ := hmem child hchild
    exact hpid ▸ h.owned child' hchild' this (howner'.trans howner)
  · obtain ⟨child, hchild, hpid, howner⟩ := h.running this process hthis hrunning
    refine ⟨_, List.mem_map_of_mem hchild, ?_⟩
    split <;> exact ⟨hpid, howner⟩

lemma construct (h : Tracked w) : Tracked w.construct := by
  refine ⟨h.proper, h.nodup, h.pos, fun child hchild this howner => ?_,
    fun this process hthis hrunning => ?_⟩
  · obtain ⟨process, hthis, hprocess⟩ := h.owned child hchild this howner
    have hlt := (List.getElem?_eq_some_iff.mp hthis).1
    exact ⟨process, (List.getElem?_append_left hlt).trans hthis, hprocess⟩
  · rw [World.objects_construct] at hthis
    by_cases hlt : this < w.objects.length
    · rw [List.getElem?_append_left hlt] at hthis
      exact h.running this process hthis hrunning
    · rw [List.getElem?_append_right (not_lt.mp hlt)] at hthis
      have hmem := List.mem_of_getElem? hthis
      simp only [List.mem_singleton, Option.some.injEq] at hmem
      rw [hmem] at hrunning
      cases hrunning

/-- An object which is not running goes away. -/
lemma remove (h : Tracked w) (hthis : w.objects[this]? = some (some process))
    (hrunning : process.running = false) :
    Tracked { w with objects := w.objects.set this none } := by
  have hlt : this < w.objects.length := (List.getElem?_eq_some_iff.mp hthis).1
  refine h.update rfl h.nodup h.pos (fun this' hne => List.getElem?_set_ne hne.symm)
    (fun _ _ _ _ => Iff.rfl) ?_ ?_
  · intro child hchild howner
    exact absurd howner (h.owner_ne hthis hrunning hchild)
  · intro process' hthis' _
    rw [List.getElem?_set_self hlt] at hthis'
    cases hthis'

lemma killEach (h : Tracked w) {managed : List Nat}
    (hmanaged : ∀ this ∈ managed, ∃ process, w.objects[this]? = some (some process) ∧
      process.running = true) :
    ∃ w', w.killEach managed = .ok w' ∧ Tracked w' ∧ w'.managed = w.managed ∧
      w'.objects = w.objects := by
  induction managed generalizing w with
  | nil => exact ⟨w, rfl, h, rfl, rfl⟩
  | cons this managed ih =>
    obtain ⟨⟨process, hthis, hrunning⟩, hmanaged⟩ := List.forall_mem_cons.mp hmanaged
    obtain ⟨child, hchild, hpid, howner⟩ := h.running this process hthis hrunning
    obtain ⟨w', hkill, htracked, hmanaged', hobjects⟩ :=
      ih (h.record .kill hchild howner) hmanaged
    refine ⟨w', ?_, htracked, hmanaged', hobjects⟩
    rw [World.killEach, World.object_eq_ok hthis, Except.ok_bind, ← hpid]
    exact hkill

lemma destroy (h : Tracked w) (hthis : w.objects[this]? = some (some process))
    (hruns : process.running = true → w.Runs process.pid) (answer : Answer) :
    ∃ w', w.destroy this answer = .ok w' ∧ Tracked w' ∧
      w'.managed = w.managed.filter (fun this' => this' ≠ this) ∧
      w'.objects = w.objects.set this none := by
  have h₀ := h.deregister this
  have hthis₀ : (w.deregister this).objects[this]? = some (some process) := hthis
  by_cases hrunning : process.running = true
  · obtain ⟨w₁, process₁, hsignal, h₁, hmanaged₁, hobjects₁, hrunning₁, hsame₁⟩ :=
      h₀.signal hthis₀ answer
    -- the child was there, and it is waited for
    have hthis₁ := World.object_of_set hthis₀ hobjects₁
    obtain ⟨b, w₂, process₂, hwait, h₂, hmanaged₂, hobjects₂, hrunning₂, hb, -⟩ :=
      h₁.wait hthis₁ (hrunning₁.mpr ⟨hrunning, hruns hrunning⟩) true answer
    obtain rfl : b = true := by simpa using hb
    have hthis₂ := World.object_of_set hthis₁ hobjects₂
    refine ⟨{ w₂ with objects := w₂.objects.set this none },
      World.destroy_of_running hthis hrunning hsignal hwait, h₂.remove hthis₂ hrunning₂,
      hmanaged₂.trans hmanaged₁, ?_⟩
    rw [hobjects₂, hobjects₁, List.set_set, List.set_set]
    rfl
  · refine ⟨_, ?_, h₀.remove hthis₀ (by simpa using hrunning), rfl, rfl⟩
    rw [World.destroy, World.object_eq_ok hthis₀, Except.ok_bind, if_neg hrunning]
    rfl

end Tracked

namespace World

variable {w w' : World} {this pid : Nat} {process : Process} {answer : Answer}

/-! ### Calls for objects which are not running -/

lemma not_proper {syscall : Syscall} (h : ⟨syscall, this, pid, false⟩ ∈ w.calls) : ¬ w.Proper :=
  fun hproper => absurd (hproper _ h).1 Bool.false_ne_true

lemma calls_waitpid (w : World) (this pid : Nat) (hang : Bool) (answer : Answer) :
    (w.waitpid this pid hang answer).2.calls =
      w.calls ++ [⟨.waitpid, this, pid, w.owns this pid⟩] := by
  rw [waitpid]
  split
  · rfl
  · split <;> rfl

lemma exists_wait (hthis : w.objects[this]? = some (some process)) (hang : Bool)
    (answer : Answer) : ∃ b w', w.wait this hang answer = .ok (b, w') := by
  rw [wait, object_eq_ok hthis, Except.ok_bind]
  rcases w.waitpid this process.pid hang answer with ⟨_ | _ | _ | _, w'⟩ <;> exact ⟨_, _, rfl⟩

/-- `wait` calls `waitpid`, whether or not there is a child. -/
lemma mem_calls_wait (hthis : w.objects[this]? = some (some process)) {hang b : Bool}
    (hwait : w.wait this hang answer = .ok (b, w')) :
    ⟨.waitpid, this, process.pid, w.owns this process.pid⟩ ∈ w'.calls := by
  rw [wait, object_eq_ok hthis, Except.ok_bind] at hwait
  have hcalls := calls_waitpid w this process.pid hang answer
  rcases hwaited : w.waitpid this process.pid hang answer with ⟨waited, w₁⟩
  rw [hwaited] at hwait hcalls
  have hw' : w'.calls = w₁.calls := by
    rcases waited with _ | _ | _ | _ <;> (cases hwait; rfl)
  rw [hw', hcalls]
  exact List.mem_append_right _ (List.mem_singleton_self _)

lemma mem_calls_killEach {managed : List Nat} (hkill : w.killEach managed = .ok w') :
    w.calls ⊆ w'.calls ∧ ∀ this ∈ managed, ∀ process, w.objects[this]? = some (some process) →
      ⟨.kill, this, process.pid, w.owns this process.pid⟩ ∈ w'.calls := by
  induction managed generalizing w with
  | nil =>
    cases hkill
    exact ⟨List.Subset.refl _, by simp⟩
  | cons this managed ih =>
    rw [killEach] at hkill
    obtain ⟨process, hthis, hkill⟩ := Except.bind_eq_ok.mp hkill
    obtain ⟨hcalls, hmem⟩ := ih hkill
    refine ⟨fun call hcall => hcalls (List.mem_append_left _ hcall), ?_⟩
    refine List.forall_mem_cons.mpr ⟨fun process' hthis' => ?_, hmem⟩
    obtain rfl : process = process' := by
      rw [object_eq_ok hthis'] at hthis
      exact (Except.ok.inj hthis).symm
    exact hcalls (List.mem_append_right _ (List.mem_singleton_self _))

/-! ### Runs -/

/-- The registered objects are the ones which are there. -/
def Registered (w : World) : Prop := ∀ this, this ∈ w.managed ↔ w.Live this

lemma live_set (hlive : w.Live this) (hobjects : w'.objects = w.objects.set this (some process))
    (this' : Nat) : w'.Live this' ↔ w.Live this' := by
  obtain ⟨process', hthis⟩ := hlive
  have hlt : this < w.objects.length := (List.getElem?_eq_some_iff.mp hthis).1
  by_cases heq : this' = this
  · subst heq
    rw [Live, Live, hobjects, List.getElem?_set_self hlt, hthis]
    simp
  · rw [Live, Live, hobjects, List.getElem?_set_ne (Ne.symm heq)]

lemma Registered.set (h : w.Registered) (hlive : w.Live this) (hmanaged : w'.managed = w.managed)
    (hobjects : w'.objects = w.objects.set this (some process)) : w'.Registered := by
  intro this'
  rw [hmanaged, live_set hlive hobjects, h this']

lemma Registered.construct (h : w.Registered) : w.construct.Registered := by
  intro this
  rw [World.construct, register, List.mem_append, List.mem_singleton, h this, Live, Live]
  show _ ↔ ∃ process, (w.objects ++ [some ⟨false, 0, true, 0⟩])[this]? = some (some process)
  rcases lt_trichotomy this w.objects.length with hlt | heq | hlt
  · rw [List.getElem?_append_left hlt]
    simp [hlt.ne]
  · simp [heq]
  · simp [hlt.ne', List.getElem?_eq_none, hlt.le, Nat.succ_le_of_lt hlt]

lemma Registered.destroy (h : w.Registered) (hlive : w.Live this)
    (hmanaged : w'.managed = w.managed.filter fun this' => this' ≠ this)
    (hobjects : w'.objects = w.objects.set this none) : w'.Registered := by
  obtain ⟨process, hthis⟩ := hlive
  have hlt : this < w.objects.length := (List.getElem?_eq_some_iff.mp hthis).1
  intro this'
  rw [hmanaged, List.mem_filter, h this', Live, Live, hobjects]
  by_cases heq : this' = this
  · simp [heq, List.getElem?_set_self hlt]
  · simp [heq, List.getElem?_set_ne (Ne.symm heq)]

/-- The condition under which the system calls of an operation have children of the objects as
targets. -/
def Careful (w : World) : Op → Prop
  | .wait this _ => ∀ process : Process, w.objects[this]? = some (some process) → process.running = true
  | .killall => ∀ this : Nat, ∀ process : Process, w.objects[this]? = some (some process) →
    process.running = true
  | .destroy this _ => ∀ process : Process, w.objects[this]? = some (some process) →
    process.running = true → w.Runs process.pid
  | _ => True

end World

namespace Tracked

variable {w w' : World} {op : Op}

lemma exec (h : Tracked w) (hregistered : w.Registered) (hlegal : w.Legal op)
    (hcareful : w.Careful op) : ∃ w', w.exec op = .ok w' ∧ Tracked w' ∧ w'.Registered := by
  cases op with
  | construct => exact ⟨_, rfl, h.construct, hregistered.construct⟩
  | start this launch answer =>
    obtain ⟨hlive, hfresh⟩ := hlegal
    obtain ⟨process, hthis⟩ := id hlive
    obtain ⟨w', process', hok, htracked, hmanaged, hobjects⟩ := h.start hthis hfresh
    exact ⟨w', hok, htracked, hregistered.set hlive hmanaged hobjects⟩
  | exit pid exit => exact ⟨_, rfl, h.exit pid exit, hregistered⟩
  | wait this answer =>
    obtain ⟨process, hthis⟩ := id hlegal
    obtain ⟨b, w', process', hok, htracked, hmanaged, hobjects, -⟩ :=
      h.wait hthis (hcareful process hthis) true answer
    refine ⟨w', ?_, htracked, hregistered.set hlegal hmanaged hobjects⟩
    rw [World.exec, hok]
    rfl
  | running this answer =>
    obtain ⟨process, hthis⟩ := id hlegal
    obtain ⟨b, w', process', hok, htracked, hmanaged, hobjects, -⟩ := h.running_eq hthis answer
    refine ⟨w', ?_, htracked, hregistered.set hlegal hmanaged hobjects⟩
    rw [World.exec, hok]
    rfl
  | signal this answer =>
    obtain ⟨process, hthis⟩ := id hlegal
    obtain ⟨w', process', hok, htracked, hmanaged, hobjects, -⟩ := h.signal hthis answer
    exact ⟨w', hok, htracked, hregistered.set hlegal hmanaged hobjects⟩
  | detach this =>
    obtain ⟨process, hthis⟩ := id hlegal
    obtain ⟨w', process', hok, htracked, hmanaged, hobjects⟩ := h.detach hthis
    exact ⟨w', hok, htracked, hregistered.set hlegal hmanaged hobjects⟩
  | killall =>
    have hrunning : ∀ this ∈ w.managed, ∃ process, w.objects[this]? = some (some process) ∧
        process.running = true := by
      intro this hthis
      obtain ⟨process, hprocess⟩ := (hregistered this).mp hthis
      exact ⟨process, hprocess, hcareful this process hprocess⟩
    obtain ⟨w', hok, htracked, hmanaged, hobjects⟩ := h.killEach hrunning
    refine ⟨w', hok, htracked, fun this => ?_⟩
    rw [hmanaged, World.Live, hobjects]
    exact hregistered this
  | destroy this answer =>
    obtain ⟨process, hthis⟩ := id hlegal
    obtain ⟨w', hok, htracked, hmanaged, hobjects⟩ :=
      h.destroy hthis (hcareful process hthis) answer
    exact ⟨w', hok, htracked, hregistered.destroy hlegal hmanaged hobjects⟩

/-- An operation which does not meet the condition makes a system call for an object without a
child. -/
lemma not_proper (h : Tracked w) (hregistered : w.Registered) (hlegal : w.Legal op)
    (hcareless : ¬ w.Careful op) (hok : w.exec op = .ok w') : ¬ w'.Proper := by
  cases op with
  | wait this answer =>
    simp only [World.Careful, not_forall] at hcareless
    obtain ⟨process, hthis, hrunning⟩ := hcareless
    obtain ⟨⟨b, w₁⟩, hwait, hw₁⟩ := Except.bind_eq_ok.mp hok
    obtain rfl : w₁ = w' := Except.ok.inj hw₁
    have hmem := World.mem_calls_wait hthis hwait
    rw [h.owns_eq_false hthis (by simpa using hrunning)] at hmem
    exact World.not_proper hmem
  | killall =>
    simp only [World.Careful, not_forall] at hcareless
    obtain ⟨this, process, hthis, hrunning⟩ := hcareless
    have hmem := (World.mem_calls_killEach hok).2 this ((hregistered this).mpr ⟨process, hthis⟩)
      process hthis
    rw [h.owns_eq_false hthis (by simpa using hrunning)] at hmem
    exact World.not_proper hmem
  | destroy this answer =>
    simp only [World.Careful, not_forall] at hcareless
    obtain ⟨process, hthis, hrunning, hruns⟩ := hcareless
    have h₀ := h.deregister this
    have hthis₀ : (w.deregister this).objects[this]? = some (some process) := hthis
    -- the child is reaped by `signal`, and `wait` comes too late
    obtain ⟨w₁, process₁, hsignal, h₁, -, hobjects₁, hrunning₁, -⟩ :=
      (h.deregister this).signal hthis₀ answer
    have hthis₁ := World.object_of_set hthis₀ hobjects₁
    have hstopped : process₁.running = false :=
      Bool.eq_false_iff.mpr fun hrun => hruns (hrunning₁.mp hrun).2
    obtain ⟨b, w₂, hwait⟩ := World.exists_wait hthis₁ true answer
    have hmem := World.mem_calls_wait hthis₁ hwait
    rw [h₁.owns_eq_false hthis₁ hstopped] at hmem
    have hdestroy := World.destroy_of_running hthis hrunning hsignal hwait
    obtain rfl := Except.ok.inj (hdestroy.symm.trans hok)
    exact World.not_proper hmem
  | construct => exact absurd trivial hcareless
  | start this launch answer => exact absurd trivial hcareless
  | exit pid exit => exact absurd trivial hcareless
  | running this answer => exact absurd trivial hcareless
  | signal this answer => exact absurd trivial hcareless
  | detach this => exact absurd trivial hcareless

end Tracked

/-- In all states of a run the targets of the system calls are children of the objects if and only
if each step meets the condition. -/
theorem process_proper_iff (ops : List Op) (hlegal : machine.Legal World.empty ops) :
    machine.Holds World.Proper World.empty ops ↔
      machine.Meets World.Careful World.empty ops := by
  apply Machine.holds_iff_meets (I := fun w => Tracked w ∧ w.Registered)
  · exact fun w h => h.1.proper
  · exact fun w op h hop hcareful => h.1.exec h.2 hop hcareful
  · exact fun w op w' h hop hcareless hok => h.1.not_proper h.2 hop hcareless hok
  · refine ⟨.empty, fun this => ?_⟩
    simp [World.empty, World.Live]
  · exact hlegal

/-- A process runs and is waited for. -/
theorem process_proper_iff_waited :
    machine.Holds World.Proper World.empty
      [.construct, .start 0 (.runs 7) ⟨none, .signaled⟩, .killall, .exit 7 .signaled,
        .wait 0 ⟨none, .signaled⟩, .destroy 0 ⟨none, .signaled⟩] := by
  refine (process_proper_iff _ ?_).mpr ?_
  · refine .cons trivial rfl (.cons ⟨⟨_, rfl⟩, ?_⟩ rfl (.cons trivial rfl (.cons ?_ rfl
      (.cons ⟨_, rfl⟩ rfl (.cons ⟨_, rfl⟩ rfl trivial)))))
    · intro w' hw'
      cases hw'
      exact ⟨by decide, by simp [World.construct, World.register, World.empty]⟩
    · exact ⟨_, List.mem_singleton_self _, rfl, rfl⟩
  · refine .cons trivial rfl (.cons trivial rfl (.cons ?_ rfl (.cons trivial rfl
      (.cons ?_ rfl (.cons ?_ rfl trivial)))))
    · rintro (_ | this) process hthis
      · cases hthis
        rfl
      · cases hthis
    · intro process hthis
      cases hthis
      rfl
    · intro process hthis hrunning
      cases hthis
      cases hrunning

/-- `killall` sends the signal to the process group for an object which was never started. -/
theorem process_killall_group :
    machine.Legal World.empty [.construct, .killall] ∧
      ¬ machine.Holds World.Proper World.empty [.construct, .killall] := by
  refine ⟨.cons trivial rfl (.cons trivial rfl trivial), fun h => ?_⟩
  have hproper := h.result rfl
  exact absurd (hproper ⟨.kill, 0, 0, false⟩ (by decide)).2 (by decide)

end Utilmm.System
