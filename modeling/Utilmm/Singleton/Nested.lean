import Utilmm.Singleton.Clients

/-!
# Nested singletons

The construction of a value runs before its wrapper is in the map, and its destruction after the
wrapper has left it. A call which is nested there may find itself the last one and delete the
server under the outer call. This does not happen as long as a client stays for every nested call.
-/

namespace Utilmm.Singleton

variable {Name : Type} [DecidableEq Name] {T : Types Name} {server fuel k : Nat}
  {m : SingleMap Name} {w : World Name} {clients : Multiset Name} {name : Name}

/-! ### Nested calls -/

/-- A call which leaves the server to its clients. -/
def Handles (T : Types Name) (server fuel k : Nat) : Prop :=
  ∀ (call : Call Name) (m : SingleMap Name) (w : World Name) (clients : Multiset Name),
    T.rank call.name < k → call.Warm T clients → Serves T server m w clients →
    ∃ m' w', w.call T fuel call = .ok w' ∧ Serves T server m' w' (call.hold clients) ∧
      Keeps T server k m w m' w'

/-- What holds of each call holds of the calls of a constructor or a destructor. -/
lemma Handles.foldlM (h : Handles T server fuel k) {calls : List (Call Name)}
    (hrank : ∀ call ∈ calls, T.rank call.name < k) (hwarm : Call.AllWarm T clients calls)
    (hserves : Serves T server m w clients) :
    ∃ m' w', calls.foldlM (World.call T fuel) w = .ok w' ∧
      Serves T server m' w' (Call.holds clients calls) ∧ Keeps T server k m w m' w' := by
  induction calls generalizing m w clients with
  | nil => exact ⟨m, w, rfl, hserves, .refl⟩
  | cons call calls ih =>
    obtain ⟨m₁, w₁, hcall, hserves₁, hkeeps₁⟩ :=
      h call m w clients (hrank call List.mem_cons_self) hwarm.1 hserves
    obtain ⟨m', w', hcalls, hserves', hkeeps'⟩ :=
      ih (fun c hc => hrank c (List.mem_cons_of_mem call hc)) hwarm.2 hserves₁
    refine ⟨m', w', ?_, hserves', hkeeps₁.trans hkeeps'⟩
    rw [List.foldlM_cons, hcall, Except.ok_bind, hcalls]

/-- A value is about to be constructed. -/
lemma Serves.allocWrapper (h : Serves T server m w clients) (name : Name) :
    Serves T server m (w.allocWrapper name) clients :=
  h.congr rfl rfl (fun name' i hi => Function.update_of_ne (ne_of_lt (h.lt name' i hi)) _ _)
    (Nat.le_succ _)

/-- The constructor of a value leaves its own wrapper alone. -/
lemma Handles.newWrapper (h : Handles T server fuel (T.rank name))
    (hserves : Serves T server m w clients) (hname : m.lookup name = none)
    (halone : clients = 0 → T.StartsAlone name) :
    ∃ m' w', (w.newWrapper name fun w => (T.ctor name).foldlM (World.call T fuel) w) =
        .ok (w.nextWrapper, w') ∧
      Serves T server m' w' (clients + T.held name) ∧ m'.lookup name = none ∧
      w'.wrappers w.nextWrapper = some 0 ∧ (∀ name', m'.lookup name' ≠ some w.nextWrapper) ∧
      Keeps T server (T.rank name) m (w.allocWrapper name) m' w' := by
  obtain ⟨hwarm, hholds⟩ := Types.allWarm_ctor halone
  obtain ⟨m', w', hcalls, hserves', hkeeps⟩ := h.foldlM
    (fun _ hcall => T.rank_ctor_lt hcall) hwarm
    (hserves.allocWrapper name)
  rw [hholds] at hserves'
  obtain ⟨hwrapper, hnot⟩ := hkeeps.wrappers w.nextWrapper (Nat.lt_succ_self _)
    fun name' hi => absurd (hserves.lt name' _ hi) (lt_irrefl _)
  refine ⟨m', w', ?_, hserves', (hkeeps.high name le_rfl).trans hname, ?_, hnot, hkeeps⟩
  · simp only [World.newWrapper, hcalls, Except.ok_bind]
    rfl
  · exact hwrapper.trans (Function.update_self _ _ _)

lemma Handles.attach (h : Handles T server fuel (T.rank name))
    (hserves : Serves T server m w clients) (halone : clients = 0 → T.StartsAlone name) :
    ∃ m' w', w.call T (fuel + 1) (.attach name) = .ok w' ∧
      Serves T server m' w' (name ::ₘ clients) ∧
      Keeps T server (T.rank name + 1) m w m' w' := by
  have hserver := World.theServer_of_some hserves.theInstance
  cases hi : m.lookup name with
  | some i =>
    have hcounter := hserves.refCounter name i hi
    have hcall : w.call T (fuel + 1) (.attach name) = _ :=
      World.call_attach_of hserver (World.attach_of_some hserves.singletons hi hcounter)
    exact ⟨m, _, hcall, (hserves.incr hi hcounter).record _,
      (Keeps.putWrapper hi _).record ⟨rfl, hserves.theInstance⟩⟩
  | none =>
    obtain ⟨m', w', hnew, hserves', hname', hzero, hnot, hkeeps⟩ :=
      h.newWrapper hserves hi halone
    have hcall := World.call_attach_of hserver
      (World.attach_of_none hserves.singletons hi hnew hserves'.singletons hname' hzero)
    have hlt : w.nextWrapper < w'.nextWrapper := hkeeps.nextWrapper
    exact ⟨m'.insert name w.nextWrapper, _, hcall,
      (hserves'.insert (AList.lookup_eq_none.mp hname') hnot hlt).record _,
      hkeeps.construct.record ⟨rfl, hserves'.theInstance⟩⟩

/-- The destructor of a value is called after its wrapper has left the map. -/
lemma Serves.detach_of_foldlM {i : Nat} {m' : SingleMap Name} {w' : World Name}
    {clients' : Multiset Name} (hserves : Serves T server m w clients)
    (hi : m.lookup name = some i) (hone : w.wrappers i = some 1)
    (hcalls : (T.dtor name).foldlM (World.call T fuel)
      ((w.putWrapper i (some 0)).putSingletons server (m.erase name)) = .ok w')
    (hserves' : Serves T server m' w' clients')
    (hkeeps : Keeps T server (T.rank name) (m.erase name)
      ((w.putWrapper i (some 0)).putSingletons server (m.erase name)) m' w') :
    ∃ w'', (w.detach server name fun wrapper w =>
        w.deleteWrapper name wrapper fun w => (T.dtor name).foldlM (World.call T fuel) w) =
          .ok (m'.keys.isEmpty, w'') ∧
      Serves T server m' w'' clients' ∧ Keeps T server (T.rank name + 1) m w m' w'' := by
  have hnot : ∀ name', m'.lookup name' ≠ some i := by
    apply (hkeeps.wrappers i (hserves.lt name i hi) _).2
    intro name' hi'
    by_cases hne : name' = name
    · rw [hne, AList.lookup_erase] at hi'
      cases hi'
    · rw [AList.lookup_erase_ne hne] at hi'
      exact hne (hserves.inj _ _ _ hi' hi)
  have hserves'' : Serves T server m' ((w'.putWrapper i none).record (.wrapperDeleted name i))
      clients' := by
    apply Serves.record
    refine hserves'.congr rfl rfl (fun name' i' hi' => ?_) le_rfl
    have hne : i' ≠ i := fun heq => hnot name' (heq ▸ hi')
    exact Function.update_of_ne hne _ _
  refine ⟨_, ?_, hserves'', hkeeps.destroy hi⟩
  apply World.detach_of_le hserves.singletons hi hone le_rfl _ hserves''.singletons
  simp only [World.deleteWrapper, hcalls, Except.ok_bind]
  rfl

lemma Handles.detach (h : Handles T server fuel (T.rank name))
    (hserves : Serves T server m w clients) (hname : name ∈ clients)
    (hothers : clients.erase name ≠ 0) :
    ∃ m' w', w.call T (fuel + 1) (.detach name) = .ok w' ∧
      Serves T server m' w' (clients.erase name) ∧
      Keeps T server (T.rank name + 1) m w m' w' := by
  have hserver := World.theServer_of_some hserves.theInstance
  obtain ⟨i, hi⟩ := hserves.exists_lookup hname
  have hcounter := hserves.refCounter name i hi
  by_cases hlt : 1 < (T.total m clients).count name
  · have hcall : w.call T (fuel + 1) (.detach name) = _ :=
      World.call_detach_of hserver (World.detach_of_lt hserves.singletons hi hcounter hlt)
    exact ⟨m, _, hcall, (hserves.decr hname hi hcounter hlt).record _,
      (Keeps.putWrapper hi _).record ⟨rfl, hserves.theInstance⟩⟩
  · have hone : (T.total m clients).count name = 1 := by
      have hpos := Multiset.count_pos.mpr (Types.mem_total_of_mem (T := T) (m := m) hname)
      omega
    rw [hone] at hcounter
    obtain ⟨hwarm, hholds⟩ := T.allWarm_dtor name hothers
    obtain ⟨m', w', hcalls, hserves', hkeeps⟩ := h.foldlM
      (fun _ hcall => T.rank_dtor_lt hcall) hwarm
      (hserves.erase hname hi hcounter (some 0))
    rw [hholds] at hserves'
    obtain ⟨w'', hdetach, hserves'', hkeeps''⟩ :=
      hserves.detach_of_foldlM hi hcounter hcalls hserves' hkeeps
    have hcall := World.call_detach_of hserver hdetach
    rw [List.isEmpty_eq_false_iff.mpr (hserves''.keys_ne_nil hothers)] at hcall
    exact ⟨m', _, hcall, hserves''.record _, hkeeps''.record ⟨rfl, hserves''.theInstance⟩⟩

/-- Every call which is nested deep enough leaves the server to its clients. -/
lemma handles {fuel k : Nat} (hk : k ≤ fuel) : Handles T server fuel k := by
  induction fuel generalizing k with
  | zero =>
    intro call _ _ _ hrank
    exact absurd (lt_of_lt_of_le hrank hk) (Nat.not_lt_zero _)
  | succ fuel ih =>
    intro call m w clients hrank hwarm hserves
    have hnested := ih (Nat.le_of_lt_succ (lt_of_lt_of_le hrank hk))
    cases call with
    | attach name =>
      obtain ⟨m', w', hcall, hserves', hkeeps⟩ := hnested.attach hserves hwarm
      exact ⟨m', w', hcall, hserves', hkeeps.mono hrank⟩
    | detach name =>
      obtain ⟨m', w', hcall, hserves', hkeeps⟩ := hnested.detach hserves hwarm.1 hwarm.2
      exact ⟨m', w', hcall, hserves', hkeeps.mono hrank⟩

/-! ### Calls of the clients -/

namespace Event

@[simp] def created : Event Name → Option Nat
  | serverCreated server => some server
  | _ => none

@[simp] def deleted : Event Name → Option Nat
  | serverDeleted server _ => some server
  | _ => none

/-- A server is deleted after its last singleton, and the calls return to the server which they
were called on. -/
def Sound : Event Name → Prop
  | serverDeleted _ left => left = []
  | returned server theInstance => theInstance = some server
  | _ => True

omit [DecidableEq Name] in
lemma Calm.sound {e : Event Name} (h : e.Calm server) : e.Sound := by
  cases e with
  | serverCreated => trivial
  | serverDeleted => exact h.elim
  | wrapperCreated => trivial
  | wrapperDeleted => trivial
  | returned => exact h.1 ▸ h.2

end Event

omit [DecidableEq Name] in
/-- No server is created or deleted in calm times. -/
lemma filterMap_calm {es : List (Event Name)} (h : ∀ e ∈ es, e.Calm server) :
    es.filterMap Event.created = [] ∧ es.filterMap Event.deleted = [] := by
  rw [List.filterMap_eq_nil_iff, List.filterMap_eq_nil_iff]
  refine ⟨fun e he => ?_, fun e he => ?_⟩ <;>
    cases e with
    | serverCreated => exact (h _ he).elim
    | serverDeleted => exact (h _ he).elim
    | _ => rfl

/-- One server was there after the other, and only the last one may be there still. -/
structure Ordered (w : World Name) : Prop where
  servers : ∀ server, w.servers server ≠ none → w.theInstance = some server
  created : w.log.filterMap Event.created = List.range w.nextServer
  deleted : w.log.filterMap Event.created =
    w.log.filterMap Event.deleted ++ w.theInstance.toList
  sound : ∀ e ∈ w.log, e.Sound

namespace Ordered

lemma of_keeps {w' : World Name} {m' : SingleMap Name} (h : Ordered w)
    (hkeeps : Keeps T server k m w m' w') (hinst : w.theInstance = some server)
    (hinst' : w'.theInstance = some server) : Ordered w' := by
  obtain ⟨es, hlog, hes⟩ := hkeeps.log
  obtain ⟨hcreated, hdeleted⟩ := filterMap_calm hes
  refine ⟨?_, ?_, ?_, ?_⟩
  · intro server' hserver'
    by_cases heq : server' = server
    · exact heq ▸ hinst'
    · rw [hkeeps.servers server' heq] at hserver'
      exact absurd (Option.some.inj ((h.servers server' hserver').symm.trans hinst)) heq
  · rw [hlog, List.filterMap_append, hcreated, List.append_nil, h.created, hkeeps.nextServer]
  · rw [hlog, List.filterMap_append, List.filterMap_append, hcreated, hdeleted, List.append_nil,
      List.append_nil, h.deleted, hinst, hinst']
  · intro e he
    rw [hlog] at he
    rcases List.mem_append.mp he with he | he
    · exact h.sound e he
    · exact (hes e he).sound

/-- A new server. -/
lemma theServer (h : Ordered w) (hinst : w.theInstance = none) : Ordered w.theServer.2 := by
  have hnone : ∀ server, w.servers server = none := by
    intro server
    by_contra hne
    rw [h.servers server hne] at hinst
    cases hinst
  have hdeleted := h.deleted
  rw [hinst, Option.toList_none, List.append_nil] at hdeleted
  rw [World.theServer, hinst]
  refine ⟨?_, ?_, ?_, ?_⟩
  · intro server hserver
    by_cases heq : server = w.nextServer
    · exact congrArg some heq.symm
    · exact absurd ((Function.update_of_ne heq _ _).trans (hnone server)) hserver
  · simp [h.created, List.range_succ]
  · simp [hdeleted]
  · intro e he
    rcases List.mem_append.mp he with he | he
    · exact h.sound e he
    · exact List.mem_singleton.mp he ▸ trivial

/-- The server is deleted when it has no singletons. -/
lemma deleteServer (h : Ordered w) (hinst : w.theInstance = some server)
    (hm : w.servers server = some m) (hkeys : m.keys = []) : Ordered w.deleteServer := by
  have hdeleted := h.deleted
  rw [hinst] at hdeleted
  rw [World.deleteServer, hinst]
  refine ⟨?_, ?_, ?_, ?_⟩
  · intro server' hserver'
    by_cases heq : server' = server
    · exact absurd (heq ▸ Function.update_self _ _ _) hserver'
    · have hne : w.servers server' ≠ none := fun hnone =>
        hserver' ((Function.update_of_ne heq _ _).trans hnone)
      exact absurd (Option.some.inj ((h.servers server' hne).symm.trans hinst)) heq
  · rw [List.filterMap_append]
    exact (List.append_nil _).trans h.created
  · rw [List.filterMap_append, List.filterMap_append]
    exact (List.append_nil _).trans (hdeleted.trans (List.append_nil _).symm)
  · intro e he
    rcases List.mem_append.mp he with he | he
    · exact h.sound e he
    · rw [List.mem_singleton.mp he, hm]
      exact hkeys

end Ordered

/-- A server which has just been created has no singletons. -/
lemma Serves.theServer (hinst : w.theInstance = none) :
    Serves T w.nextServer ∅ w.theServer.2 0 := by
  rw [World.theServer, hinst]
  refine ⟨rfl, Function.update_self _ _ _, fun name => ?_, ?_, ?_, ?_⟩
  · exact ⟨fun hmem => absurd hmem (AList.notMem_empty name),
      fun hmem => absurd hmem (Multiset.notMem_zero name)⟩
  all_goals simp [AList.lookup_empty]

/-- Nobody else holds the singleton of the last client. -/
lemma Serves.wrappers_last {i : Nat} (h : Serves T server m w clients) (hname : name ∈ clients)
    (hlast : clients.erase name = 0) (hi : m.lookup name = some i) : w.wrappers i = some 1 := by
  have hcounter := h.refCounter name i hi
  have hpos := Multiset.count_pos.mpr (Types.mem_total_of_mem (T := T) (m := m) hname)
  suffices hone : (T.total m clients).count name = 1 by rwa [hone] at hcounter
  by_contra hne
  have hserves := h.decr hname hi hcounter (by omega)
  rw [hlast] at hserves
  have hmem : name ∈ m := AList.lookup_isSome.mp (Option.isSome_iff_exists.mpr ⟨i, hi⟩)
  rw [AList.mem_keys, hserves.keys_eq_nil] at hmem
  cases hmem

/-- The last client takes the server away. -/
lemma Serves.detach_last (h : Serves T server m w clients) (hordered : Ordered w)
    (hname : name ∈ clients) (hlast : clients.erase name = 0) (hdtor : T.dtor name = [])
    (fuel : Nat) : ∃ w', w.call T (fuel + 1) (.detach name) = .ok w' ∧ Ordered w' ∧
      w'.theInstance = none ∧ w'.nextServer = w.nextServer := by
  obtain ⟨i, hi⟩ := h.exists_lookup hname
  have hone := h.wrappers_last hname hlast hi
  have hheld : T.held name = 0 := by
    have hholds := T.holds_dtor name
    rwa [hdtor] at hholds
  have herase := h.erase hname hi hone (some 0)
  rw [hlast, hheld, zero_add] at herase
  obtain ⟨w', hdetach, hserves', hkeeps⟩ := h.detach_of_foldlM hi hone
    (show (T.dtor name).foldlM (World.call T fuel) _ = .ok _ by rw [hdtor]; rfl) herase .refl
  have hcall := World.call_detach_of (World.theServer_of_some h.theInstance) hdetach
  have hkeys := herase.keys_eq_nil
  rw [List.isEmpty_iff.mpr hkeys, if_pos rfl] at hcall
  have hrecord := hkeeps.record (e := .returned server w'.theInstance) ⟨rfl, hserves'.theInstance⟩
  have hinst : (w'.record (.returned server w'.theInstance)).theInstance = some server :=
    hserves'.theInstance
  have hordered' := hordered.of_keeps hrecord h.theInstance hserves'.theInstance
  refine ⟨_, hcall, hordered'.deleteServer hinst hserves'.singletons hkeys, ?_, ?_⟩
  · rw [World.deleteServer, hinst]
  · rw [World.deleteServer, hinst]
    exact hrecord.nextServer

/-- Between the calls of the clients there is a server if and only if there are clients. -/
structure Tidy (T : Types Name) (w : World Name) (clients : Multiset Name) : Prop where
  ordered : Ordered w
  absent : clients = 0 → w.theInstance = none
  present : clients ≠ 0 → ∃ server m, Serves T server m w clients

/-- The condition under which a call does not delete the server under another one: a singleton
which is the first can start alone, and one which is the last has a destructor without calls. -/
def Call.Meets (T : Types Name) (clients : Multiset Name) : Call Name → Prop
  | attach name => clients = 0 → T.StartsAlone name
  | detach name => clients.erase name = 0 → T.dtor name = []

namespace Tidy

lemma empty : Tidy T World.empty 0 :=
  ⟨⟨fun _ h => absurd rfl h, rfl, rfl, fun _ h => absurd h List.not_mem_nil⟩,
    fun _ => rfl, fun h => absurd rfl h⟩

/-- The first client finds an empty server. -/
lemma exists_serves (h : Tidy T w clients) :
    ∃ server m, w.theServer.1 = server ∧ Serves T server m w.theServer.2 clients ∧
      Ordered w.theServer.2 := by
  by_cases hclients : clients = 0
  · subst hclients
    have hinst := h.absent rfl
    exact ⟨w.nextServer, ∅, by rw [World.theServer, hinst], .theServer hinst,
      h.ordered.theServer hinst⟩
  · obtain ⟨server, m, hserves⟩ := h.present hclients
    refine ⟨server, m, ?_⟩
    rw [World.theServer_of_some hserves.theInstance]
    exact ⟨rfl, hserves, h.ordered⟩

lemma attach (h : Tidy T w clients) (hmeets : Call.Meets T clients (.attach name)) :
    ∃ w', w.call T (T.rank name + 1) (.attach name) = .ok w' ∧ Tidy T w' (name ::ₘ clients) := by
  obtain ⟨server, m, -, hserves, hordered⟩ := h.exists_serves
  obtain ⟨m', w', hcall, hserves', hkeeps⟩ := (handles le_rfl).attach hserves hmeets
  rw [World.call_congr (World.theServer_theServer w)] at hcall
  exact ⟨w', hcall, hordered.of_keeps hkeeps hserves.theInstance hserves'.theInstance,
    fun hzero => absurd hzero (Multiset.cons_ne_zero), fun _ => ⟨server, m', hserves'⟩⟩

lemma call (h : Tidy T w clients) {call : Call Name} (hlegal : Call.Legal clients [call])
    (hmeets : call.Meets T clients) :
    ∃ w', w.call T (T.rank call.name + 1) call = .ok w' ∧ Tidy T w' (call.hold clients) := by
  cases call with
  | attach name => exact h.attach hmeets
  | detach name =>
    have hne : clients ≠ 0 := fun hzero => Multiset.notMem_zero name (hzero ▸ hlegal.1)
    obtain ⟨server, m, hserves⟩ := h.present hne
    by_cases hlast : clients.erase name = 0
    · rw [Call.hold, hlast]
      obtain ⟨w', hcall, hordered, hinst, -⟩ :=
        hserves.detach_last h.ordered hlegal.1 hlast (hmeets hlast) (T.rank name)
      exact ⟨w', hcall, hordered, fun _ => hinst, fun hzero => absurd rfl hzero⟩
    · obtain ⟨m', w', hcall, hserves', hkeeps⟩ :=
        (handles le_rfl).detach hserves hlegal.1 hlast
      exact ⟨w', hcall, h.ordered.of_keeps hkeeps hserves.theInstance hserves'.theInstance,
        fun hzero => absurd hzero hlast, fun _ => ⟨server, m', hserves'⟩⟩

end Tidy

/-! ### Runs -/

/-- Every call meets the condition. -/
def Call.AllMeet (T : Types Name) (clients : Multiset Name) : List (Call Name) → Prop
  | [] => True
  | call :: calls => call.Meets T clients ∧ AllMeet T (call.hold clients) calls

/-- What a legal call which meets the condition keeps, a run of such calls keeps. -/
lemma World.exists_run {I : World Name → Multiset Name → Prop}
    (hstep : ∀ w clients call, I w clients → Call.Legal clients [call] → call.Meets T clients →
      ∃ w', w.call T (T.rank call.name + 1) call = .ok w' ∧ I w' (call.hold clients))
    (h : I w clients) {calls : List (Call Name)} (hlegal : Call.Legal clients calls)
    (hmeets : Call.AllMeet T clients calls) :
    ∃ w', w.run T calls = .ok w' ∧ I w' (Call.holds clients calls) := by
  induction calls generalizing w clients with
  | nil => exact ⟨w, rfl, h⟩
  | cons call calls ih =>
    obtain ⟨hcall, hcalls⟩ := Call.legal_cons.mp hlegal
    obtain ⟨w₁, hw₁, h₁⟩ := hstep w clients call h hcall hmeets.1
    obtain ⟨w', hw', h'⟩ := ih h₁ hcalls hmeets.2
    refine ⟨w', ?_, h'⟩
    rw [World.run, List.foldlM_cons, hw₁, Except.ok_bind]
    exact hw'

lemma Tidy.run (h : Tidy T w clients) {calls : List (Call Name)}
    (hlegal : Call.Legal clients calls) (hmeets : Call.AllMeet T clients calls) :
    ∃ w', w.run T calls = .ok w' ∧ Tidy T w' (Call.holds clients calls) :=
  World.exists_run (fun _ _ _ h hcall hmeets => h.call hcall hmeets) h hlegal hmeets

end Utilmm.Singleton
