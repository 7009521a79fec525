import Utilmm.Singleton.Nested

/-!
# Servers which are deleted under a call

A call which does not meet the condition goes wrong: a call which is nested in it takes the last
client away and with it the server. That server never comes back. There may be another one in its
place, but the outer call goes on with the one on which it began.
-/

namespace Utilmm.Singleton

variable {Name : Type} [DecidableEq Name] {T : Types Name} {server server' fuel k i : Nat}
  {m : SingleMap Name} {w w' : World Name} {clients : Multiset Name} {name : Name} {last : Bool}

/-! ### A server which is gone -/

/-- The server was there and is deleted. -/
structure Gone (server : Nat) (w : World Name) : Prop where
  servers : w.servers server = none
  theInstance : w.theInstance ≠ some server
  lt : server < w.nextServer

namespace Gone

lemma singletons (h : Gone server w) : w.singletons server = .error .deletedServer := by
  rw [World.singletons, h.servers]

/-- What is done to wrappers and to other servers does not bring a server back. -/
lemma putSingletons (h : Gone server w) (hne : server' ≠ server) (m : SingleMap Name) :
    Gone server (w.putSingletons server' m) :=
  ⟨(Function.update_of_ne hne.symm _ _).trans h.servers, h.theInstance, h.lt⟩

lemma putWrapper (h : Gone server w) (i : Nat) (refCounter : Option Nat) :
    Gone server (w.putWrapper i refCounter) :=
  ⟨h.servers, h.theInstance, h.lt⟩

lemma allocWrapper (h : Gone server w) (name : Name) : Gone server (w.allocWrapper name) :=
  ⟨h.servers, h.theInstance, h.lt⟩

lemma record (h : Gone server w) (e : Event Name) : Gone server (w.record e) :=
  ⟨h.servers, h.theInstance, h.lt⟩

lemma incrRef (h : Gone server w) (hok : w.incrRef i = .ok w') : Gone server w' := by
  rw [World.incrRef] at hok
  split at hok
  · cases hok
    exact h.putWrapper _ _
  · cases hok

lemma decrRef (h : Gone server w) (hok : w.decrRef i = .ok (last, w')) : Gone server w' := by
  rw [World.decrRef] at hok
  split at hok
  · cases hok
    exact h.putWrapper _ _
  · cases hok

/-- The next server has another number. -/
lemma theServer (h : Gone server w) : w.theServer.1 ≠ server ∧ Gone server w.theServer.2 := by
  cases hinst : w.theInstance with
  | some server' =>
    rw [World.theServer_of_some hinst]
    exact ⟨fun heq => h.theInstance (heq ▸ hinst), h⟩
  | none =>
    have hne : w.nextServer ≠ server := (ne_of_lt h.lt).symm
    rw [World.theServer, hinst]
    refine ⟨hne, (Function.update_of_ne hne.symm _ _).trans h.servers, ?_, ?_⟩
    · exact fun heq => hne (Option.some.inj heq)
    · exact Nat.lt_succ_of_lt h.lt

lemma deleteServer (h : Gone server w) : Gone server w.deleteServer := by
  cases hinst : w.theInstance with
  | none =>
    rw [World.deleteServer, hinst]
    exact h
  | some server' =>
    have hne : server ≠ server' := fun heq => h.theInstance (heq ▸ hinst)
    rw [World.deleteServer, hinst]
    exact ⟨(Function.update_of_ne hne _ _).trans h.servers, (Option.some_ne_none server).symm, h.lt⟩

lemma attach {create : World Name → Except Fault (Nat × World Name)} (h : Gone server w)
    (hne : server' ≠ server)
    (hcreate : ∀ r, create w = .ok r → Gone server r.2)
    (hok : w.attach server' name create = .ok w') : Gone server w' := by
  obtain ⟨m, -, hok⟩ := Except.bind_eq_ok.mp hok
  split at hok
  · exact h.incrRef hok
  · obtain ⟨⟨wrapper, w₁⟩, hnew, hok⟩ := Except.bind_eq_ok.mp hok
    have h₁ : Gone server w₁ := hcreate _ hnew
    obtain ⟨m₁, -, hok⟩ := Except.bind_eq_ok.mp hok
    split at hok
    · exact h₁.incrRef hok
    · exact (h₁.putSingletons hne _).incrRef hok

lemma detach {delete : Nat → World Name → Except Fault (World Name)} (h : Gone server w)
    (hne : server' ≠ server)
    (hdelete : ∀ i w w', Gone server w → delete i w = .ok w' → Gone server w')
    (hok : w.detach server' name delete = .ok (last, w')) : Gone server w' := by
  obtain ⟨m, -, hok⟩ := Except.bind_eq_ok.mp hok
  split at hok
  · cases hok
  · obtain ⟨⟨one, w₁⟩, hdecr, hok⟩ := Except.bind_eq_ok.mp hok
    have h₁ : Gone server w₁ := h.decrRef hdecr
    cases one with
    | false =>
      cases hok
      exact h₁
    | true =>
      obtain ⟨w₂, hdel, hok⟩ := Except.bind_eq_ok.mp hok
      obtain ⟨m₂, -, hok⟩ := Except.bind_eq_ok.mp hok
      cases hok
      exact hdelete _ _ _ (h₁.putSingletons hne _) hdel

/-- Calls which return do not bring a server back. -/
lemma foldlM {f : World Name → Call Name → Except Fault (World Name)}
    (hf : ∀ w call w', Gone server w → f w call = .ok w' → Gone server w')
    {calls : List (Call Name)} (h : Gone server w) (hok : calls.foldlM f w = .ok w') :
    Gone server w' := by
  induction calls generalizing w with
  | nil =>
    cases hok
    exact h
  | cons call calls ih =>
    rw [List.foldlM_cons] at hok
    obtain ⟨w₁, hcall, hok⟩ := Except.bind_eq_ok.mp hok
    exact ih (hf _ _ _ h hcall) hok

lemma call {call : Call Name} (h : Gone server w) (hok : w.call T fuel call = .ok w') :
    Gone server w' := by
  induction fuel generalizing w call w' with
  | zero => cases hok
  | succ fuel ih =>
    obtain ⟨hne, h⟩ := h.theServer
    have hcalls : ∀ {calls : List (Call Name)} {w w'}, Gone server w →
        calls.foldlM (World.call T fuel) w = .ok w' → Gone server w' :=
      fun h hok => h.foldlM (fun _ _ _ h hok => ih h hok) hok
    cases call with
    | attach name =>
      obtain ⟨w₁, hattach, hok⟩ := Except.bind_eq_ok.mp hok
      cases hok
      refine (h.attach hne (fun r hnew => ?_) hattach).record _
      obtain ⟨w₂, hctor, hnew⟩ := Except.bind_eq_ok.mp hnew
      cases hnew
      exact hcalls (h.allocWrapper name) hctor
    | detach name =>
      obtain ⟨⟨last, w₁⟩, hdetach, hok⟩ := Except.bind_eq_ok.mp hok
      cases hok
      have h₁ : Gone server w₁ := by
        refine h.detach hne (fun i w w' h hdelete => ?_) hdetach
        obtain ⟨w₂, hdtor, hdelete⟩ := Except.bind_eq_ok.mp hdelete
        cases hdelete
        exact ((hcalls h hdtor).putWrapper _ _).record _
      cases last with
      | false => exact h₁.record _
      | true => exact (h₁.record _).deleteServer

end Gone

namespace Ordered

lemma lt (h : Ordered w) (hinst : w.theInstance = some server) : server < w.nextServer := by
  have hmem : server ∈ w.log.filterMap Event.created := by
    rw [h.deleted, hinst]
    simp
  rw [h.created] at hmem
  exact List.mem_range.mp hmem

lemma gone (h : Ordered w) (hinst : w.theInstance = none) (hlt : server < w.nextServer) :
    Gone server w := by
  refine ⟨?_, hinst ▸ (Option.some_ne_none server).symm, hlt⟩
  by_contra hne
  have hserver := h.servers server hne
  rw [hinst] at hserver
  cases hserver

lemma allocWrapper (h : Ordered w) (name : Name) : Ordered (w.allocWrapper name) where
  servers := h.servers
  created := by
    rw [World.allocWrapper, List.filterMap_append]
    exact (List.append_nil _).trans h.created
  deleted := by
    rw [World.allocWrapper, List.filterMap_append, List.filterMap_append, h.deleted]
    exact (List.append_nil _).trans (congrArg (· ++ _) (List.append_nil _).symm)
  sound e he := by
    rcases List.mem_append.mp he with he | he
    · exact h.sound e he
    · exact List.mem_singleton.mp he ▸ trivial

lemma putWrapper (h : Ordered w) (i : Nat) (refCounter : Option Nat) :
    Ordered (w.putWrapper i refCounter) :=
  ⟨h.servers, h.created, h.deleted, h.sound⟩

lemma putSingletons (h : Ordered w) (hinst : w.theInstance = some server) (m : SingleMap Name) :
    Ordered (w.putSingletons server m) := by
  refine ⟨fun server' hserver' => ?_, h.created, h.deleted, h.sound⟩
  by_cases heq : server' = server
  · exact heq ▸ hinst
  · exact h.servers server' fun hnone => hserver' ((Function.update_of_ne heq _ _).trans hnone)

end Ordered

/-! ### Calls after which no client is left -/

namespace Call

variable {calls : List (Call Name)}

lemma AllWarm.steady (h : AllWarm T clients calls) : Steady clients calls := by
  induction calls generalizing clients with
  | nil => trivial
  | cons call calls ih =>
    refine ⟨?_, ih h.2⟩
    cases call with
    | attach name => exact Multiset.cons_ne_zero
    | detach name => exact h.1.2

lemma Steady.holds_ne_zero (h : Steady clients calls) (hne : calls ≠ []) :
    holds clients calls ≠ 0 := by
  induction calls generalizing clients with
  | nil => exact absurd rfl hne
  | cons call calls ih =>
    cases calls with
    | nil => exact h.1
    | cons call' calls => exact ih h.2 (List.cons_ne_nil _ _)

end Call

/-- A singleton can start alone if its constructor can. -/
lemma Types.startsAlone_of_allWarm (h : Call.AllWarm T 0 (T.ctor name)) : T.StartsAlone name := by
  refine .intro name h.steady fun name' calls hctor => ?_
  rw [hctor] at h
  exact h.1 rfl

/-- A destructor with calls takes the last client away if no other stays. -/
lemma Types.not_allWarm_dtor (hdtor : T.dtor name ≠ []) :
    ¬ Call.AllWarm T (T.held name) (T.dtor name) := by
  intro h
  exact h.steady.holds_ne_zero hdtor (T.holds_dtor name)

/-- A call which takes the last client away takes the server with it if it meets the condition, and
otherwise it goes wrong. -/
def Ends (T : Types Name) (fuel k : Nat) : Prop :=
  ∀ (call : Call Name) (server : Nat) (m : SingleMap Name) (w : World Name)
    (clients : Multiset Name), T.rank call.name < k → Call.Legal clients [call] →
    ¬ call.Warm T clients → Serves T server m w clients → Ordered w →
    (call.Meets T clients ∧ call.hold clients = 0 ∧ ∃ w', w.call T fuel call = .ok w' ∧
      Ordered w' ∧ w'.theInstance = none ∧ Gone server w') ∨
      w.call T fuel call = .error .deletedServer

namespace Ends

/-- A constructor or a destructor keeps a client all the time, or it goes wrong, or it leaves the
server deleted. -/
lemma foldlM (h : Ends T fuel k) (hk : k ≤ fuel) {calls : List (Call Name)}
    (hrank : ∀ call ∈ calls, T.rank call.name < k) (hlegal : Call.Legal clients calls)
    (hserves : Serves T server m w clients) (hordered : Ordered w) :
    Call.AllWarm T clients calls ∨
      calls.foldlM (World.call T fuel) w = .error .deletedServer ∨
      ∃ w', calls.foldlM (World.call T fuel) w = .ok w' ∧ Gone server w' := by
  induction calls generalizing server m w clients with
  | nil => exact .inl trivial
  | cons call calls ih =>
    obtain ⟨hcall, hcalls⟩ := Call.legal_cons.mp hlegal
    have hrank' : ∀ c ∈ calls, T.rank c.name < k := fun c hc =>
      hrank c (List.mem_cons_of_mem call hc)
    rw [List.foldlM_cons]
    by_cases hwarm : call.Warm T clients
    · obtain ⟨m₁, w₁, hok, hserves₁, hkeeps⟩ :=
        handles hk call m w clients (hrank call List.mem_cons_self) hwarm hserves
      have hordered₁ := hordered.of_keeps hkeeps hserves.theInstance hserves₁.theInstance
      rw [hok, Except.ok_bind]
      exact (ih hrank' hcalls hserves₁ hordered₁).imp_left fun hall => ⟨hwarm, hall⟩
    · refine .inr ?_
      rcases h call server m w clients (hrank call List.mem_cons_self) hcall hwarm hserves
        hordered with ⟨-, hzero, w₁, hok, hordered₁, hinst, hgone⟩ | herror
      · rw [hok, Except.ok_bind]
        -- the other calls begin with a new server
        have hrest : calls.foldlM (World.call T fuel) w₁ = .error .deletedServer ∨
            ∃ w', calls.foldlM (World.call T fuel) w₁ = .ok w' := by
          cases calls with
          | nil => exact .inr ⟨w₁, rfl⟩
          | cons call' calls =>
            have hserves₁ := Serves.theServer (T := T) hinst
            have hserver : w₁.call T fuel call' = w₁.theServer.2.call T fuel call' :=
              World.call_congr (World.theServer_theServer w₁).symm
            rw [List.foldlM_cons, hserver, ← List.foldlM_cons]
            rcases ih hrank' (hzero ▸ hcalls) hserves₁ (hordered₁.theServer hinst) with
              hall | herror | ⟨w', hok', -⟩
            · obtain ⟨-, w', hok', -⟩ := (handles hk).foldlM hrank' hall hserves₁
              exact .inr ⟨w', hok'⟩
            · exact .inl herror
            · exact .inr ⟨w', hok'⟩
        refine hrest.imp_right ?_
        rintro ⟨w', hok'⟩
        exact ⟨w', hok', hgone.foldlM (fun _ _ _ h hok => h.call hok) hok'⟩
      · rw [herror]
        exact .inl rfl

/-- The value of the first singleton deletes the server while it is constructed. -/
lemma attach (h : Ends T fuel (T.rank name)) (hk : T.rank name ≤ fuel)
    (hserves : Serves T server m w 0) (hordered : Ordered w) (halone : ¬ T.StartsAlone name) :
    w.call T (fuel + 1) (.attach name) = .error .deletedServer := by
  have hn : m.lookup name = none := by
    rw [AList.lookup_eq_none, AList.mem_keys, hserves.keys_eq_nil]
    exact List.not_mem_nil
  have hserver := World.theServer_of_some hserves.theInstance
  have hsingletons := World.singletons_eq_ok hserves.singletons
  rcases h.foldlM hk (fun _ hcall => T.rank_ctor_lt hcall) (T.legal_ctor name)
    (hserves.allocWrapper name) (hordered.allocWrapper name) with
    hwarm | herror | ⟨w', hok, hgone⟩
  · exact absurd (Types.startsAlone_of_allWarm hwarm) halone
  · simp only [World.call, hserver, World.attach, hsingletons, Except.ok_bind, hn,
      World.newWrapper, herror]
    rfl
  · have hnew : (w.newWrapper name fun w => (T.ctor name).foldlM (World.call T fuel) w) =
        .ok (w.nextWrapper, w') := by
      simp only [World.newWrapper, hok, Except.ok_bind]
      rfl
    simp only [World.call, hserver, World.attach, hsingletons, Except.ok_bind, hn, hnew,
      hgone.singletons]
    rfl

/-- The value of the last singleton deletes the server while it is destroyed. -/
lemma detach (h : Ends T fuel (T.rank name)) (hk : T.rank name ≤ fuel)
    (hserves : Serves T server m w clients) (hordered : Ordered w) (hname : name ∈ clients)
    (hlast : clients.erase name = 0) (hdtor : T.dtor name ≠ []) :
    w.call T (fuel + 1) (.detach name) = .error .deletedServer := by
  obtain ⟨i, hi⟩ := hserves.exists_lookup hname
  have hone := hserves.wrappers_last hname hlast hi
  have hserver := World.theServer_of_some hserves.theInstance
  have hsingletons := World.singletons_eq_ok hserves.singletons
  have herase := hserves.erase hname hi hone (some 0)
  rw [hlast, zero_add] at herase
  have hordered' := (hordered.putWrapper i (some 0)).putSingletons hserves.theInstance
    (m.erase name)
  rcases h.foldlM hk (fun _ hcall => T.rank_dtor_lt hcall) (T.legal_dtor name) herase hordered' with
    hwarm | herror | ⟨w', hok, hgone⟩
  · exact absurd hwarm (Types.not_allWarm_dtor hdtor)
  · simp only [World.call, hserver, World.detach, hsingletons, Except.ok_bind, hi, World.decrRef,
      hone, World.deleteWrapper, herror]
    rfl
  · have hgone' := (hgone.putWrapper i none).record (.wrapperDeleted name i)
    have hdelete : (World.deleteWrapper
        ((w.putWrapper i (some 0)).putSingletons server (m.erase name)) name i
          fun w => (T.dtor name).foldlM (World.call T fuel) w) =
        .ok ((w'.putWrapper i none).record (.wrapperDeleted name i)) := by
      simp only [World.deleteWrapper, hok, Except.ok_bind]
      rfl
    simp only [World.call, hserver, World.detach, hsingletons, Except.ok_bind, hi, World.decrRef,
      hone, le_refl, decide_true, if_true, Nat.sub_self, hdelete, hgone'.singletons]
    rfl

end Ends

/-- What holds of the calls which are nested in a call holds of the call. -/
lemma ends (hk : k ≤ fuel) : Ends T fuel k := by
  induction fuel generalizing k with
  | zero =>
    intro call _ _ _ _ hrank
    exact absurd (lt_of_lt_of_le hrank hk) (Nat.not_lt_zero _)
  | succ fuel ih =>
    intro call server m w clients hrank hlegal hcold hserves hordered
    have hle : T.rank call.name ≤ fuel := Nat.le_of_lt_succ (lt_of_lt_of_le hrank hk)
    cases call with
    | attach name =>
      obtain ⟨rfl, halone⟩ := Classical.not_imp.mp hcold
      exact .inr ((ih hle).attach hle hserves hordered halone)
    | detach name =>
      have hlast : clients.erase name = 0 := by
        by_contra hne
        exact hcold ⟨hlegal.1, hne⟩
      by_cases hdtor : T.dtor name = []
      · obtain ⟨w', hok, hordered', hinst, hnext⟩ :=
          hserves.detach_last hordered hlegal.1 hlast hdtor fuel
        have hlt : server < w'.nextServer := hnext ▸ hordered.lt hserves.theInstance
        exact .inl ⟨fun _ => hdtor, hlast, w', hok, hordered', hinst, hordered'.gone hinst hlt⟩
      · exact .inr ((ih hle).detach hle hserves hordered hlegal.1 hlast hdtor)

/-! ### Runs -/

/-- A call which does not meet the condition uses a server after it is deleted. -/
lemma Tidy.call_error (h : Tidy T w clients) {call : Call Name}
    (hlegal : Call.Legal clients [call]) (hmeets : ¬ call.Meets T clients) :
    w.call T (T.rank call.name + 1) call = .error .deletedServer := by
  obtain ⟨server, m, -, hserves, hordered⟩ := h.exists_serves
  have hcold : ¬ call.Warm T clients := by
    intro hwarm
    apply hmeets
    cases call with
    | attach name => exact hwarm
    | detach name => exact fun hlast => absurd hlast hwarm.2
  rw [← World.call_congr (World.theServer_theServer w)]
  rcases ends le_rfl call server m w.theServer.2 clients (Nat.lt_succ_self _) hlegal hcold hserves
    hordered with ⟨h, -⟩ | herror
  · exact absurd h hmeets
  · exact herror

lemma Tidy.run_error (h : Tidy T w clients) {calls : List (Call Name)}
    (hlegal : Call.Legal clients calls) (hmeets : ¬ Call.AllMeet T clients calls) :
    w.run T calls = .error .deletedServer := by
  induction calls generalizing w clients with
  | nil => exact absurd trivial hmeets
  | cons call calls ih =>
    obtain ⟨hcall, hcalls⟩ := Call.legal_cons.mp hlegal
    rw [World.run, List.foldlM_cons]
    by_cases hmeet : call.Meets T clients
    · obtain ⟨w₁, hok, h₁⟩ := h.call hcall hmeet
      rw [hok, Except.ok_bind]
      exact ih h₁ hcalls fun hall => hmeets ⟨hmeet, hall⟩
    · rw [h.call_error hcall hmeet]
      rfl

/-- A run of legal calls uses no server after it is deleted if and only if every call meets the
condition. Then the calls end, each on the server on which it began, and a server is deleted once
and without singletons. -/
theorem run_exact (T : Types Name) {calls : List (Call Name)} (hlegal : Call.Legal 0 calls) :
    (Call.AllMeet T 0 calls → ∃ w, World.empty.run T calls = .ok w ∧
      (w.theInstance = none ↔ Call.holds 0 calls = 0) ∧
      (∀ server, w.servers server ≠ none → w.theInstance = some server) ∧
      (w.log.filterMap Event.created).Nodup ∧
      w.log.filterMap Event.created =
        w.log.filterMap Event.deleted ++ w.theInstance.toList ∧
      ∀ e ∈ w.log, e.Sound) ∧
    (¬ Call.AllMeet T 0 calls → World.empty.run T calls = .error .deletedServer) := by
  refine ⟨fun hmeets => ?_, fun hmeets => Tidy.empty.run_error hlegal hmeets⟩
  obtain ⟨w, hw, htidy⟩ := Tidy.empty.run hlegal hmeets
  refine ⟨w, hw, ⟨fun hnone => ?_, htidy.absent⟩, htidy.ordered.servers, ?_,
    htidy.ordered.deleted, htidy.ordered.sound⟩
  · by_contra hne
    obtain ⟨server, m, hserves⟩ := htidy.present hne
    rw [hserves.theInstance] at hnone
    cases hnone
  · rw [htidy.ordered.created]
    exact List.nodup_range

/-- The value of the singleton `1` holds the singleton `0`. -/
def holder : Types (Fin 2) where
  ctor name := if name = 1 then [.attach 0] else []
  dtor name := if name = 1 then [.detach 0] else []
  rank name := name
  rank_lt := by decide
  legal := by decide
  balanced := by decide

/-- With a client of its own the singleton `0` outlives the singleton `1`. -/
theorem run_exact_holder :
    (∃ w, World.empty.run holder [.attach 0, .attach 1, .detach 1, .detach 0] = .ok w ∧
      (w.theInstance = none ↔
        Call.holds 0 [Call.attach (0 : Fin 2), .attach 1, .detach 1, .detach 0] = 0) ∧
      (∀ server, w.servers server ≠ none → w.theInstance = some server) ∧
      (w.log.filterMap Event.created).Nodup ∧
      w.log.filterMap Event.created =
        w.log.filterMap Event.deleted ++ w.theInstance.toList ∧
      ∀ e ∈ w.log, e.Sound) ∧
    World.empty.run holder [.attach 1, .attach 0, .detach 0, .detach 1] =
      .error .deletedServer := by
  constructor
  · exact (run_exact holder (by decide)).1 ⟨fun _ => .intro 0 trivial nofun,
      fun h => absurd h (by decide), fun h => absurd h (by decide), fun _ => rfl, trivial⟩
  · exact (run_exact holder (by decide)).2 fun h => absurd (h.2.2.2.1 rfl) (by decide)

/-- The value of the last singleton takes the server away while it is destroyed. -/
theorem run_holder_fault :
    Call.Legal 0 [Call.attach (1 : Fin 2), .detach 1] ∧
      World.empty.run holder [.attach 1, .detach 1] = .error .deletedServer :=
  ⟨by decide, rfl⟩

end Utilmm.Singleton
