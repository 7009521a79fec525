import Utilmm.Singleton.Nested

/-!
# The life time of a singleton

For types whose values use no singletons, a singleton lives as long as it has clients: its wrapper
is created for the first one, and it is deleted with the last one. The server lives as long as
there are clients at all.
-/

namespace Utilmm.Singleton

variable {Name : Type} [DecidableEq Name] {T : Types Name} {server fuel i : Nat}
  {m : SingleMap Name} {w : World Name} {clients : Multiset Name} {name : Name}

/-- The construction and the destruction of values use no singletons. -/
def Types.Plain (T : Types Name) : Prop := ∀ name, T.ctor name = [] ∧ T.dtor name = []

lemma Types.Plain.held (h : T.Plain) (name : Name) : T.held name = 0 := by
  rw [Types.held, (h name).1]
  rfl

lemma Types.Plain.total (h : T.Plain) (m : SingleMap Name) (clients : Multiset Name) :
    T.total m clients = clients := by
  have hsum : ∀ names : List Name, (names.map T.held).sum = 0 := by
    intro names
    induction names with
    | nil => rfl
    | cons name names ih => rw [List.map_cons, List.sum_cons, h.held, ih, zero_add]
  rw [Types.total, hsum, add_zero]

lemma Types.Plain.meets (h : T.Plain) (call : Call Name) : call.Meets T clients := by
  cases call with
  | attach name =>
    intro _
    refine .intro name ?_ ?_
    · rw [(h name).1]
      trivial
    · intro name' calls hctor
      rw [(h name).1] at hctor
      cases hctor
  | detach name => exact fun _ => (h name).2

lemma Types.Plain.allMeet (h : T.Plain) (calls : List (Call Name)) :
    Call.AllMeet T clients calls := by
  induction calls generalizing clients with
  | nil => trivial
  | cons call calls ih => exact ⟨h.meets call, ih⟩

/-! ### Wrappers -/

def Event.ofWrapper : Event Name → Bool
  | wrapperCreated _ _ => true
  | wrapperDeleted _ _ => true
  | _ => false

/-- The events which create or delete a wrapper. -/
def lives (log : List (Event Name)) : List (Event Name) := log.filter Event.ofWrapper

omit [DecidableEq Name] in
lemma lives_append (log log' : List (Event Name)) : lives (log ++ log') = lives log ++ lives log' :=
  List.filter_append _ _

/-- The wrapper which the map of the server has for a name. -/
def World.Has (w : World Name) (name : Name) (wrapper : Nat) : Prop :=
  ∃ server m, w.theInstance = some server ∧ w.servers server = some m ∧
    m.lookup name = some wrapper

lemma World.dummyInstance_of_has (h : w.Has name i) : w.dummyInstance name = .ok (i, w) := by
  obtain ⟨server, m, hinst, hm, hi⟩ := h
  simp only [World.dummyInstance, World.theServer_of_some hinst, World.get,
    World.singletons_eq_ok hm, Except.ok_bind, hi]
  rfl

/-- What the clients of plain singletons find. -/
structure Alive (T : Types Name) (w : World Name) (clients : Multiset Name) : Prop where
  tidy : Tidy T w clients
  wrappers : ∀ i, w.wrappers i ≠ none → ∃ name, w.Has name i
  created : ∀ name i, .wrapperCreated name i ∈ w.log → i < w.nextWrapper

/-- What a call does to the wrappers: the first client of a name has a new one created, and the
last one has it deleted. -/
def Changes (w : World Name) (clients : Multiset Name) (w' : World Name) : Call Name → Prop
  | .attach name =>
    if name ∈ clients then lives w'.log = lives w.log
    else ∃ i, lives w'.log = lives w.log ++ [.wrapperCreated name i] ∧ w'.Has name i ∧
      ∀ name', .wrapperCreated name' i ∉ w.log
  | .detach name =>
    if clients.count name = 1 then
      ∃ i, lives w'.log = lives w.log ++ [.wrapperDeleted name i] ∧ w.Has name i ∧
        w'.wrappers i = none
    else lives w'.log = lives w.log

lemma World.has_iff (hinst : w.theInstance = some server) (hm : w.servers server = some m) :
    w.Has name i ↔ m.lookup name = some i := by
  constructor
  · rintro ⟨server', m', hinst', hm', hi⟩
    obtain rfl : server = server' := Option.some.inj (hinst.symm.trans hinst')
    obtain rfl : m = m' := Option.some.inj (hm.symm.trans hm')
    exact hi
  · exact fun hi => ⟨server, m, hinst, hm, hi⟩

lemma Serves.has_iff (h : Serves T server m w clients) :
    w.Has name i ↔ m.lookup name = some i := World.has_iff h.theInstance h.singletons

lemma World.Has.theServer (h : w.Has name i) : w.theServer.2.Has name i := by
  obtain ⟨server, m, hinst, hm, hi⟩ := h
  rw [World.theServer_of_some hinst]
  exact ⟨server, m, hinst, hm, hi⟩

lemma Tidy.not_has (h : Tidy T w 0) : ¬ w.Has name i := by
  rintro ⟨server, m, hinst, -⟩
  rw [h.absent rfl] at hinst
  cases hinst

/-- A new server has no wrappers. -/
lemma World.theServer_frame (w : World Name) :
    w.theServer.2.wrappers = w.wrappers ∧ w.theServer.2.nextWrapper = w.nextWrapper ∧
      lives w.theServer.2.log = lives w.log ∧
      ∀ name i, .wrapperCreated name i ∈ w.theServer.2.log ↔ .wrapperCreated name i ∈ w.log := by
  rw [World.theServer]
  cases w.theInstance <;> simp [lives, Event.ofWrapper]

lemma World.deleteServer_frame (w : World Name) :
    w.deleteServer.wrappers = w.wrappers ∧ w.deleteServer.nextWrapper = w.nextWrapper ∧
      lives w.deleteServer.log = lives w.log ∧
      ∀ name i, .wrapperCreated name i ∈ w.deleteServer.log ↔ .wrapperCreated name i ∈ w.log := by
  rw [World.deleteServer]
  cases w.theInstance <;> simp [lives, Event.ofWrapper]

/-! ### The first and the last client -/

/-- A wrapper whose value uses no singletons is constructed. -/
lemma Types.Plain.newWrapper (h : T.Plain) (w : World Name) :
    (w.newWrapper name fun w => (T.ctor name).foldlM (World.call T fuel) w) =
      .ok (w.nextWrapper, w.allocWrapper name) := by
  rw [World.newWrapper, (h name).1]
  rfl

/-- A wrapper is created for a name, and the server knows it under the name. -/
structure Created (w : World Name) (server : Nat) (m : SingleMap Name) (name : Name)
    (w' : World Name) : Prop where
  lives : lives w'.log = lives w.log ++ [.wrapperCreated name w.nextWrapper]
  created : ∀ name' i', .wrapperCreated name' i' ∈ w'.log →
    .wrapperCreated name' i' ∈ w.log ∨ i' = w.nextWrapper
  nextWrapper : w'.nextWrapper = w.nextWrapper + 1
  wrappers : ∀ i', w'.wrappers i' ≠ none → i' = w.nextWrapper ∨ w.wrappers i' ≠ none
  theInstance : w'.theInstance = w.theInstance
  singletons : w'.servers server = some (m.insert name w.nextWrapper)

lemma World.created (w : World Name) (server : Nat) (m : SingleMap Name) (name : Name)
    (inst : Option Nat) : Created w server m name
      ((((w.allocWrapper name).putSingletons server (m.insert name w.nextWrapper)).putWrapper
        w.nextWrapper (some 1)).record (.returned server inst)) where
  lives := (lives_append _ _).trans ((List.append_nil _).trans (lives_append _ _))
  created name' i' hcreated := by
    have hcreated : .wrapperCreated name' i' ∈ w.log ∨ name' = name ∧ i' = w.nextWrapper := by
      simpa [World.record, World.putWrapper, World.putSingletons, World.allocWrapper] using hcreated
    exact hcreated.imp_right And.right
  nextWrapper := rfl
  wrappers i' hi' := by
    by_cases hne : i' = w.nextWrapper
    · exact Or.inl hne
    · exact Or.inr fun hnone => hi' ((Function.update_of_ne hne _ _).trans
        ((Function.update_of_ne hne _ _).trans hnone))
  theInstance := rfl
  singletons := Function.update_self _ _ _

lemma Types.Plain.attach_first (h : T.Plain) (fuel : Nat) (hserver : w.theServer.1 = server)
    (hserves : Serves T server m w.theServer.2 clients) (hname : name ∉ clients) :
    ∃ w', Created w.theServer.2 server m name w' ∧
      w.call T (fuel + 1) (.attach name) = .ok w' := by
  have hnone : m.lookup name = none := hserves.lookup_eq_none (by rwa [h.total])
  refine ⟨_, w.theServer.2.created server m name (some server), ?_⟩
  refine (World.call_attach_of (Prod.ext hserver rfl : w.theServer = (server, w.theServer.2))
    (World.attach_of_none hserves.singletons hnone (h.newWrapper w.theServer.2)
      hserves.singletons hnone (Function.update_self _ _ _))).trans ?_
  rw [zero_add]
  congr 3
  exact hserves.theInstance

/-- The wrapper of a name is deleted, and the server forgets the name. -/
structure Deleted (w : World Name) (server : Nat) (m : SingleMap Name) (name : Name) (i : Nat)
    (w' : World Name) : Prop where
  lives : lives w'.log = lives w.log ++ [.wrapperDeleted name i]
  created : ∀ name' i', .wrapperCreated name' i' ∈ w'.log → .wrapperCreated name' i' ∈ w.log
  nextWrapper : w'.nextWrapper = w.nextWrapper
  wrappers : ∀ i', w'.wrappers i' ≠ none → i' ≠ i ∧ w.wrappers i' ≠ none
  gone : w'.wrappers i = none
  theInstance : w'.theInstance = w.theInstance
  singletons : w'.servers server = some (m.erase name)

lemma World.deleted (w : World Name) (server : Nat) (m : SingleMap Name) (name : Name) (i : Nat) :
    Deleted w server m name i ((((w.putWrapper i (some 0)).putSingletons server
      (m.erase name)).putWrapper i none).record (.wrapperDeleted name i)) where
  lives := lives_append _ _
  created name' i' hcreated := by
    simpa [World.record, World.putWrapper, World.putSingletons] using hcreated
  nextWrapper := rfl
  wrappers i' hi' := by
    have hne : i' ≠ i := by
      rintro rfl
      exact hi' (Function.update_self _ _ _)
    exact ⟨hne, fun hnone => hi' ((Function.update_of_ne hne _ _).trans
      ((Function.update_of_ne hne _ _).trans hnone))⟩
  gone := Function.update_self _ _ _
  theInstance := rfl
  singletons := Function.update_self _ _ _

/-- To record what was returned changes no wrapper. -/
lemma Deleted.record {w' : World Name} (h : Deleted w server m name i w')
    (inst : Option Nat) : Deleted w server m name i (w'.record (.returned server inst)) where
  lives := ((lives_append _ _).trans (List.append_nil _)).trans h.lives
  created name' i' hcreated := h.created name' i' (by simpa [World.record] using hcreated)
  nextWrapper := h.nextWrapper
  wrappers := h.wrappers
  gone := h.gone
  theInstance := h.theInstance
  singletons := h.singletons

lemma Types.Plain.detach_last (h : T.Plain) (fuel : Nat) (hserves : Serves T server m w clients)
    (hi : m.lookup name = some i) (hone : w.wrappers i = some 1) :
    ∃ w', Deleted w server m name i w' ∧ w.call T (fuel + 1) (.detach name) =
      .ok (if (m.erase name).keys.isEmpty then w'.deleteServer else w') := by
  refine ⟨_, (w.deleted server m name i).record w.theInstance, ?_⟩
  apply World.call_detach_of (World.theServer_of_some hserves.theInstance)
  apply World.detach_of_le hserves.singletons hi hone le_rfl _ (Function.update_self _ _ _)
  rw [World.deleteWrapper, (h name).2]
  rfl

/-! ### Steps -/

namespace Alive

/-- The counter of a wrapper changes, and nothing else does. -/
lemma putWrapper (h : Alive T w clients) {clients' : Multiset Name} {k : Option Nat}
    {inst : Option Nat} (hi : w.Has name i)
    (htidy : Tidy T ((w.putWrapper i k).record (.returned server inst)) clients') :
    Alive T ((w.putWrapper i k).record (.returned server inst)) clients' := by
  refine ⟨htidy, fun i' hi' => ?_, fun name' i' hcreated => ?_⟩
  · by_cases hne : i' = i
    · exact ⟨name, hne ▸ hi⟩
    · exact h.wrappers i' fun hnone => hi' ((Function.update_of_ne hne _ _).trans hnone)
  · apply h.created name' i'
    simpa [World.record, World.putWrapper] using hcreated

lemma attach (h : Alive T w clients) (hplain : T.Plain) (name : Name) (fuel : Nat) :
    ∃ w', w.call T (fuel + 1) (.attach name) = .ok w' ∧
      (Tidy T w' (name ::ₘ clients) → Alive T w' (name ::ₘ clients)) ∧
      Changes w clients w' (.attach name) ∧ ∀ name' i, w.Has name' i → w'.Has name' i := by
  obtain ⟨server, m, hserver, hserves, -⟩ := h.tidy.exists_serves
  by_cases hname : name ∈ clients
  · obtain ⟨server, m, hserves⟩ := h.tidy.present
      (fun hzero => Multiset.notMem_zero name (hzero ▸ hname))
    obtain ⟨i, hi⟩ := hserves.exists_lookup hname
    refine ⟨_, World.call_attach_of (World.theServer_of_some hserves.theInstance)
      (World.attach_of_some hserves.singletons hi (hserves.refCounter name i hi)),
      h.putWrapper (hserves.has_iff.mpr hi), ?_, fun _ _ h => h⟩
    rw [Changes, if_pos hname]
    exact (lives_append _ _).trans (List.append_nil _)
  · obtain ⟨w', hcreated, hcall⟩ := hplain.attach_first fuel hserver hserves hname
    obtain ⟨hwrappers, hnext, hlives, hlog⟩ := w.theServer_frame
    have hnone : m.lookup name = none := hserves.lookup_eq_none (by rwa [hplain.total])
    have hhas : ∀ {name' i}, w'.Has name' i ↔
        (m.insert name w.theServer.2.nextWrapper).lookup name' = some i :=
      World.has_iff (hcreated.theInstance.trans hserves.theInstance) hcreated.singletons
    have hnew : w'.Has name w.theServer.2.nextWrapper := hhas.mpr (AList.lookup_insert _)
    have hkept : ∀ name' i, w.Has name' i → w'.Has name' i := by
      intro name' i hi
      have hi := hserves.has_iff.mp hi.theServer
      have hne : name' ≠ name := by
        rintro rfl
        rw [hnone] at hi
        cases hi
      rw [hhas, AList.lookup_insert_ne hne]
      exact hi
    have hlt : ∀ name' i, .wrapperCreated name' i ∈ w.theServer.2.log →
        i < w.theServer.2.nextWrapper :=
      fun name' i hmem => hnext ▸ h.created name' i ((hlog name' i).mp hmem)
    refine ⟨w', hcall, fun htidy => ⟨htidy, fun i hi => ?_, fun name' i hmem => ?_⟩, ?_, hkept⟩
    · rcases hcreated.wrappers i hi with rfl | hold
      · exact ⟨name, hnew⟩
      · obtain ⟨name', hi⟩ := h.wrappers i (hwrappers ▸ hold)
        exact ⟨name', hkept name' i hi⟩
    · rw [hcreated.nextWrapper]
      rcases hcreated.created name' i hmem with hmem | rfl
      · exact Nat.lt_succ_of_lt (hlt name' i hmem)
      · exact Nat.lt_succ_self _
    · rw [Changes, if_neg hname]
      refine ⟨_, hlives ▸ hcreated.lives, hnew, fun name' hmem => ?_⟩
      exact absurd (hlt name' _ ((hlog _ _).mpr hmem)) (lt_irrefl _)

/-- What the other clients find when the wrapper of a name is deleted. -/
lemma has_of_deleted (hserves : Serves T server m w clients) {w' : World Name}
    (hw' : Deleted w server m name i w') {name' : Name} {i' : Nat} (hne : name' ≠ name)
    (hi' : w.Has name' i') : w'.Has name' i' := by
  refine (World.has_iff (hw'.theInstance.trans hserves.theInstance) hw'.singletons).mpr ?_
  rw [AList.lookup_erase_ne hne]
  exact hserves.has_iff.mp hi'

/-- A wrapper which is left belongs to another name. -/
lemma exists_has_of_deleted (h : Alive T w clients) (hserves : Serves T server m w clients)
    (hi : m.lookup name = some i) {w' : World Name} (hw' : Deleted w server m name i w') {i' : Nat}
    (hi' : w'.wrappers i' ≠ none) : ∃ name', name' ≠ name ∧ w.Has name' i' := by
  obtain ⟨hne, hold⟩ := hw'.wrappers i' hi'
  obtain ⟨name', hi'⟩ := h.wrappers i' hold
  refine ⟨name', ?_, hi'⟩
  rintro rfl
  exact hne (Option.some.inj ((hserves.has_iff.mp hi').symm.trans hi))

/-- The last client of a name leaves, and clients of other names stay. -/
lemma detach_name (h : Alive T w clients) (hserves : Serves T server m w clients)
    (hi : m.lookup name = some i) (hone : clients.count name = 1) {w' : World Name}
    (hw' : Deleted w server m name i w') :
    (Tidy T w' (clients.erase name) → Alive T w' (clients.erase name)) ∧
      Changes w clients w' (.detach name) ∧
      ∀ name' i, w.Has name' i → name' ∈ clients.erase name → w'.Has name' i := by
  refine ⟨fun htidy => ⟨htidy, fun i' hi' => ?_, fun name' i' hcreated => ?_⟩, ?_,
    fun name' i' hi' hname' => ?_⟩
  · obtain ⟨name', hne, hold⟩ := h.exists_has_of_deleted hserves hi hw' hi'
    exact ⟨name', has_of_deleted hserves hw' hne hold⟩
  · rw [hw'.nextWrapper]
    exact h.created name' i' (hw'.created name' i' hcreated)
  · rw [Changes, if_pos hone]
    exact ⟨i, hw'.lives, hserves.has_iff.mpr hi, hw'.gone⟩
  · refine has_of_deleted hserves hw' ?_ hi'
    rintro rfl
    rw [← Multiset.count_pos, Multiset.count_erase_self, hone] at hname'
    exact absurd hname' (lt_irrefl 0)

/-- The last client of all leaves, and the server is deleted. -/
lemma detach_server (h : Alive T w clients) (hserves : Serves T server m w clients)
    (hi : m.lookup name = some i) (hone : clients.count name = 1) {w' : World Name}
    (hw' : Deleted w server m name i w') (hkeys : (m.erase name).keys = []) :
    (Tidy T w'.deleteServer (clients.erase name) → Alive T w'.deleteServer (clients.erase name)) ∧
      Changes w clients w'.deleteServer (.detach name) := by
  obtain ⟨hwrappers, hnext, hlives, hlog⟩ := w'.deleteServer_frame
  refine ⟨fun htidy => ⟨htidy, fun i' hi' => ?_, fun name' i' hcreated => ?_⟩, ?_⟩
  · -- the wrapper which was deleted was the only one
    rw [hwrappers] at hi'
    obtain ⟨name', hne, hold⟩ := h.exists_has_of_deleted hserves hi hw' hi'
    have hmem : name' ∈ m.erase name := by
      rw [← AList.lookup_isSome, AList.lookup_erase_ne hne, hserves.has_iff.mp hold]
      rfl
    rw [AList.mem_keys, hkeys] at hmem
    cases hmem
  · rw [hnext, hw'.nextWrapper]
    exact h.created name' i' (hw'.created name' i' ((hlog name' i').mp hcreated))
  · rw [Changes, if_pos hone]
    exact ⟨i, hlives.trans hw'.lives, hserves.has_iff.mpr hi, by rw [hwrappers]; exact hw'.gone⟩

lemma detach (h : Alive T w clients) (hplain : T.Plain) (hname : name ∈ clients) (fuel : Nat) :
    ∃ w', w.call T (fuel + 1) (.detach name) = .ok w' ∧
      (Tidy T w' (clients.erase name) → Alive T w' (clients.erase name)) ∧
      Changes w clients w' (.detach name) ∧
      ∀ name' i, w.Has name' i → name' ∈ clients.erase name → w'.Has name' i := by
  obtain ⟨server, m, hserves⟩ := h.tidy.present
    (fun hzero => Multiset.notMem_zero name (hzero ▸ hname))
  obtain ⟨i, hi⟩ := hserves.exists_lookup hname
  have hcounter := hserves.refCounter name i hi
  rw [hplain.total] at hcounter
  by_cases hone : clients.count name = 1
  · rw [hone] at hcounter
    obtain ⟨w', hw', hcall⟩ := hplain.detach_last fuel hserves hi hcounter
    have herase := hserves.erase hname hi hcounter (some 0)
    rw [hplain.held, add_zero] at herase
    by_cases hzero : clients.erase name = 0
    · rw [hzero] at herase
      have hkeys := herase.keys_eq_nil
      rw [List.isEmpty_iff.mpr hkeys, if_pos rfl] at hcall
      obtain ⟨halive, hchanges⟩ := h.detach_server hserves hi hone hw' hkeys
      refine ⟨_, hcall, halive, hchanges, fun name' _ _ hname' => ?_⟩
      rw [hzero] at hname'
      exact absurd hname' (Multiset.notMem_zero name')
    · rw [List.isEmpty_eq_false_iff.mpr (herase.keys_ne_nil hzero)] at hcall
      exact ⟨w', hcall, h.detach_name hserves hi hone hw'⟩
  · have hlt : 1 < clients.count name := by
      have hpos := Multiset.count_pos.mpr hname
      omega
    refine ⟨_, World.call_detach_of (World.theServer_of_some hserves.theInstance)
      (World.detach_of_lt hserves.singletons hi hcounter hlt),
      h.putWrapper (hserves.has_iff.mpr hi), ?_, fun _ _ h _ => h⟩
    rw [Changes, if_neg hone]
    exact (lives_append _ _).trans (List.append_nil _)

/-- One call of a client of plain singletons. -/
lemma call (h : Alive T w clients) (hplain : T.Plain) {call : Call Name}
    (hlegal : Call.Legal clients [call]) :
    ∃ w', w.call T (T.rank call.name + 1) call = .ok w' ∧ Alive T w' (call.hold clients) ∧
      Changes w clients w' call ∧
      ∀ name i, w.Has name i → name ∈ call.hold clients → w'.Has name i := by
  obtain ⟨w', hcall, htidy⟩ := h.tidy.call hlegal (hplain.meets call)
  cases call with
  | attach name =>
    obtain ⟨w'', hcall', halive, hchanges, hhas⟩ := h.attach hplain name (T.rank name)
    obtain rfl : w' = w'' := Except.ok.inj (hcall.symm.trans hcall')
    exact ⟨w', hcall, halive htidy, hchanges, fun name' i hi _ => hhas name' i hi⟩
  | detach name =>
    obtain ⟨w'', hcall', halive, hchanges, hhas⟩ := h.detach hplain hlegal.1 (T.rank name)
    obtain rfl : w' = w'' := Except.ok.inj (hcall.symm.trans hcall')
    exact ⟨w', hcall, halive htidy, hchanges, hhas⟩

lemma empty : Alive T World.empty 0 :=
  ⟨.empty, fun _ h => absurd rfl h, fun _ _ h => absurd h List.not_mem_nil⟩

lemma run (h : Alive T w clients) (hplain : T.Plain) {calls : List (Call Name)}
    (hlegal : Call.Legal clients calls) :
    ∃ w', w.run T calls = .ok w' ∧ Alive T w' (Call.holds clients calls) := by
  refine World.exists_run (fun w clients call h hcall _ => ?_) h hlegal (hplain.allMeet calls)
  obtain ⟨w', hw', halive, -⟩ := h.call hplain hcall
  exact ⟨w', hw', halive⟩

lemma exists_has (h : Alive T w clients) (hname : name ∈ clients) : ∃ i, w.Has name i := by
  obtain ⟨server, m, hserves⟩ := h.tidy.present
    (fun hzero => Multiset.notMem_zero name (hzero ▸ hname))
  obtain ⟨i, hi⟩ := hserves.exists_lookup hname
  exact ⟨i, hserves.has_iff.mpr hi⟩

/-- Only names with clients have wrappers, which count these clients. -/
lemma of_has (h : Alive T w clients) (hplain : T.Plain) (hi : w.Has name i) :
    name ∈ clients ∧ w.wrappers i = some (clients.count name) := by
  by_cases hzero : clients = 0
  · subst hzero
    exact absurd hi h.tidy.not_has
  · obtain ⟨server, m, hserves⟩ := h.tidy.present hzero
    have hi := hserves.has_iff.mp hi
    have hmem := (hserves.mem_iff name).mp
      (AList.lookup_isSome.mp (Option.isSome_iff_exists.mpr ⟨i, hi⟩))
    have hcounter := hserves.refCounter name i hi
    rw [hplain.total] at hmem hcounter
    exact ⟨hmem, hcounter⟩

end Alive

/-- The life time of plain singletons: whatever the clients did, there is a server if and only if
there are clients, and a wrapper with as many references as clients for each name which has some.
The next call creates a wrapper for a first client and deletes it with the last one, and the
others find theirs again. -/
theorem lifetime (T : Types Name) (hplain : T.Plain) {calls : List (Call Name)}
    (hlegal : Call.Legal 0 calls) :
    ∃ w, World.empty.run T calls = .ok w ∧
      (w.theInstance = none ↔ Call.holds 0 calls = 0) ∧
      (∀ server, w.servers server ≠ none → w.theInstance = some server) ∧
      (∀ name, name ∈ Call.holds 0 calls ↔ ∃ i, w.Has name i) ∧
      (∀ name i, w.Has name i → w.wrappers i = some ((Call.holds 0 calls).count name) ∧
        w.dummyInstance name = .ok (i, w)) ∧
      (∀ i, w.wrappers i ≠ none → ∃ name, w.Has name i) ∧
      ∀ call : Call Name, Call.Legal (Call.holds 0 calls) [call] →
        ∃ w', w.call T (T.rank call.name + 1) call = .ok w' ∧
          Changes w (Call.holds 0 calls) w' call ∧
          ∀ name i, w.Has name i → name ∈ call.hold (Call.holds 0 calls) → w'.Has name i := by
  obtain ⟨w, hw, halive⟩ := (Alive.empty (T := T)).run hplain hlegal
  refine ⟨w, hw, ⟨fun hnone => ?_, halive.tidy.absent⟩, halive.tidy.ordered.servers,
    fun name => ⟨halive.exists_has, ?_⟩,
    fun name i hi => ⟨(halive.of_has hplain hi).2, World.dummyInstance_of_has hi⟩,
    halive.wrappers, fun call hcall => ?_⟩
  · by_contra hne
    obtain ⟨server, m, hserves⟩ := halive.tidy.present hne
    rw [hserves.theInstance] at hnone
    cases hnone
  · rintro ⟨i, hi⟩
    exact (halive.of_has hplain hi).1
  · obtain ⟨w', hw', -, hchanges, hhas⟩ := halive.call hplain hcall
    exact ⟨w', hw', hchanges, hhas⟩

/-- Types without calls. -/
def Types.plain : Types Name where
  ctor _ := []
  dtor _ := []
  rank _ := 0
  rank_lt _ _ h := absurd h List.not_mem_nil
  legal _ := trivial
  balanced _ := rfl

theorem lifetime_plain :
    Call.Legal 0 [Call.attach 'a', .attach 'b', .detach 'a', .detach 'b', .attach 'a'] ∧
      ∃ w, World.empty.run Types.plain
          [.attach 'a', .attach 'b', .detach 'a', .detach 'b', .attach 'a'] = .ok w ∧
        (w.theInstance = none ↔ Call.holds 0
          [Call.attach 'a', .attach 'b', .detach 'a', .detach 'b', .attach 'a'] = 0) := by
  obtain ⟨w, hw, hinst, -⟩ := lifetime Types.plain (fun _ => ⟨rfl, rfl⟩)
    (show Call.Legal 0 [Call.attach 'a', .attach 'b', .detach 'a', .detach 'b', .attach 'a']
      by decide)
  exact ⟨by decide, w, hw, hinst⟩

end Utilmm.Singleton
