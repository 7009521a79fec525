import Utilmm.Singleton.Server

/-!
# The clients of the singletons

The clients of a server are those outside and the values which are being constructed or destroyed.
The values of the singletons hold clients of their own, and a reference counter counts both. While
one client stays, the calls of the others keep the server, however deep they are nested.
-/

namespace Utilmm.Singleton

variable {Name : Type} [DecidableEq Name]

namespace Types

/-- What the value of a singleton holds. -/
def held (T : Types Name) (name : Name) : Multiset Name := Call.holds 0 (T.ctor name)

/-- The clients of the singletons of `m`, with those which their values are. -/
def total (T : Types Name) (m : SingleMap Name) (clients : Multiset Name) : Multiset Name :=
  clients + (m.keys.map T.held).sum

variable {T : Types Name} {m : SingleMap Name} {clients : Multiset Name} {name : Name} {i : Nat}

lemma total_cons : T.total m (name ::ₘ clients) = name ::ₘ T.total m clients :=
  Multiset.cons_add name clients _

lemma total_erase (h : name ∈ clients) :
    T.total m (clients.erase name) = (T.total m clients).erase name :=
  (Multiset.erase_add_left_pos _ h).symm

/-- The clients of a value under construction become clients of a singleton. -/
lemma total_insert (h : name ∉ m) :
    T.total (m.insert name i) clients = T.total m (clients + T.held name) := by
  rw [total, total, AList.keys_insert, List.erase_of_not_mem (mt AList.mem_keys.mpr h),
    List.map_cons, List.sum_cons, add_assoc]

/-- The clients of a singleton become clients of a value under destruction. -/
lemma total_erase_name (h : name ∈ m) :
    T.total (m.erase name) (clients + T.held name) = T.total m clients := by
  rw [total, total, AList.keys_erase, add_assoc, List.sum_map_erase _ (AList.mem_keys.mp h)]

lemma mem_total_of_mem (h : name ∈ clients) : name ∈ T.total m clients :=
  Multiset.mem_add.mpr (.inl h)

end Types

/-- The server is there for its clients: its map has the names of the clients, and the counters
count them. -/
structure Serves (T : Types Name) (server : Nat) (m : SingleMap Name) (w : World Name)
    (clients : Multiset Name) : Prop where
  theInstance : w.theInstance = some server
  singletons : w.servers server = some m
  mem_iff : ∀ name, name ∈ m ↔ name ∈ T.total m clients
  refCounter : ∀ name i, m.lookup name = some i →
    w.wrappers i = some ((T.total m clients).count name)
  inj : ∀ name name' i, m.lookup name = some i → m.lookup name' = some i → name = name'
  lt : ∀ name i, m.lookup name = some i → i < w.nextWrapper

/-- What happens while a server is there to stay. -/
def Event.Calm (server : Nat) : Event Name → Prop
  | serverCreated _ => False
  | serverDeleted _ _ => False
  | wrapperCreated _ _ => True
  | wrapperDeleted _ _ => True
  | returned server' theInstance => server' = server ∧ theInstance = some server

/-- From `w` to `w'`, nothing changed but what the singletons of ranks under `k` are. -/
structure Keeps (T : Types Name) (server k : Nat) (m : SingleMap Name) (w : World Name)
    (m' : SingleMap Name) (w' : World Name) : Prop where
  high : ∀ name, k ≤ T.rank name → m'.lookup name = m.lookup name
  wrappers : ∀ i < w.nextWrapper, (∀ name, m.lookup name ≠ some i) →
    w'.wrappers i = w.wrappers i ∧ ∀ name, m'.lookup name ≠ some i
  nextWrapper : w.nextWrapper ≤ w'.nextWrapper
  nextServer : w'.nextServer = w.nextServer
  servers : ∀ server', server' ≠ server → w'.servers server' = w.servers server'
  log : ∃ es, w'.log = w.log ++ es ∧ ∀ e ∈ es, e.Calm server

section

variable {T : Types Name} {server k k' i refCounter : Nat} {m m' m'' : SingleMap Name}
  {w w' w'' : World Name} {clients : Multiset Name} {name : Name}

namespace Keeps

lemma refl : Keeps T server k m w m w :=
  ⟨fun _ _ => rfl, fun _ _ h => ⟨rfl, h⟩, le_rfl, rfl, fun _ _ => rfl, [], by simp, by simp⟩

lemma trans (h : Keeps T server k m w m' w') (h' : Keeps T server k m' w' m'' w'') :
    Keeps T server k m w m'' w'' where
  high name hk := (h'.high name hk).trans (h.high name hk)
  wrappers i hi hm := by
    obtain ⟨heq, hm'⟩ := h.wrappers i hi hm
    obtain ⟨heq', hm''⟩ := h'.wrappers i (lt_of_lt_of_le hi h.nextWrapper) hm'
    exact ⟨heq'.trans heq, hm''⟩
  nextWrapper := le_trans h.nextWrapper h'.nextWrapper
  nextServer := h'.nextServer.trans h.nextServer
  servers server' hne := (h'.servers server' hne).trans (h.servers server' hne)
  log := by
    obtain ⟨es, heq, hes⟩ := h.log
    obtain ⟨es', heq', hes'⟩ := h'.log
    refine ⟨es ++ es', by rw [heq', heq, List.append_assoc], ?_⟩
    intro e he
    rcases List.mem_append.mp he with he | he
    · exact hes e he
    · exact hes' e he

lemma mono (h : Keeps T server k m w m' w') (hk : k ≤ k') : Keeps T server k' m w m' w' :=
  { h with high := fun name hname => h.high name (le_trans hk hname) }

/-- To write down what happens changes nothing else. -/
lemma record (h : Keeps T server k m w m' w') {e : Event Name} (he : e.Calm server) :
    Keeps T server k m w m' (w'.record e) where
  high := h.high
  wrappers := h.wrappers
  nextWrapper := h.nextWrapper
  nextServer := h.nextServer
  servers := h.servers
  log := by
    obtain ⟨es, heq, hes⟩ := h.log
    refine ⟨es ++ [e], by rw [World.record, heq, List.append_assoc], ?_⟩
    intro e' he'
    rcases List.mem_append.mp he' with he' | he'
    · exact hes e' he'
    · exact List.mem_singleton.mp he' ▸ he

/-- The counter of a singleton changes. -/
lemma putWrapper (hi : m.lookup name = some i) (refCounter : Option Nat) :
    Keeps T server k m w m (w.putWrapper i refCounter) where
  high _ _ := rfl
  wrappers i' _ hm := by
    have hne : i' ≠ i := by
      rintro rfl
      exact hm name hi
    exact ⟨Function.update_of_ne hne _ _, hm⟩
  nextWrapper := le_rfl
  nextServer := rfl
  servers _ _ := rfl
  log := ⟨[], by simp [World.putWrapper], by simp⟩

/-- A singleton is constructed and enters the map. -/
lemma construct (h : Keeps T server (T.rank name) m (w.allocWrapper name) m' w') :
    Keeps T server (T.rank name + 1) m w (m'.insert name w.nextWrapper)
      ((w'.putSingletons server (m'.insert name w.nextWrapper)).putWrapper w.nextWrapper
        (some 1)) where
  high name' hrank := by
    have hne : name' ≠ name := by
      rintro rfl
      exact absurd hrank (Nat.not_succ_le_self _)
    rw [AList.lookup_insert_ne hne]
    exact h.high name' (le_trans (Nat.le_succ _) hrank)
  wrappers i hi hm := by
    have hne : i ≠ w.nextWrapper := ne_of_lt hi
    obtain ⟨heq, hm'⟩ := h.wrappers i (Nat.lt_succ_of_lt hi) hm
    refine ⟨?_, fun name' hi' => ?_⟩
    · exact (Function.update_of_ne hne _ _).trans (heq.trans (Function.update_of_ne hne _ _))
    · by_cases hname : name' = name
      · subst hname
        rw [AList.lookup_insert] at hi'
        exact hne (Option.some.inj hi').symm
      · rw [AList.lookup_insert_ne hname] at hi'
        exact hm' name' hi'
  nextWrapper := le_trans (Nat.le_succ _) h.nextWrapper
  nextServer := h.nextServer
  servers server' hne := (Function.update_of_ne hne _ _).trans (h.servers server' hne)
  log := by
    obtain ⟨es, heq, hes⟩ := h.log
    refine ⟨.wrapperCreated name w.nextWrapper :: es, heq.trans ?_, ?_⟩
    · simp [World.allocWrapper]
    · simpa [Event.Calm] using hes

/-- A singleton leaves the map and is destroyed. -/
lemma destroy (hi : m.lookup name = some i) {refCounter : Option Nat}
    (h : Keeps T server (T.rank name) (m.erase name)
      ((w.putWrapper i refCounter).putSingletons server (m.erase name)) m' w') :
    Keeps T server (T.rank name + 1) m w m'
      ((w'.putWrapper i none).record (.wrapperDeleted name i)) where
  high name' hrank := by
    have hne : name' ≠ name := by
      rintro rfl
      exact absurd hrank (Nat.not_succ_le_self _)
    exact (h.high name' (le_trans (Nat.le_succ _) hrank)).trans (AList.lookup_erase_ne hne)
  wrappers i' hi' hm := by
    have hne : i' ≠ i := by
      rintro rfl
      exact hm name hi
    have hm' : ∀ name', (m.erase name).lookup name' ≠ some i' := by
      intro name'
      by_cases hname : name' = name
      · rw [hname, AList.lookup_erase]
        simp
      · rw [AList.lookup_erase_ne hname]
        exact hm name'
    obtain ⟨heq, hm''⟩ := h.wrappers i' hi' hm'
    exact ⟨(Function.update_of_ne hne _ _).trans (heq.trans (Function.update_of_ne hne _ _)), hm''⟩
  nextWrapper := h.nextWrapper
  nextServer := h.nextServer
  servers server' hne := (h.servers server' hne).trans (Function.update_of_ne hne _ _)
  log := by
    obtain ⟨es, heq, hes⟩ := h.log
    refine ⟨es ++ [.wrapperDeleted name i], ?_, ?_⟩
    · simp [World.record, World.putWrapper, heq, World.putSingletons]
    · intro e he
      rcases List.mem_append.mp he with he | he
      · exact hes e he
      · exact List.mem_singleton.mp he ▸ trivial

end Keeps

namespace Serves

/-- The server does not depend on the wrappers which are not in its map. -/
lemma congr (h : Serves T server m w clients) (hinst : w'.theInstance = w.theInstance)
    (hserver : w'.servers server = w.servers server)
    (hwrappers : ∀ name i, m.lookup name = some i → w'.wrappers i = w.wrappers i)
    (hnext : w.nextWrapper ≤ w'.nextWrapper) : Serves T server m w' clients where
  theInstance := hinst.trans h.theInstance
  singletons := hserver.trans h.singletons
  mem_iff := h.mem_iff
  refCounter name i hi := (hwrappers name i hi).trans (h.refCounter name i hi)
  inj := h.inj
  lt name i hi := lt_of_lt_of_le (h.lt name i hi) hnext

lemma record (h : Serves T server m w clients) (e : Event Name) :
    Serves T server m (w.record e) clients :=
  h.congr rfl rfl (fun _ _ _ => rfl) le_rfl

/-- The wrapper of a client is in the map. -/
lemma exists_lookup (h : Serves T server m w clients) (hname : name ∈ clients) :
    ∃ i, m.lookup name = some i :=
  Option.isSome_iff_exists.mp (AList.lookup_isSome.mpr
    ((h.mem_iff name).mpr (Types.mem_total_of_mem hname)))

lemma lookup_eq_none (h : Serves T server m w clients) (hname : name ∉ T.total m clients) :
    m.lookup name = none :=
  AList.lookup_eq_none.mpr (mt (h.mem_iff name).mp hname)

/-- The map of a server with clients is not empty. -/
lemma keys_ne_nil (h : Serves T server m w clients) (hclients : clients ≠ 0) : m.keys ≠ [] := by
  obtain ⟨name, hname⟩ := Multiset.exists_mem_of_ne_zero hclients
  intro hnil
  have hmem := AList.mem_keys.mp ((h.mem_iff name).mpr (Types.mem_total_of_mem hname))
  rw [hnil] at hmem
  cases hmem

/-- One more client. -/
lemma incr (h : Serves T server m w clients) (hi : m.lookup name = some i)
    (hk : w.wrappers i = some refCounter) :
    Serves T server m (w.putWrapper i (some (refCounter + 1))) (name ::ₘ clients) where
  theInstance := h.theInstance
  singletons := h.singletons
  mem_iff name' := by
    rw [Types.total_cons, Multiset.mem_cons, h.mem_iff]
    have hname : name ∈ T.total m clients :=
      (h.mem_iff name).mp (AList.lookup_isSome.mp (Option.isSome_iff_exists.mpr ⟨i, hi⟩))
    constructor
    · exact .inr
    · rintro (rfl | hname')
      · exact hname
      · exact hname'
  refCounter name' i' hi' := by
    rw [Types.total_cons]
    by_cases hne : name' = name
    · subst hne
      obtain rfl : i = i' := Option.some.inj (hi.symm.trans hi')
      rw [h.refCounter name' i hi] at hk
      rw [Multiset.count_cons_self, Option.some.inj hk]
      exact Function.update_self _ _ _
    · have hii : i' ≠ i := by
        rintro rfl
        exact hne (h.inj _ _ _ hi' hi)
      rw [Multiset.count_cons_of_ne hne, ← h.refCounter name' i' hi']
      exact Function.update_of_ne hii _ _
  inj := h.inj
  lt := h.lt

/-- One client less, and others stay. -/
lemma decr (h : Serves T server m w clients) (hname : name ∈ clients)
    (hi : m.lookup name = some i) (hk : w.wrappers i = some refCounter) (hlt : 1 < refCounter) :
    Serves T server m (w.putWrapper i (some (refCounter - 1))) (clients.erase name) where
  theInstance := h.theInstance
  singletons := h.singletons
  mem_iff name' := by
    rw [Types.total_erase hname, h.mem_iff]
    by_cases hne : name' = name
    · subst hne
      rw [h.refCounter name' i hi] at hk
      have hcount := Option.some.inj hk
      rw [← Multiset.count_pos, ← Multiset.count_pos, Multiset.count_erase_self]
      omega
    · rw [Multiset.mem_erase_of_ne hne]
  refCounter name' i' hi' := by
    rw [Types.total_erase hname]
    by_cases hne : name' = name
    · subst hne
      obtain rfl : i = i' := Option.some.inj (hi.symm.trans hi')
      rw [h.refCounter name' i hi] at hk
      rw [Multiset.count_erase_self, Option.some.inj hk]
      exact Function.update_self _ _ _
    · have hii : i' ≠ i := by
        rintro rfl
        exact hne (h.inj _ _ _ hi' hi)
      rw [Multiset.count_erase_of_ne hne, ← h.refCounter name' i' hi']
      exact Function.update_of_ne hii _ _
  inj := h.inj
  lt := h.lt

/-- A singleton is born. -/
lemma insert (h : Serves T server m w (clients + T.held name)) (hname : name ∉ m)
    (hm : ∀ name', m.lookup name' ≠ some i) (hlt : i < w.nextWrapper) :
    Serves T server (m.insert name i)
      ((w.putSingletons server (m.insert name i)).putWrapper i (some 1)) (name ::ₘ clients) where
  theInstance := h.theInstance
  singletons := Function.update_self _ _ _
  mem_iff name' := by
    rw [Types.total_cons, Types.total_insert hname, AList.mem_insert, Multiset.mem_cons, h.mem_iff]
  refCounter name' i' hi' := by
    rw [Types.total_cons, Types.total_insert hname]
    by_cases hne : name' = name
    · subst hne
      rw [AList.lookup_insert] at hi'
      obtain rfl : i = i' := Option.some.inj hi'
      rw [Multiset.count_cons_self, Multiset.count_eq_zero_of_notMem (mt (h.mem_iff name').mpr hname)]
      exact Function.update_self _ _ _
    · rw [AList.lookup_insert_ne hne] at hi'
      have hii : i' ≠ i := by
        rintro rfl
        exact hm name' hi'
      rw [Multiset.count_cons_of_ne hne, ← h.refCounter name' i' hi']
      exact Function.update_of_ne hii _ _
  inj name₁ name₂ i' h₁ h₂ := by
    by_cases hne₁ : name₁ = name <;> by_cases hne₂ : name₂ = name
    · rw [hne₁, hne₂]
    · rw [hne₁, AList.lookup_insert] at h₁
      rw [AList.lookup_insert_ne hne₂, ← Option.some.inj h₁] at h₂
      exact absurd h₂ (hm name₂)
    · rw [hne₂, AList.lookup_insert] at h₂
      rw [AList.lookup_insert_ne hne₁, ← Option.some.inj h₂] at h₁
      exact absurd h₁ (hm name₁)
    · rw [AList.lookup_insert_ne hne₁] at h₁
      rw [AList.lookup_insert_ne hne₂] at h₂
      exact h.inj _ _ _ h₁ h₂
  lt name' i' hi' := by
    by_cases hne : name' = name
    · subst hne
      rw [AList.lookup_insert] at hi'
      exact Option.some.inj hi' ▸ hlt
    · rw [AList.lookup_insert_ne hne] at hi'
      exact h.lt name' i' hi'

/-- A singleton leaves the map, and its value is about to be destroyed. -/
lemma erase (h : Serves T server m w clients) (hname : name ∈ clients)
    (hi : m.lookup name = some i) (hk : w.wrappers i = some 1) (k : Option Nat) :
    Serves T server (m.erase name)
      ((w.putWrapper i k).putSingletons server (m.erase name))
      (clients.erase name + T.held name) := by
  have hmem : name ∈ m := AList.lookup_isSome.mp (Option.isSome_iff_exists.mpr ⟨i, hi⟩)
  have htotal : T.total (m.erase name) (clients.erase name + T.held name) =
      (T.total m clients).erase name :=
    (Types.total_erase_name hmem).trans (Types.total_erase hname)
  have hcount : (T.total m clients).count name = 1 :=
    Option.some.inj ((h.refCounter name i hi).symm.trans hk)
  have hold : ∀ {name' i'}, (m.erase name).lookup name' = some i' →
      name' ≠ name ∧ m.lookup name' = some i' := by
    intro name' i' hi'
    by_cases hne : name' = name
    · rw [hne, AList.lookup_erase] at hi'
      cases hi'
    · rw [AList.lookup_erase_ne hne] at hi'
      exact ⟨hne, hi'⟩
  refine ⟨h.theInstance, Function.update_self _ _ _, ?_, ?_, ?_, ?_⟩
  · intro name'
    rw [htotal, AList.mem_erase, h.mem_iff]
    by_cases hne : name' = name
    · subst hne
      rw [← Multiset.count_pos, ← Multiset.count_pos, Multiset.count_erase_self, hcount]
      simp
    · rw [Multiset.mem_erase_of_ne hne, and_iff_right hne]
  · intro name' i' hi'
    obtain ⟨hne, hi'⟩ := hold hi'
    have hii : i' ≠ i := by
      rintro rfl
      exact hne (h.inj _ _ _ hi' hi)
    rw [htotal, Multiset.count_erase_of_ne hne, ← h.refCounter name' i' hi']
    exact Function.update_of_ne hii _ _
  · intro name₁ name₂ i' h₁ h₂
    exact h.inj _ _ _ (hold h₁).2 (hold h₂).2
  · intro name' i' hi'
    exact h.lt name' i' (hold hi').2

end Serves

end

/-! ### Calls while clients stay -/

namespace Call

/-- Some client is there after every call. -/
def Steady (clients : Multiset Name) : List (Call Name) → Prop
  | [] => True
  | call :: calls => call.hold clients ≠ 0 ∧ Steady (call.hold clients) calls

variable {clients : Multiset Name} {calls calls' : List (Call Name)}

lemma legal_append :
    Legal clients (calls ++ calls') ↔ Legal clients calls ∧ Legal (holds clients calls) calls' := by
  induction calls generalizing clients with
  | nil => simp [Legal, holds]
  | cons call calls ih =>
    cases call with
    | attach name => exact ih
    | detach name =>
      simp only [List.cons_append, Legal, ih, and_assoc]
      rfl

lemma legal_cons {call : Call Name} :
    Legal clients (call :: calls) ↔ Legal clients [call] ∧ Legal (call.hold clients) calls :=
  @legal_append Name _ clients [call] calls

/-- Clients come from calls. -/
lemma mem_holds {name : Name} (h : name ∈ holds clients calls) :
    name ∈ clients ∨ ∃ call ∈ calls, call.name = name := by
  induction calls generalizing clients with
  | nil => exact .inl h
  | cons call calls ih =>
    rcases ih h with h | ⟨call', hcall', rfl⟩
    · cases call with
      | attach name' =>
        rcases Multiset.mem_cons.mp h with rfl | h
        · exact .inr ⟨_, List.mem_cons_self, rfl⟩
        · exact .inl h
      | detach name' => exact .inl (Multiset.mem_of_mem_erase h)
    · exact .inr ⟨call', List.mem_cons_of_mem call hcall', rfl⟩

/-- Other clients do not disturb. -/
lemma hold_add (others : Multiset Name) {call : Call Name} (h : Legal clients [call]) :
    call.hold (others + clients) = others + call.hold clients := by
  cases call with
  | attach name => exact (Multiset.add_cons name others clients).symm
  | detach name => exact Multiset.erase_add_right_pos others h.1

end Call

namespace Types

lemma rank_ctor_lt (T : Types Name) {name : Name} {call : Call Name} (h : call ∈ T.ctor name) :
    T.rank call.name < T.rank name :=
  T.rank_lt name call (List.mem_append_left _ h)

lemma rank_dtor_lt (T : Types Name) {name : Name} {call : Call Name} (h : call ∈ T.dtor name) :
    T.rank call.name < T.rank name :=
  T.rank_lt name call (List.mem_append_right _ h)

lemma legal_ctor (T : Types Name) (name : Name) : Call.Legal 0 (T.ctor name) :=
  (Call.legal_append.mp (T.legal name)).1

lemma legal_dtor (T : Types Name) (name : Name) : Call.Legal (T.held name) (T.dtor name) :=
  (Call.legal_append.mp (T.legal name)).2

/-- The destructor gives back what the value holds. -/
lemma holds_dtor (T : Types Name) (name : Name) :
    Call.holds (T.held name) (T.dtor name) = 0 := by
  have hbalanced := T.balanced name
  rwa [Call.holds, List.foldl_append] at hbalanced

end Types

lemma Types.rank_lt_of_mem_held {T : Types Name} {name name' : Name} (h : name ∈ T.held name') :
    T.rank name < T.rank name' := by
  rcases Call.mem_holds h with h | ⟨call, hcall, rfl⟩
  · exact absurd h (Multiset.notMem_zero name)
  · exact T.rank_ctor_lt hcall

lemma Types.mem_sum_held {T : Types Name} {name : Name} {names : List Name}
    (h : name ∈ (names.map T.held).sum) : ∃ name' ∈ names, name ∈ T.held name' := by
  induction names with
  | nil => exact absurd h (Multiset.notMem_zero name)
  | cons name' names ih =>
    rw [List.map_cons, List.sum_cons, Multiset.mem_add] at h
    rcases h with h | h
    · exact ⟨name', List.mem_cons_self, h⟩
    · obtain ⟨name'', hmem, hheld⟩ := ih h
      exact ⟨name'', List.mem_cons_of_mem name' hmem, hheld⟩

/-- Without clients there are no singletons: nobody holds the one with the highest rank. -/
lemma Serves.keys_eq_nil {T : Types Name} {server : Nat} {m : SingleMap Name} {w : World Name}
    (h : Serves T server m w 0) : m.keys = [] := by
  by_contra hne
  obtain ⟨name, hname, hmax⟩ := m.keys.toFinset.exists_max_image T.rank
    (List.toFinset_nonempty_iff _ |>.mpr hne)
  have htotal := (h.mem_iff name).mp (AList.mem_keys.mpr (List.mem_toFinset.mp hname))
  rw [Types.total, zero_add] at htotal
  obtain ⟨name', hname', hheld⟩ := Types.mem_sum_held htotal
  exact absurd (Types.rank_lt_of_mem_held hheld)
    (not_lt.mpr (hmax name' (List.mem_toFinset.mpr hname')))

/-- A singleton can be constructed while there is no other: the value does not give back what it
holds last, and the first singleton which it uses can be constructed so. -/
inductive Types.StartsAlone (T : Types Name) : Name → Prop
  | intro (name : Name) (hsteady : Call.Steady 0 (T.ctor name))
      (hfirst : ∀ name' calls, T.ctor name = .attach name' :: calls → T.StartsAlone name') :
      T.StartsAlone name

/-- The call does not take the last client away. -/
def Call.Warm (T : Types Name) (clients : Multiset Name) : Call Name → Prop
  | attach name => clients = 0 → T.StartsAlone name
  | detach name => name ∈ clients ∧ clients.erase name ≠ 0

/-- None of the calls takes the last client away. -/
def Call.AllWarm (T : Types Name) (clients : Multiset Name) : List (Call Name) → Prop
  | [] => True
  | call :: calls => call.Warm T clients ∧ AllWarm T (call.hold clients) calls

section

variable {T : Types Name} {server k : Nat} {m : SingleMap Name} {w : World Name}
  {clients others : Multiset Name} {name : Name} {calls : List (Call Name)}

/-- Calls are warm while others stay. -/
lemma Call.allWarm_add (hothers : others ≠ 0) (h : Call.Legal clients calls) :
    Call.AllWarm T (others + clients) calls ∧
      Call.holds (others + clients) calls = others + Call.holds clients calls := by
  induction calls generalizing clients with
  | nil => exact ⟨trivial, rfl⟩
  | cons call calls ih =>
    obtain ⟨hcall, hcalls⟩ := Call.legal_cons.mp h
    obtain ⟨hwarm, hholds⟩ := ih hcalls
    have hadd := Call.hold_add others hcall
    refine ⟨⟨?_, hadd ▸ hwarm⟩, (congrArg (Call.holds · calls) hadd).trans hholds⟩
    have hne : call.hold (others + clients) ≠ 0 := by
      rw [hadd]
      exact fun hzero => hothers (add_eq_zero.mp hzero).1
    cases call with
    | attach name =>
      intro hzero
      exact absurd (add_eq_zero.mp hzero).1 hothers
    | detach name => exact ⟨Multiset.mem_add.mpr (.inr hcall.1), hne⟩

lemma Call.allWarm_of_steady (h : Call.Legal clients calls) (hsteady : Call.Steady clients calls)
    (hclients : clients ≠ 0) : Call.AllWarm T clients calls := by
  induction calls generalizing clients with
  | nil => trivial
  | cons call calls ih =>
    obtain ⟨hcall, hcalls⟩ := Call.legal_cons.mp h
    refine ⟨?_, ih hcalls hsteady.2 hsteady.1⟩
    cases call with
    | attach name => exact fun hzero => absurd hzero hclients
    | detach name => exact ⟨hcall.1, hsteady.1⟩

/-- The constructor of a singleton is warm if others stay or if it can start alone. -/
lemma Types.allWarm_ctor (h : others = 0 → T.StartsAlone name) :
    Call.AllWarm T others (T.ctor name) ∧
      Call.holds others (T.ctor name) = others + T.held name := by
  have hlegal := T.legal_ctor name
  by_cases hothers : others = 0
  · subst hothers
    obtain ⟨_, hsteady, hfirst⟩ := h rfl
    refine ⟨?_, (zero_add _).symm⟩
    cases hctor : T.ctor name with
    | nil => trivial
    | cons call calls =>
      rw [hctor] at hlegal hsteady
      cases call with
      | attach name' =>
        exact ⟨fun _ => hfirst name' calls hctor,
          Call.allWarm_of_steady hlegal hsteady.2 hsteady.1⟩
      | detach name' => exact absurd hlegal.1 (Multiset.notMem_zero name')
  · have h := Call.allWarm_add (T := T) hothers hlegal
    rwa [add_zero] at h

/-- The destructor of a singleton gives back what the constructor took. -/
lemma Types.allWarm_dtor (T : Types Name) (name : Name) (hothers : others ≠ 0) :
    Call.AllWarm T (others + T.held name) (T.dtor name) ∧
      Call.holds (others + T.held name) (T.dtor name) = others := by
  obtain ⟨hwarm, hholds⟩ := Call.allWarm_add (T := T) hothers (T.legal_dtor name)
  exact ⟨hwarm, hholds.trans ((congrArg (others + ·) (T.holds_dtor name)).trans (add_zero others))⟩

end

end Utilmm.Singleton
