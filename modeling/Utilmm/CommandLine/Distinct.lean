import Utilmm.CommandLine.Correctness

/-!
# Options that do not get in each other's way

With pairwise distinct long names, short names and keys a word spells at most one option and a
key belongs to at most one option. The reading then names options without regard to their order,
and the final configuration can be told key by key.
-/

namespace Utilmm

namespace CommandLine

/-- Pairwise distinct long names, short names where present, and configuration keys. -/
structure Distinct (opts : List CmdlineOption) : Prop where
  long : opts.Pairwise fun a b => a.getLong ≠ b.getLong
  short : opts.Pairwise fun a b => a.getShort ≠ [] → a.getShort ≠ b.getShort
  key : opts.Pairwise fun a b => a.getConfigKey ≠ b.getConfigKey

/-- Pairwise distinct long names, and short names where present. -/
structure DistinctNames (opts : List CmdlineOption) : Prop where
  long : opts.Pairwise fun a b => a.getLong ≠ b.getLong
  short : opts.Pairwise fun a b => a.getShort ≠ [] → a.getShort ≠ b.getShort

lemma Distinct.names {opts : List CmdlineOption} (hd : Distinct opts) : DistinctNames opts :=
  ⟨hd.long, hd.short⟩

/-- The word spells an option of the list. -/
def Spelled (opts : List CmdlineOption) (w : Str) (o : CmdlineOption) : Prop :=
  o ∈ opts ∧ o.spells w

/-! ### A word spells one option -/

instance : Std.Symm fun a b : CmdlineOption => a.getLong ≠ b.getLong := ⟨fun _ _ h => h.symm⟩

instance : Std.Symm fun a b : CmdlineOption => a.getShort ≠ [] → a.getShort ≠ b.getShort :=
  ⟨fun _ _ h hb heq => h (heq ▸ hb) heq.symm⟩

instance : Std.Symm fun a b : CmdlineOption => a.getConfigKey ≠ b.getConfigKey :=
  ⟨fun _ _ h => h.symm⟩

/-- A word cannot be split at its first `=` in two ways. -/
lemma append_eq_inj {l l' : Str} (v v' : Str) (hl : ∀ c ∈ l, isIdent c) (hl' : ∀ c ∈ l', isIdent c)
    (h : l ++ ['='] ++ v = l' ++ ['='] ++ v') : l = l' := by
  have hcut : ∀ (l v : Str), (∀ c ∈ l, isIdent c) →
      (l ++ ['='] ++ v).takeWhile isIdent = l := by
    intro l v hl
    rw [List.append_assoc, List.takeWhile_append_of_pos hl]
    simp [show isIdent '=' = false by decide]
  rw [← hcut l v hl, h, hcut l' v' hl']

lemma long_ne_longValue {l l' v : Str} (hl : ∀ c ∈ l, isIdent c) : l ≠ l' ++ ['='] ++ v := by
  intro h
  have heq : isIdent '=' := hl '=' (by rw [h]; simp)
  exact absurd heq (by decide)

/-- Two options with distinct names that spell the same word are the same. -/
lemma DistinctNames.eq_of_spells {opts : List CmdlineOption} (hd : DistinctNames opts)
    (hwf : ∀ o ∈ opts, o.WellFormed) {o o' : CmdlineOption} (ho : o ∈ opts) (ho' : o' ∈ opts)
    {w : Str} (hw : w ≠ ['-']) (h : o.spells w) (h' : o'.spells w) : o = o' := by
  by_contra hne
  have hlong : o.getLong ≠ o'.getLong := hd.long.forall ho ho' hne
  have hshort : o.getShort ≠ [] → o.getShort ≠ o'.getShort := hd.short.forall ho ho' hne
  have hid : ∀ c ∈ o.getLong, isIdent c := (hwf o ho).long_ident
  have hid' : ∀ c ∈ o'.getLong, isIdent c := (hwf o' ho').long_ident
  rcases CmdlineOption.spells_iff.mp h with rfl | rfl | ⟨v, rfl⟩ <;>
    rcases CmdlineOption.spells_iff.mp h' with hs | hl | ⟨v', hv⟩
  · refine hshort (fun hnil => hw (by simp [hnil])) ?_
    simpa using hs
  · exact (hwf o ho).short_ne (by have := (hwf o' ho').long_length; simp; omega) hl.symm
  · exact (hwf o ho).short_ne (by simp; omega) hv.symm
  · exact (hwf o' ho').short_ne (by have := (hwf o ho).long_length; simp; omega) hs
  · exact hlong (by simpa using hl)
  · exact long_ne_longValue (v := v') hid (by simpa using hv)
  · exact (hwf o' ho').short_ne (by simp; omega) hs
  · exact long_ne_longValue (v := v) hid' (by simpa using hl.symm)
  · exact hlong (append_eq_inj v v' hid hid' (by simpa using hv))

/-- With distinct names the order of the options does not matter for a word. -/
lemma firstSpelled_iff {cl : CommandLine} (hd : DistinctNames cl.options) {w : Str}
    (hw : w ≠ ['-']) (o : CmdlineOption) :
    FirstSpelled cl.options w o ↔ Spelled cl.options w o := by
  constructor
  · intro h
    exact ⟨List.mem_of_find?_eq_some h, by simpa using List.find?_some h⟩
  · rintro ⟨ho, hspells⟩
    cases hfind : cl.options.find? (·.spells w) with
    | none => exact absurd hspells (by simpa using List.find?_eq_none.mp hfind o ho)
    | some o' =>
      have ho' : o' ∈ cl.options := List.mem_of_find?_eq_some hfind
      have hspells' : o'.spells w := by simpa using List.find?_some hfind
      rw [FirstSpelled, hfind, hd.eq_of_spells cl.wellFormed ho' ho hw hspells' hspells]

/-! ### Values by key -/

/-- The values that the events give to an option, in order. -/
def givenTo (o : CmdlineOption) (es : List Event) : List Str :=
  es.filterMap fun e => match e with
    | .positional _ => none
    | .given o' v _ => if o' = o then some v else none

/-- What the given values make of the values that were there before. -/
def stored (o : CmdlineOption) (initial given : List Str) : List Str :=
  if o.isMultiple then initial ++ given
  else match given.getLast? with
    | none => initial
    | some v => [v]

/-- The values of an option after `parse`: those stored, or else the default. -/
def finalValues (o : CmdlineOption) (initial given : List Str) : List Str :=
  if stored o initial given = [] ∧ o.hasDefaultValue then [o.getDefaultValue]
  else stored o initial given

lemma stored_cons (o : CmdlineOption) (initial given : List Str) (v : Str) :
    stored o initial (v :: given)
      = stored o (if o.isMultiple then initial ++ [v] else [v]) given := by
  cases hm : o.isMultiple with
  | true => simp [stored, hm]
  | false => cases hl : given.getLast? <;> simp [stored, hm, List.getLast?_cons, hl]

lemma valuesOf_store_self (o : CmdlineOption) (v : Str) (config : ConfigSet) :
    (store o v config).valuesOf o.getConfigKey
      = if o.isMultiple then config.valuesOf o.getConfigKey ++ [v] else [v] := by
  rw [store]
  split_ifs <;> simp

lemma valuesOf_store_of_ne {o : CmdlineOption} {key : Str} (h : o.getConfigKey ≠ key) (v : Str)
    (config : ConfigSet) : (store o v config).valuesOf key = config.valuesOf key := by
  rw [store]
  split_ifs
  · exact config.valuesOf_insert_of_ne h v
  · exact config.valuesOf_set_of_ne h v

@[simp] lemma children_store (o : CmdlineOption) (v : Str) (config : ConfigSet) :
    (store o v config).children = config.children := by
  rw [store]
  split_ifs <;> rfl

/-- The options that a reading gives values to are named by words of the command line. -/
lemma Reads.names {names : Str → CmdlineOption → Prop} {ws rest : List Str} {es : List Event}
    (h : Reads names ws es rest) :
    ∀ o v words, Event.given o v words ∈ es → ∃ w ∈ ws, names w o := by
  induction h with
  | stop ws => intro o v words h; simp at h
  | positional _ _ ih =>
    intro o v words h
    obtain ⟨w, hw, ho⟩ := ih o v words (by simpa using h)
    exact ⟨w, List.mem_cons_of_mem _ hw, ho⟩
  | @given w v o ws words next rest es _ ho hws _ _ ih =>
    intro o' v' words' h
    rcases List.mem_cons.mp h with heq | h
    · cases heq
      exact ⟨w, List.mem_cons_self, ho⟩
    · obtain ⟨w', hw', ho'⟩ := ih o' v' words' h
      exact ⟨w', hws ▸ List.mem_append_right _ hw', ho'⟩

lemma Reads.mem_options {opts : List CmdlineOption} {ws rest : List Str} {es : List Event}
    (h : Reads (FirstSpelled opts) ws es rest) {o : CmdlineOption} {v : Str} {words : List Str}
    (hmem : Event.given o v words ∈ es) : o ∈ opts := by
  obtain ⟨w, -, ho⟩ := h.names o v words hmem
  exact List.mem_of_find?_eq_some ho

lemma children_storeEvents (es : List Event) (config : ConfigSet) :
    (storeEvents es config).children = config.children := by
  induction es generalizing config with
  | nil => rfl
  | cons e es ih =>
    cases e with
    | positional w => exact ih config
    | given o v words => exact (ih (store o v config)).trans (children_store o v config)

lemma childrenNamed_storeEvents (es : List Event) (config : ConfigSet) (key : Str) :
    (storeEvents es config).childrenNamed key = config.childrenNamed key := by
  rw [ConfigSet.childrenNamed, children_storeEvents]
  rfl

/-- A key that no given option has keeps its values. -/
lemma valuesOf_storeEvents_of_ne {es : List Event} {key : Str} (config : ConfigSet)
    (h : ∀ o v words, Event.given o v words ∈ es → o.getConfigKey ≠ key) :
    (storeEvents es config).valuesOf key = config.valuesOf key := by
  induction es generalizing config with
  | nil => rfl
  | cons e es ih =>
    have htail : ∀ o v words, Event.given o v words ∈ es → o.getConfigKey ≠ key :=
      fun o v words ho => h o v words (List.mem_cons_of_mem _ ho)
    cases e with
    | positional w => exact ih config htail
    | given o v words =>
      have hne := h o v words List.mem_cons_self
      exact (ih (store o v config) htail).trans (valuesOf_store_of_ne hne v config)

/-- The key of an option holds what the reading gives to that option. -/
lemma valuesOf_storeEvents {o : CmdlineOption} (es : List Event) (config : ConfigSet)
    (h : ∀ o' v words, Event.given o' v words ∈ es → o' ≠ o →
      o'.getConfigKey ≠ o.getConfigKey) :
    (storeEvents es config).valuesOf o.getConfigKey
      = stored o (config.valuesOf o.getConfigKey) (givenTo o es) := by
  induction es generalizing config with
  | nil => cases hm : o.isMultiple <;> simp [storeEvents, givenTo, stored, hm]
  | cons e es ih =>
    have htail : ∀ o' v words, Event.given o' v words ∈ es → o' ≠ o →
        o'.getConfigKey ≠ o.getConfigKey :=
      fun o' v words ho => h o' v words (List.mem_cons_of_mem _ ho)
    cases e with
    | positional w => exact ih config htail
    | given o' v words =>
      have hrec := ih (store o' v config) htail
      by_cases ho : o' = o
      · subst ho
        rw [valuesOf_store_self] at hrec
        rw [show givenTo o' (.given o' v words :: es) = v :: givenTo o' es by simp [givenTo],
          stored_cons]
        exact hrec
      · rw [valuesOf_store_of_ne (h o' v words List.mem_cons_self ho)] at hrec
        rw [show givenTo o (.given o' v words :: es) = givenTo o es by simp [givenTo, ho]]
        exact hrec

/-! ### Defaults by key -/

@[simp] lemma children_fillDefaults (opts : List CmdlineOption) (config : ConfigSet) :
    (fillDefaults opts config).children = config.children := by
  induction opts generalizing config with
  | nil => rfl
  | cons o opts ih =>
    refine (ih (fillDefault config o)).trans ?_
    rw [fillDefault]
    split_ifs <;> rfl

lemma valuesOf_fillDefaults_of_ne {opts : List CmdlineOption} {key : Str} (config : ConfigSet)
    (h : ∀ o ∈ opts, o.getConfigKey ≠ key) :
    (fillDefaults opts config).valuesOf key = config.valuesOf key := by
  induction opts generalizing config with
  | nil => rfl
  | cons o opts ih =>
    have hrec := ih (fillDefault config o) fun o' ho' => h o' (List.mem_cons_of_mem _ ho')
    refine hrec.trans ?_
    rw [fillDefault]
    split_ifs
    · exact config.valuesOf_set_of_ne (h o List.mem_cons_self) _
    · rfl

lemma existsName_eq_false_iff {config : ConfigSet} {key : Str}
    (h : config.childrenNamed key = []) :
    config.existsName key = false ↔ config.valuesOf key = [] := by
  rw [← Bool.not_eq_true, ConfigSet.existsName_iff, h]
  simp

/-- An option of a distinct list gets its default if its key is absent. -/
lemma valuesOf_fillDefaults {opts : List CmdlineOption}
    (hkey : opts.Pairwise fun a b => a.getConfigKey ≠ b.getConfigKey) {o : CmdlineOption}
    (ho : o ∈ opts) {config : ConfigSet} (hchild : config.childrenNamed o.getConfigKey = []) :
    (fillDefaults opts config).valuesOf o.getConfigKey
      = if config.valuesOf o.getConfigKey = [] ∧ o.hasDefaultValue then [o.getDefaultValue]
        else config.valuesOf o.getConfigKey := by
  obtain ⟨pre, post, rfl⟩ := List.append_of_mem ho
  obtain ⟨-, hcons, hpre⟩ := List.pairwise_append.mp hkey
  have hpost : ∀ o' ∈ post, o'.getConfigKey ≠ o.getConfigKey :=
    fun o' ho' => ((List.pairwise_cons.mp hcons).1 o' ho').symm
  have hsplit : fillDefaults (pre ++ o :: post) config
      = fillDefaults post (fillDefault (fillDefaults pre config) o) := by
    simp [fillDefaults]
  have hbefore : (fillDefaults pre config).valuesOf o.getConfigKey
      = config.valuesOf o.getConfigKey :=
    valuesOf_fillDefaults_of_ne config fun o' ho' => hpre o' ho' o List.mem_cons_self
  have hchild' : (fillDefaults pre config).childrenNamed o.getConfigKey = [] := by
    rw [ConfigSet.childrenNamed, children_fillDefaults]
    exact hchild
  have habsent := existsName_eq_false_iff hchild'
  rw [hbefore] at habsent
  rw [hsplit, valuesOf_fillDefaults_of_ne _ hpost, fillDefault]
  by_cases h : config.valuesOf o.getConfigKey = [] ∧ o.hasDefaultValue
  · rw [if_pos h, if_pos (by simp [habsent.mpr h.1, h.2]), ConfigSet.valuesOf_set_self]
  · rw [if_neg h, if_neg, hbefore]
    intro hcond
    simp only [Bool.and_eq_true, Bool.not_eq_true'] at hcond
    exact h ⟨habsent.mp hcond.1, hcond.2⟩

/-- The default of an option does not touch another key. -/
lemma existsName_fillDefault_of_ne {o : CmdlineOption} {key : Str} (h : o.getConfigKey ≠ key)
    (config : ConfigSet) : (fillDefault config o).existsName key = config.existsName key := by
  rw [fillDefault]
  split_ifs
  · rw [Bool.eq_iff_iff, ConfigSet.existsName_iff, ConfigSet.existsName_iff,
      config.valuesOf_set_of_ne h]
    rfl
  · rfl

lemma existsName_fillDefaults_of_ne {opts : List CmdlineOption} {key : Str}
    (h : ∀ o ∈ opts, o.getConfigKey ≠ key) (config : ConfigSet) :
    (fillDefaults opts config).existsName key = config.existsName key := by
  induction opts generalizing config with
  | nil => rfl
  | cons o opts ih =>
    exact (ih (fun o' ho' => h o' (List.mem_cons_of_mem _ ho')) (fillDefault config o)).trans
      (existsName_fillDefault_of_ne (h o List.mem_cons_self) config)

/-- With distinct keys the options before an option do not keep it from being missing. -/
lemma hasMissing_iff {opts : List CmdlineOption}
    (hkey : opts.Pairwise fun a b => a.getConfigKey ≠ b.getConfigKey) (config : ConfigSet) :
    HasMissing opts config ↔ ∃ o ∈ opts, Missing config o := by
  have hsplit : ∀ pre o post, opts = pre ++ o :: post →
      (Missing (fillDefaults pre config) o ↔ Missing config o) := by
    rintro pre o post rfl
    have hpre := (List.pairwise_append.mp hkey).2.2
    rw [Missing, existsName_fillDefaults_of_ne fun o' ho' => hpre o' ho' o List.mem_cons_self,
      Missing]
  constructor
  · rintro ⟨pre, o, post, heq, ho⟩
    exact ⟨o, by simp [heq], (hsplit pre o post heq).mp ho⟩
  · rintro ⟨o, hmem, ho⟩
    obtain ⟨pre, post, heq⟩ := List.append_of_mem hmem
    exact ⟨pre, o, post, heq, (hsplit pre o post heq).mpr ho⟩

end CommandLine

end Utilmm
