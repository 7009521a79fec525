import Utilmm.CommandLine.Contract

/-!
# The order of the options

With distinct names and keys a word is taken for the same option in whatever order the options
are declared, except for the word `-`: it is the short spelling of every option that has no short
name, and `parse` takes it for the first of them.
-/

namespace Utilmm

namespace CommandLine

/-- The first option without a short name. -/
def firstShortless (cl : CommandLine) : Option CmdlineOption :=
  cl.options.find? (·.getShort = [])

/-! ### The word of a single dash -/

/-- A single dash spells the options that have no short name. -/
lemma spells_dash_iff {o : CmdlineOption} (ho : o.WellFormed) :
    o.spells ['-'] ↔ o.getShort = [] := by
  have hlong := ho.long_length
  rw [CmdlineOption.spells_iff]
  constructor
  · rintro (h | h | ⟨v, h⟩)
    · simpa using h.symm
    · simp at h
    · simp at h
  · intro h
    exact Or.inl (by rw [h]; rfl)

lemma firstSpelled_dash_iff (cl : CommandLine) (o : CmdlineOption) :
    FirstSpelled cl.options ['-'] o ↔ cl.firstShortless = some o := by
  have hcongr : cl.options.find? (·.spells ['-']) = cl.options.find? (·.getShort = []) := by
    refine List.find?_congr fun o ho => ?_
    rw [Bool.eq_iff_iff, spells_dash_iff (cl.wellFormed o ho)]
    simp
  rw [FirstSpelled, hcongr, firstShortless]

/-! ### Defaults in any order -/

lemma fillDefault_comm {a b : CmdlineOption} (h : a = b ∨ a.getConfigKey ≠ b.getConfigKey)
    (config : ConfigSet) :
    fillDefault (fillDefault config a) b = fillDefault (fillDefault config b) a := by
  rcases h with rfl | h
  · rfl
  · have ha := existsName_fillDefault_of_ne h config
    have hb := existsName_fillDefault_of_ne h.symm config
    rw [fillDefault, ha, fillDefault, fillDefault, hb, fillDefault]
    split_ifs
    · exact config.set_comm h _ _
    · rfl
    · rfl
    · rfl

/-- The loop over the options that are not set yet can take them in any order. -/
lemma sameDefaults_of_perm {opts opts' : List CmdlineOption} (hperm : opts'.Perm opts)
    (hkey : opts.Pairwise fun a b => a.getConfigKey ≠ b.getConfigKey) :
    SameDefaults opts opts' := by
  intro config
  have hkey' : opts'.Pairwise fun a b => a.getConfigKey ≠ b.getConfigKey :=
    hperm.symm.pairwise hkey Ne.symm
  refine ⟨?_, ?_⟩
  · simp only [hasMissing_iff hkey, hasMissing_iff hkey', hperm.mem_iff]
  · refine hperm.symm.foldl_eq' (fun a ha b hb config => fillDefault_comm ?_ config) config
    by_cases hab : a = b
    · exact Or.inl hab
    · exact Or.inr (hkey.forall ha hb hab)

lemma Distinct.perm {opts opts' : List CmdlineOption} (hd : Distinct opts)
    (hperm : opts'.Perm opts) : Distinct opts' where
  long := hperm.symm.pairwise hd.long Ne.symm
  short := hperm.symm.pairwise hd.short fun h hb heq => h (heq ▸ hb) heq.symm
  key := hperm.symm.pairwise hd.key Ne.symm

/-- A permutation takes the words of a command line for the same options if the first option
without a short name stays the same, or if no word is a single dash. -/
lemma firstSpelled_perm {cl cl' : CommandLine} (hd : Distinct cl.options)
    (hperm : cl'.options.Perm cl.options) {argv : List Str}
    (h : ['-'] ∉ argv ∨ cl.firstShortless = cl'.firstShortless) :
    ∀ w ∈ argv, ∀ o, FirstSpelled cl.options w o ↔ FirstSpelled cl'.options w o := by
  intro w hmem o
  by_cases hw : w = ['-']
  · subst hw
    have hfirst := h.resolve_left fun hdash => hdash hmem
    rw [firstSpelled_dash_iff, firstSpelled_dash_iff, hfirst]
  · rw [firstSpelled_iff hd.names hw, firstSpelled_iff (hd.perm hperm).names hw, Spelled, Spelled,
      hperm.mem_iff]

/-- Such a permutation does not change the outcome. -/
lemma agree_perm {cl cl' : CommandLine} (hd : Distinct cl.options)
    (hperm : cl'.options.Perm cl.options) {argv : List Str} (config : ConfigSet)
    (h : ['-'] ∉ argv ∨ cl.firstShortless = cl'.firstShortless) :
    Agree (parse cl argv config) (parse cl' argv config) := by
  have hnames := firstSpelled_perm hd hperm h
  obtain ⟨es, rest, hreads, hrest⟩ := exists_reads cl.options argv
  have hmem : ∀ w ∈ rest, w ∈ argv :=
    fun w hw => hreads.words_eq ▸ List.mem_append_right _ hw
  refine agree_of_reads (sameDefaults_of_perm hperm hd.key) hreads (hreads.congr hnames) ?_ rfl rfl
  rcases hrest with hnil | hm
  · exact Or.inl ⟨hnil, hnil⟩
  · exact Or.inr ⟨hm, hm.congr fun w hw => hnames w (hmem w hw)⟩

/-! ### A run that tells two first options apart -/

/-- A configuration in which the key of every option holds the value `x`. -/
def presetAll (opts : List CmdlineOption) : ConfigSet :=
  opts.foldr (fun o config => config.set o.getConfigKey ['x']) (ConfigSet.new none)

lemma valuesOf_presetAll {opts : List CmdlineOption} {o : CmdlineOption} (ho : o ∈ opts) :
    (presetAll opts).valuesOf o.getConfigKey = [['x']] := by
  induction opts with
  | nil => cases ho
  | cons o' opts ih =>
    change ((presetAll opts).set o'.getConfigKey ['x']).valuesOf o.getConfigKey = [['x']]
    by_cases hkey : o'.getConfigKey = o.getConfigKey
    · rw [hkey, ConfigSet.valuesOf_set_self]
    · rw [ConfigSet.valuesOf_set_of_ne _ hkey]
      refine ih ((List.mem_cons.mp ho).resolve_left ?_)
      rintro rfl
      exact hkey rfl

lemma children_presetAll (opts : List CmdlineOption) : (presetAll opts).children = ∅ := by
  induction opts with
  | nil => rfl
  | cons o opts ih => exact ih

lemma stored_ne_nil (o : CmdlineOption) {initial : List Str} (h : initial ≠ []) (given : List Str) :
    stored o initial given ≠ [] := by
  rw [stored]
  split_ifs
  · simp [h]
  · split
    · exact h
    · simp

/-- From such a configuration a reading to the end is a success, and an option keeps `x` if and
only if the reading gives nothing else to it. -/
lemma parse_presetAll {cl : CommandLine} (opts : List CmdlineOption) (hd : Distinct cl.options)
    (hmem : ∀ o ∈ cl.options, o ∈ opts) {argv : List Str} {es : List Event}
    (h : Reads (FirstSpelled cl.options) argv es []) :
    (parse cl argv (presetAll opts)).1 = .ok () ∧ ∀ o ∈ cl.options,
      (parse cl argv (presetAll opts)).2.2.valuesOf o.getConfigKey
        = stored o [['x']] (givenTo o es) := by
  have hvalues : ∀ o ∈ cl.options, (storeEvents es (presetAll opts)).valuesOf o.getConfigKey
      = stored o [['x']] (givenTo o es) := by
    intro o ho
    rw [valuesOf_storeEvents es (presetAll opts) fun o' v words he hne =>
      hd.key.forall (h.mem_options he) ho hne, valuesOf_presetAll (hmem o ho)]
  have hchild : ∀ o : CmdlineOption,
      (storeEvents es (presetAll opts)).childrenNamed o.getConfigKey = [] := by
    intro o
    rw [childrenNamed_storeEvents, ConfigSet.childrenNamed, children_presetAll]
    rfl
  have hmiss : ¬ HasMissing cl.options (storeEvents es (presetAll opts)) := by
    rw [hasMissing_iff hd.key]
    rintro ⟨o, ho, -, habsent⟩
    rw [existsName_eq_false_iff (hchild o), hvalues o ho] at habsent
    exact stored_ne_nil o (by simp) _ habsent
  rw [parse_of_not_hasMissing h hmiss]
  refine ⟨rfl, fun o ho => ?_⟩
  rw [valuesOf_fillDefaults hd.key ho (hchild o), hvalues o ho, if_neg]
  exact fun hnil => stored_ne_nil o (by simp) _ hnil.1

/-- The words `-` and `1` give a value other than `x` to the first option without a short name,
and nothing to any other option. -/
lemma reads_dash {cl : CommandLine} {o : CmdlineOption} (h : cl.firstShortless = some o) :
    ∃ es v, Reads (FirstSpelled cl.options) [['-'], ['1']] es [] ∧ givenTo o es = [v] ∧ v ≠ ['x'] ∧
      ∀ o' ≠ o, givenTo o' es = [] := by
  have hfirst : FirstSpelled cl.options ['-'] o := (firstSpelled_dash_iff cl o).mpr h
  have hshort : o.getShort = [] := by simpa using List.find?_some h
  have hdash : ['-'] ++ o.getShort = ['-'] := by rw [hshort]; rfl
  cases ha : o.hasArgument with
  | false =>
    have htrue : o.getDefaultValue = "true".toList := by
      simp only [CmdlineOption.hasArgument, ArgumentFlags.any, Bool.or_eq_false_iff] at ha
      simp [CmdlineOption.getDefaultValue, CmdlineOption.hasDefaultValue, ha]
    refine ⟨[.given o o.getDefaultValue [['-'] ++ o.getShort], .positional ['1']],
      o.getDefaultValue,
      .given rfl hfirst (by rw [hdash]; rfl) (.short (Or.inl ha)) (.positional rfl (.stop [])),
      by simp [givenTo], by rw [htrue]; decide, fun o' hne => by simp [givenTo, hne.symm]⟩
  | true =>
    have hone : o.checkArgument ['1'] := by
      rw [CmdlineOption.checkArgument]
      split_ifs <;> decide
    refine ⟨[.given o ['1'] [['-'] ++ o.getShort, ['1']]], ['1'],
      .given rfl hfirst (by rw [hdash]; rfl) (.shortValue ha rfl hone) (.stop []),
      by simp [givenTo], by decide, fun o' hne => by simp [givenTo, hne.symm]⟩

/-- Different first options without a short name take the word `-` differently. -/
lemma not_agree_dash {cl cl' : CommandLine} (hd : Distinct cl.options)
    (hperm : cl'.options.Perm cl.options) {o o' : CmdlineOption}
    (h : cl.firstShortless = some o) (h' : cl'.firstShortless = some o') (hne : o ≠ o') :
    ¬ Agree (parse cl [['-'], ['1']] (presetAll cl.options))
      (parse cl' [['-'], ['1']] (presetAll cl.options)) := by
  have ho : o ∈ cl.options := List.mem_of_find?_eq_some h
  obtain ⟨es, v, hreads, hgiven, hv, -⟩ := reads_dash h
  obtain ⟨es', -, hreads', -, -, hother⟩ := reads_dash h'
  obtain ⟨hok, hvalues⟩ := parse_presetAll cl.options hd (fun _ ho => ho) hreads
  obtain ⟨hok', hvalues'⟩ := parse_presetAll cl.options (hd.perm hperm)
    (fun o ho => hperm.mem_iff.mp ho) hreads'
  rintro (⟨⟨msg, herror⟩, -⟩ | ⟨-, -, hconfig, -⟩)
  · rw [hok] at herror
    cases herror
  · have heq := hvalues o ho
    rw [hconfig, hvalues' o (hperm.mem_iff.mpr ho), hgiven, hother o hne] at heq
    cases hm : o.isMultiple <;> simp [stored, hm] at heq
    exact hv heq.symm

/-! ### Which permutations change nothing -/

/-- A permutation of the options changes no outcome exactly when the first option without a short
name stays the same; where it changes one, a word is a single dash. -/
theorem agree_perm_iff (cl cl' : CommandLine) (hd : Distinct cl.options)
    (hperm : cl'.options.Perm cl.options) :
    ((∀ argv config, Agree (parse cl argv config) (parse cl' argv config)) ↔
      cl.firstShortless = cl'.firstShortless) ∧
    ∀ argv config, ['-'] ∉ argv → Agree (parse cl argv config) (parse cl' argv config) := by
  refine ⟨⟨fun hall => ?_, fun h argv config => agree_perm hd hperm config (Or.inr h)⟩,
    fun argv config hdash => agree_perm hd hperm config (Or.inl hdash)⟩
  by_contra hne
  cases h : cl.firstShortless with
  | none =>
    refine hne (h.trans (Eq.symm ?_))
    rw [firstShortless, List.find?_eq_none] at h ⊢
    exact fun o ho => h o (hperm.mem_iff.mp ho)
  | some o =>
    cases h' : cl'.firstShortless with
    | none =>
      have hmem : o ∈ cl'.options := hperm.mem_iff.mpr (List.mem_of_find?_eq_some h)
      have hshort : o.getShort = [] := by simpa using List.find?_some h
      exact List.find?_eq_none.mp h' o hmem (by simpa using hshort)
    | some o' =>
      rw [h, h', Option.some_inj] at hne
      exact not_agree_dash hd hperm h h' hne (hall _ _)

/-- A command line with `--quiet` before `--include`. -/
def quietInclude : CommandLine where
  options := includeQuiet.options.reverse
  built := fun o ho => includeQuiet.built o (List.mem_reverse.mp ho)

/-- `--include` has a short name, so its place does not matter even for a single dash. -/
theorem agree_perm_iff_includeQuiet :
    includeQuiet.firstShortless = quietInclude.firstShortless ∧
      Agree (parse includeQuiet ["-".toList, "-I".toList, "bla".toList] (ConfigSet.new none))
        (parse quietInclude ["-".toList, "-I".toList, "bla".toList] (ConfigSet.new none)) :=
  ⟨rfl, (agree_perm_iff includeQuiet quietInclude includeQuiet_distinct
    (List.reverse_perm _)).1.mpr rfl _ _⟩

/-- A command line with two flags that have no short name. -/
def quietVerbose : CommandLine where
  options := [{ long := "quiet".toList }, { long := "verbose".toList }]
  built := by
    intro o ho
    rcases List.mem_pair.mp ho with rfl | rfl
    · exact ⟨":quiet".toList, rfl⟩
    · exact ⟨":verbose".toList, rfl⟩

def verboseQuiet : CommandLine where
  options := quietVerbose.options.reverse
  built := fun o ho => quietVerbose.built o (List.mem_reverse.mp ho)

/-- A single dash sets `quiet` in one order and `verbose` in the other. -/
theorem not_agree_perm_quietVerbose :
    Distinct quietVerbose.options ∧ verboseQuiet.options.Perm quietVerbose.options ∧
      ¬ Agree (parse quietVerbose [['-']] (ConfigSet.new none))
        (parse verboseQuiet [['-']] (ConfigSet.new none)) := by
  refine ⟨by constructor <;> decide, List.reverse_perm _, ?_⟩
  rintro (⟨⟨msg, herror⟩, -⟩ | ⟨-, -, hconfig, -⟩)
  · cases herror
  · have hquiet := congrArg (fun config => config.valuesOf "quiet".toList) hconfig
    revert hquiet
    decide

end CommandLine

end Utilmm
