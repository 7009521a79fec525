import Utilmm.CommandLine.Distinct

/-!
# The contract of `parse`

`parse` agrees with the reading of the command line, and a failed `parse` leaves the values of the
words it has read so far in the configuration.
-/

namespace Utilmm

namespace CommandLine

/-- A command line with `--include`, which may be repeated and has a short name, and `--quiet`. -/
def includeQuiet : CommandLine where
  options :=
    [{ multiple := true, long := "include".toList, short := "I".toList,
       flags := { string := true }, help := "include path".toList },
     { long := "quiet".toList }]
  built := by
    intro o ho
    rcases List.mem_pair.mp ho with rfl | rfl
    · exact ⟨"*:include,I=string:include path".toList, rfl⟩
    · exact ⟨":quiet".toList, rfl⟩

lemma includeQuiet_distinct : Distinct includeQuiet.options := by
  constructor <;> decide

/-! ### Readings -/

section

variable {cl : CommandLine} {argv rest : List Str} {es : List Event} {config : ConfigSet}

/-- A reading stores nothing under keys which belong to no option. -/
lemma Reads.valuesOf_of_ne (h : Reads (FirstSpelled cl.options) argv es rest) {key : Str}
    (hkey : ∀ o ∈ cl.options, o.getConfigKey ≠ key) :
    (storeEvents es config).valuesOf key = config.valuesOf key :=
  valuesOf_storeEvents_of_ne config fun o _ _ hmem => hkey o (h.mem_options hmem)

/-- Where names are distinct, a word that an option spells is read as that option. -/
lemma reads_spelled_iff (hd : Distinct cl.options) (hdash : ['-'] ∉ argv) :
    Reads (Spelled cl.options) argv es rest ↔ Reads (FirstSpelled cl.options) argv es rest := by
  have hnames : ∀ w ∈ argv, ∀ o, FirstSpelled cl.options w o ↔ Spelled cl.options w o :=
    fun w hw o => firstSpelled_iff hd.names (fun h => hdash (h ▸ hw)) o
  exact ⟨fun h => h.congr fun w hw o => (hnames w hw o).symm, fun h => h.congr hnames⟩

lemma malformed_spelled_iff (hd : Distinct cl.options) (hdash : ['-'] ∉ argv)
    (h : Reads (FirstSpelled cl.options) argv es rest) :
    Malformed (Spelled cl.options) rest ↔ Malformed (FirstSpelled cl.options) rest := by
  have hnames : ∀ w ∈ rest, ∀ o, FirstSpelled cl.options w o ↔ Spelled cl.options w o := by
    intro w hw o
    refine firstSpelled_iff hd.names ?_ o
    rintro rfl
    exact hdash (h.words_eq ▸ List.mem_append_right _ hw)
  exact ⟨fun h => h.congr fun w hw o => (hnames w hw o).symm, fun h => h.congr hnames⟩

/-- A required option is missing if and only if no value was stored under its key. -/
lemma hasMissing_storeEvents_iff (hd : Distinct cl.options)
    (hchild : ∀ o ∈ cl.options, config.childrenNamed o.getConfigKey = []) :
    HasMissing cl.options (storeEvents es config) ↔
      ∃ o ∈ cl.options, o.isRequired ∧ (storeEvents es config).valuesOf o.getConfigKey = [] := by
  rw [hasMissing_iff hd.key]
  refine exists_congr fun o => and_congr_right fun ho => ?_
  rw [Missing, existsName_eq_false_iff ((childrenNamed_storeEvents es config _).trans (hchild o ho))]

/-- After a reading to the end, an option has what was given to it, or else its default. -/
lemma Reads.valuesOf_fillDefaults (h : Reads (FirstSpelled cl.options) argv es rest)
    (hd : Distinct cl.options) {o : CmdlineOption} (ho : o ∈ cl.options)
    (hchild : config.childrenNamed o.getConfigKey = []) :
    (fillDefaults cl.options (storeEvents es config)).valuesOf o.getConfigKey =
      finalValues o (config.valuesOf o.getConfigKey) (givenTo o es) := by
  have hstored := valuesOf_storeEvents (o := o) es config
    fun o' v words hmem hne => hd.key.forall (h.mem_options hmem) ho hne
  have hchild' := (childrenNamed_storeEvents es config o.getConfigKey).trans hchild
  rw [CommandLine.valuesOf_fillDefaults hd.key ho hchild', hstored, finalValues]

end

/-! ### Success and failure -/

/-- `parse` fails if and only if the reading ends before a word which it cannot take, or a required
option is missing. -/
lemma parse_fails_iff (cl : CommandLine) (argv : List Str) (config : ConfigSet) :
    (∃ msg, (parse cl argv config).1 = .error (.commandlineError msg)) ↔
      (∃ es rest, Reads (FirstSpelled cl.options) argv es rest ∧
        Malformed (FirstSpelled cl.options) rest) ∨
      ∃ es, Reads (FirstSpelled cl.options) argv es [] ∧
        HasMissing cl.options (storeEvents es config) := by
  constructor
  · rintro ⟨msg, hmsg⟩
    rcases parse_cases cl argv config with
      ⟨es, -, -, hparse⟩ | ⟨es, rest, -, hreads, hm, -⟩ |
      ⟨es, pre, o, post, -, hreads, hsplit, hmiss, -⟩
    · rw [hparse] at hmsg
      cases hmsg
    · exact Or.inl ⟨es, rest, hreads, hm⟩
    · exact Or.inr ⟨es, hreads, pre, o, post, hsplit, hmiss⟩
  · rintro (⟨es, rest, hreads, hm⟩ | ⟨es, hreads, hmiss⟩)
    · obtain ⟨msg, hparse⟩ := parse_of_malformed config hreads hm
      exact ⟨msg, by rw [hparse]⟩
    · exact parse_of_hasMissing hreads hmiss

/-- `parse` fails exactly when the reading does, or when a required option stays absent; otherwise
its results are those of the reading. -/
theorem parse_eq_reading (cl : CommandLine) (hd : Distinct cl.options) (argv : List Str)
    (hdash : ['-'] ∉ argv) (config : ConfigSet)
    (hchild : ∀ o ∈ cl.options, config.childrenNamed o.getConfigKey = []) :
    ((∃ msg, (parse cl argv config).1 = .error (.commandlineError msg)) ↔
      (∃ es rest, Reads (Spelled cl.options) argv es rest ∧
        Malformed (Spelled cl.options) rest) ∨
      ∃ es, Reads (Spelled cl.options) argv es [] ∧ ∃ o ∈ cl.options,
        o.isRequired ∧ (storeEvents es config).valuesOf o.getConfigKey = []) ∧
    ((¬ ∃ msg, (parse cl argv config).1 = .error (.commandlineError msg)) →
      (parse cl argv config).1 = .ok () ∧
      ∃ es, Reads (Spelled cl.options) argv es [] ∧ es.flatMap Event.words = argv ∧
        (parse cl argv config).2.1.remaining = positionals es ∧
        (parse cl argv config).2.2 = fillDefaults cl.options (storeEvents es config) ∧
        (∀ o ∈ cl.options, (parse cl argv config).2.2.valuesOf o.getConfigKey
          = finalValues o (config.valuesOf o.getConfigKey) (givenTo o es)) ∧
        (∀ key, (∀ o ∈ cl.options, o.getConfigKey ≠ key) →
          (parse cl argv config).2.2.valuesOf key = config.valuesOf key) ∧
        (parse cl argv config).2.2.children = config.children) ∧
    ∀ i remains s, Reaches cl.options argv ⟨config, cl.remaining⟩ i remains s →
      i ≤ argv.length := by
  refine ⟨?_, ?_, fun i remains s h => h.le cl.wellFormed⟩
  · rw [parse_fails_iff]
    simp only [reads_spelled_iff hd hdash, hasMissing_storeEvents_iff hd hchild]
    refine or_congr_left (exists₂_congr fun es rest => and_congr_right fun hreads => ?_)
    exact (malformed_spelled_iff hd hdash hreads).symm
  · intro hok
    rcases parse_cases cl argv config with
      ⟨es, hreads, -, hparse⟩ | ⟨es, rest, msg, -, -, hparse⟩ |
      ⟨es, pre, o, post, msg, -, -, -, hparse⟩
    · rw [hparse]
      refine ⟨rfl, es, (reads_spelled_iff hd hdash).mpr hreads, ?_, rfl, rfl, ?_, ?_, ?_⟩
      · simpa using hreads.words_eq.symm
      · exact fun o ho => hreads.valuesOf_fillDefaults hd ho (hchild o ho)
      · intro key hkey
        rw [valuesOf_fillDefaults_of_ne _ hkey]
        exact hreads.valuesOf_of_ne hkey
      · rw [children_fillDefaults, children_storeEvents]
    · exact absurd ⟨msg, by rw [hparse]⟩ hok
    · exact absurd ⟨msg, by rw [hparse]⟩ hok

/-- The reading of `-I bla --quiet x.cpp`. -/
theorem parse_includeQuiet_eq_reading :
    ∃ es, Reads (Spelled includeQuiet.options)
        ["-I".toList, "bla".toList, "--quiet".toList, "x.cpp".toList] es [] ∧
      (parse includeQuiet ["-I".toList, "bla".toList, "--quiet".toList, "x.cpp".toList]
        (ConfigSet.new none)).2.1.remaining = positionals es := by
  have h := parse_eq_reading includeQuiet includeQuiet_distinct
    ["-I".toList, "bla".toList, "--quiet".toList, "x.cpp".toList] (by decide)
    (ConfigSet.new none) (fun o _ => rfl)
  have hok : (parse includeQuiet ["-I".toList, "bla".toList, "--quiet".toList, "x.cpp".toList]
      (ConfigSet.new none)).1 = .ok () := rfl
  obtain ⟨-, es, hreads, -, hremaining, -⟩ := h.2.1 (by rw [hok]; rintro ⟨_, h⟩; cases h)
  exact ⟨es, hreads, hremaining⟩

/-! ### What a failure leaves -/

/-- After a failure the remaining words are the old ones, and the configuration holds in addition
what the words before the error stored, with the defaults of the options before a missing one. -/
theorem parse_failure_state (cl : CommandLine) (argv : List Str) (config : ConfigSet) (msg : Str)
    (h : (parse cl argv config).1 = .error (.commandlineError msg)) :
    (parse cl argv config).2.1.remaining = cl.remaining ∧
    (∃ es rest, Reads (FirstSpelled cl.options) argv es rest ∧
      ((Malformed (FirstSpelled cl.options) rest ∧
          (parse cl argv config).2.2 = storeEvents es config) ∨
        (rest = [] ∧ ∃ pre o post, cl.options = pre ++ o :: post ∧
          Missing (fillDefaults pre (storeEvents es config)) o ∧
          (parse cl argv config).2.2 = fillDefaults pre (storeEvents es config)))) ∧
    (∀ key, (∀ o ∈ cl.options, o.getConfigKey ≠ key) →
      (parse cl argv config).2.2.valuesOf key = config.valuesOf key) ∧
    (parse cl argv config).2.2.children = config.children := by
  rcases parse_cases cl argv config with
    ⟨es, -, -, hparse⟩ | ⟨es, rest, msg', hreads, hm, hparse⟩ |
    ⟨es, pre, o, post, msg', hreads, hsplit, hmiss, hparse⟩
  · rw [hparse] at h
    cases h
  · rw [hparse]
    exact ⟨rfl, ⟨es, rest, hreads, Or.inl ⟨hm, rfl⟩⟩, fun key hkey => hreads.valuesOf_of_ne hkey,
      children_storeEvents es config⟩
  · rw [hparse]
    refine ⟨rfl, ⟨es, [], hreads, Or.inr ⟨rfl, pre, o, post, hsplit, hmiss, rfl⟩⟩, ?_, ?_⟩
    · intro key hkey
      rw [valuesOf_fillDefaults_of_ne _ fun o' ho' => hkey o' (by simp [hsplit, ho'])]
      exact hreads.valuesOf_of_ne hkey
    · rw [children_fillDefaults, children_storeEvents]

/-- `--quiet --unknown` fails and leaves the old remaining words. -/
theorem parse_failure_state_quiet :
    (parse includeQuiet ["--quiet".toList, "--unknown".toList]
      (ConfigSet.new none)).2.1.remaining = [] :=
  (parse_failure_state includeQuiet ["--quiet".toList, "--unknown".toList] (ConfigSet.new none)
    "unknown argument --unknown".toList rfl).1

/-- `--quiet --unknown` fails, but `quiet` has been set. -/
theorem parse_failure_sets_quiet :
    (parse includeQuiet ["--quiet".toList, "--unknown".toList] (ConfigSet.new none)).1
      = .error (.commandlineError "unknown argument --unknown".toList) ∧
    (ConfigSet.new none).valuesOf "quiet".toList = [] ∧
    (parse includeQuiet ["--quiet".toList, "--unknown".toList]
      (ConfigSet.new none)).2.2.valuesOf "quiet".toList = ["true".toList] := by
  refine ⟨rfl, rfl, ?_⟩
  decide

end CommandLine

end Utilmm
