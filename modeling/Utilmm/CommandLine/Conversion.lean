import Utilmm.CommandLine.Distinct
import Utilmm.ConfigFile.Get

/-!
# Checked arguments and their conversion

`checkArgument` decides which texts enter the configuration as values of a typed option, and
`config_set::get` decides which texts convert to the type. The two meet at the values that `parse`
leaves under the key of the option. `sources` tells, from the reading, which values these are and
which option each of them comes from.
-/

namespace Utilmm

namespace CommandLine

/-! ### Where values come from -/

/-- A value together with the option that it was given to. -/
abbrev Source := CmdlineOption × Str

/-- What an event makes of the values under a key. -/
def keep (key : Str) (kept : List Source) : Event → List Source
  | .positional _ => kept
  | .given o v _ =>
    if o.getConfigKey ≠ key then kept
    else if o.isMultiple then kept ++ [(o, v)]
    else [(o, v)]

/-- The values under a key after the events, when there were none before. -/
def given (es : List Event) (key : Str) : List Source := es.foldl (keep key) []

/-- The values under a key at the end: those given, or else the first default there is. -/
def sources (opts : List CmdlineOption) (es : List Event) (key : Str) : List Source :=
  if given es key = [] then
    ((opts.find? fun o => o.getConfigKey = key && o.hasDefaultValue).map
      fun o => (o, o.getDefaultValue)).toList
  else given es key

lemma valuesOf_apply {key : Str} {kept : List Source} {config : ConfigSet}
    (h : config.valuesOf key = kept.map Prod.snd) (e : Event) :
    (e.apply config).valuesOf key = (keep key kept e).map Prod.snd := by
  cases e with
  | positional w => exact h
  | given o v words =>
    rw [Event.apply, keep]
    by_cases hkey : o.getConfigKey = key
    · subst hkey
      rw [valuesOf_store_self, h, if_neg (not_not.mpr rfl)]
      split_ifs <;> simp
    · rw [valuesOf_store_of_ne hkey, h, if_pos hkey]

lemma valuesOf_storeEvents_given (es : List Event) (key : Str) (parent : Option SetId) :
    (storeEvents es (ConfigSet.new parent)).valuesOf key = (given es key).map Prod.snd := by
  have hgen : ∀ (es : List Event) (config : ConfigSet) (kept : List Source),
      config.valuesOf key = kept.map Prod.snd →
        (storeEvents es config).valuesOf key = (es.foldl (keep key) kept).map Prod.snd := by
    intro es
    induction es with
    | nil =>
      intro config kept h
      exact h
    | cons e es ih =>
      intro config kept h
      exact ih (e.apply config) (keep key kept e) (valuesOf_apply h e)
  exact hgen es (ConfigSet.new parent) [] rfl

/-- Defaults do not touch a key that has values. -/
lemma valuesOf_fillDefaults_kept (opts : List CmdlineOption) (config : ConfigSet) {key : Str}
    (h : config.valuesOf key ≠ []) :
    (fillDefaults opts config).valuesOf key = config.valuesOf key := by
  induction opts generalizing config with
  | nil => rfl
  | cons o opts ih =>
    have hkept : (fillDefault config o).valuesOf key = config.valuesOf key := by
      rw [fillDefault]
      split_ifs with hcond
      · apply config.valuesOf_set_of_ne
        intro hkey
        simp only [hkey, ConfigSet.existsName_iff.mpr (Or.inl h), Bool.not_true,
          Bool.false_and, Bool.false_eq_true] at hcond
      · rfl
    have hrec := ih (fillDefault config o) (by rw [hkept]; exact h)
    exact hrec.trans hkept

/-- The default of the first option that has the key and a default. -/
lemma valuesOf_fillDefaults_find (opts : List CmdlineOption) {config : ConfigSet} (key : Str)
    (hchild : ∀ key, config.childrenNamed key = []) (hnone : config.valuesOf key = []) :
    (fillDefaults opts config).valuesOf key
      = ((opts.find? fun o => o.getConfigKey = key && o.hasDefaultValue).map
          CmdlineOption.getDefaultValue).toList := by
  induction opts generalizing config with
  | nil => simpa [fillDefaults] using hnone
  | cons o opts ih =>
    have habsent := existsName_eq_false_iff (hchild o.getConfigKey)
    have hchild' : ∀ key, (fillDefault config o).childrenNamed key = [] := by
      intro key
      rw [fillDefault]
      split_ifs
      · exact hchild key
      · exact hchild key
    rw [show fillDefaults (o :: opts) config = fillDefaults opts (fillDefault config o) from rfl]
    by_cases hfirst : o.getConfigKey = key ∧ o.hasDefaultValue
    · obtain ⟨rfl, hd⟩ := hfirst
      have hset : fillDefault config o = config.set o.getConfigKey o.getDefaultValue := by
        rw [fillDefault, if_pos (by simp [habsent.mpr hnone, hd])]
      rw [List.find?_cons_of_pos (by simp [hd])]
      have hne : (fillDefault config o).valuesOf o.getConfigKey ≠ [] := by rw [hset]; simp
      have hkept := valuesOf_fillDefaults_kept opts (fillDefault config o) hne
      rw [hkept, hset]
      simp
    · rw [List.find?_cons_of_neg (by simpa using hfirst)]
      apply ih hchild'
      rw [fillDefault]
      split_ifs with hcond
      · simp only [Bool.and_eq_true] at hcond
        rw [ConfigSet.valuesOf_set_of_ne _ fun hkey => hfirst ⟨hkey, hcond.2⟩]
        exact hnone
      · exact hnone

/-- The values that `parse` leaves under a key, when it starts from an empty configuration. -/
lemma valuesOf_sources (opts : List CmdlineOption) (es : List Event) (parent : Option SetId)
    (key : Str) :
    (fillDefaults opts (storeEvents es (ConfigSet.new parent))).valuesOf key
      = (sources opts es key).map Prod.snd := by
  have hstored := valuesOf_storeEvents_given es key parent
  have hchild : ∀ key, (storeEvents es (ConfigSet.new parent)).childrenNamed key = [] := by
    intro key
    rw [ConfigSet.childrenNamed, children_storeEvents]
    rfl
  rw [sources]
  split_ifs with h
  · rw [valuesOf_fillDefaults_find opts key hchild (by rw [hstored, h]; rfl)]
    cases opts.find? fun o => o.getConfigKey = key && o.hasDefaultValue <;> rfl
  · rw [valuesOf_fillDefaults_kept opts _ (by rw [hstored]; simpa using h), hstored]

/-! ### Values have been checked -/

/-- Values taken by an option pass its check. -/
lemma checkArgument_of_takes {o : CmdlineOption} (ho : o.WellFormed) {words ws : List Str}
    {v : Str} (h : o.Takes words ws v) : o.checkArgument v := by
  cases h with
  | short h => exact ho.checkArgument_getDefaultValue (h.imp_right And.left)
  | shortValue _ _ hc => exact hc
  | long h => exact ho.checkArgument_getDefaultValue h
  | longValue _ hc => exact hc

/-- Every value of a reading has been checked by the option that takes it. -/
lemma Reads.checked {opts : List CmdlineOption} (hopts : ∀ o ∈ opts, o.WellFormed)
    {ws rest : List Str} {es : List Event} (h : Reads (FirstSpelled opts) ws es rest) :
    ∀ o v words, Event.given o v words ∈ es → o ∈ opts ∧ o.checkArgument v := by
  induction h with
  | stop ws => intro o v words h; simp at h
  | positional _ _ ih =>
    intro o v words h
    exact ih o v words (by simpa using h)
  | given _ ho _ ht _ ih =>
    intro o v words h
    rcases List.mem_cons.mp h with heq | h
    · cases heq
      have hmem := List.mem_of_find?_eq_some ho
      exact ⟨hmem, checkArgument_of_takes (hopts _ hmem) ht⟩
    · exact ih o v words h

lemma mem_given {es : List Event} {key v : Str} {o : CmdlineOption} (h : (o, v) ∈ given es key) :
    o.getConfigKey = key ∧ ∃ words, Event.given o v words ∈ es := by
  have hgen : ∀ (es : List Event) (kept : List Source), (o, v) ∈ es.foldl (keep key) kept →
      (o, v) ∈ kept ∨ o.getConfigKey = key ∧ ∃ words, Event.given o v words ∈ es := by
    intro es
    induction es with
    | nil =>
      intro kept h
      exact Or.inl h
    | cons e es ih =>
      intro kept h
      rcases ih _ h with hkept | ⟨hkey, words, hmem⟩
      · cases e with
        | positional w => exact Or.inl hkept
        | given o' v' words =>
          rw [keep] at hkept
          split_ifs at hkept with hkey hm
          · exact Or.inl hkept
          · rcases List.mem_append.mp hkept with hkept | hnew
            · exact Or.inl hkept
            · cases List.mem_singleton.mp hnew
              exact Or.inr ⟨not_not.mp hkey, words, List.mem_cons_self⟩
          · cases List.mem_singleton.mp hkept
            exact Or.inr ⟨not_not.mp hkey, words, List.mem_cons_self⟩
      · exact Or.inr ⟨hkey, words, List.mem_cons_of_mem _ hmem⟩
  rcases hgen es [] h with h | h
  · simp at h
  · exact h

/-- A value under a key comes from an option with that key, which has checked it. -/
lemma checked_of_mem_sources {opts : List CmdlineOption} (hopts : ∀ o ∈ opts, o.WellFormed)
    {ws rest : List Str} {es : List Event} (h : Reads (FirstSpelled opts) ws es rest) {key v : Str}
    {o : CmdlineOption} (ho : (o, v) ∈ sources opts es key) :
    o ∈ opts ∧ o.getConfigKey = key ∧ o.checkArgument v := by
  rw [sources] at ho
  split_ifs at ho with hnone
  · obtain ⟨o', hfind, heq⟩ : ∃ o', opts.find? (fun o => o.getConfigKey = key && o.hasDefaultValue)
        = some o' ∧ (o', o'.getDefaultValue) = (o, v) := by simpa using ho
    cases heq
    have hmem := List.mem_of_find?_eq_some hfind
    obtain ⟨hkey, hd⟩ : o.getConfigKey = key ∧ o.hasDefaultValue := by
      simpa using List.find?_some hfind
    refine ⟨hmem, hkey, ?_⟩
    rw [CmdlineOption.getDefaultValue, if_pos hd]
    exact (hopts o hmem).default_valid hd
  · obtain ⟨hkey, words, hmem⟩ := mem_given ho
    exact ⟨(h.checked hopts o v words hmem).1, hkey, (h.checked hopts o v words hmem).2⟩

/-! ### Validator and converter -/

/-- The typed accesses to the key of an option return, whatever their fallback. -/
structure Converts (cast : Str → Except GetFailure Int) (config : ConfigSet) (o : CmdlineOption) :
    Prop where
  int : o.flags.int → config.existsName o.getConfigKey →
    (∀ defval, ∃ n, config.getScalar cast o.getConfigKey defval = .ok n) ∧
    ∀ defval, ∃ ns, config.getList cast o.getConfigKey defval = .ok ns
  bool : o.flags.bool → config.existsName o.getConfigKey →
    (∀ defval, ∃ b, config.getScalar ConfigSet.convertBool o.getConfigKey defval = .ok b) ∧
    ∀ defval, ∃ bs, config.getList ConfigSet.convertBool o.getConfigKey defval = .ok bs

/-- A checked `int` is small enough, and any other text is a 32-bit `int`. -/
def FitsInt (p : Source) : Prop :=
  if p.1.flags.int then decimal p.2 < 2 ^ 31 else (int32Value p.2).isSome

/-- The value is a checked `bool`, or one of the four texts. -/
def FitsBool (p : Source) : Prop :=
  p.1.flags.bool ∨
    p.2 ∈ ["1".toList, "0".toList, "false".toList, "true".toList]

lemma returns_iff {α : Type} [Nonempty α] {convert : Str → Except GetFailure α}
    {config : ConfigSet} {key : Str} :
    (config.existsName key →
      (∀ defval, ∃ x, config.getScalar convert key defval = .ok x) ∧
      ∀ defval, ∃ xs, config.getList convert key defval = .ok xs) ↔
    ∀ v ∈ config.valuesOf key, ∃ x, convert v = .ok x := by
  simp only [ConfigSet.getScalar_returns_iff, ConfigSet.getList_returns_iff]
  constructor
  · intro h v hv
    have hex : config.existsName key :=
      ConfigSet.existsName_iff.mpr (Or.inl (List.ne_nil_of_mem hv))
    exact (h hex).2 [] v hv
  · intro h _
    exact ⟨fun _ => h, fun _ => h⟩

lemma int_returns_iff_fitsInt {cast : Str → Except GetFailure Int} (hcast : IsLexicalCastInt cast)
    {p : Source} (hp : p.1.checkArgument p.2) : (∃ n, cast p.2 = .ok n) ↔ FitsInt p := by
  rw [hcast.returns_iff, FitsInt]
  split_ifs with hint
  · rw [CmdlineOption.checkArgument, if_pos hint, CmdlineOption.rxInt_iff] at hp
    exact int32Value_isSome_iff hp.1 hp.2
  · rfl

lemma bool_returns_iff_fitsBool {p : Source} (ho : p.1.WellFormed)
    (hp : p.1.checkArgument p.2) : (∃ b, ConfigSet.convertBool p.2 = .ok b) ↔ FitsBool p := by
  rw [ConfigSet.convertBool_returns_iff, FitsBool]
  constructor
  · intro h
    right
    simpa using h
  · rintro (hbool | h)
    · have hint : p.1.flags.int = false := by
        cases hi : p.1.flags.int with
        | false => rfl
        | true => simp [ho.one_type hi] at hbool
      rw [CmdlineOption.checkArgument, if_neg (by simp [hint]), if_pos hbool,
        CmdlineOption.rxBool_iff] at hp
      exact hp
    · simpa using h

/-- After a successful `parse` into an empty configuration, the typed accesses return exactly when
the checked integers are small enough and no text of another type meets them. -/
theorem parse_converts_iff (cast : Str → Except GetFailure Int) (hcast : IsLexicalCastInt cast)
    (cl : CommandLine) (argv : List Str) (parent : Option SetId)
    (hok : (parse cl argv (ConfigSet.new parent)).1 = .ok ()) :
    (∃ es, Reads (FirstSpelled cl.options) argv es []) ∧
    ∀ es, Reads (FirstSpelled cl.options) argv es [] →
      ((∀ o ∈ cl.options, Converts cast (parse cl argv (ConfigSet.new parent)).2.2 o) ↔
        ∀ o ∈ cl.options, ∀ p ∈ sources cl.options es o.getConfigKey,
          (o.flags.int → FitsInt p) ∧ (o.flags.bool → FitsBool p)) := by
  refine ⟨?_, ?_⟩
  · rcases parse_cases cl argv (ConfigSet.new parent) with
      ⟨es, hreads, -⟩ | ⟨es, rest, msg, -, -, hparse⟩ | ⟨es, pre, o, post, msg, -, -, -, hparse⟩
    · exact ⟨es, hreads⟩
    · rw [hparse] at hok
      cases hok
    · rw [hparse] at hok
      cases hok
  · intro es hreads
    have hconfig : (parse cl argv (ConfigSet.new parent)).2.2
        = fillDefaults cl.options (storeEvents es (ConfigSet.new parent)) := by
      rcases missing_or_not cl.options (storeEvents es (ConfigSet.new parent)) with
        hall | ⟨pre, o, post, hsplit, hmiss, hpre⟩
      · rw [parse_of_reads_nil hreads hall]
      · obtain ⟨msg, hparse⟩ := parse_of_missing hreads hsplit hpre hmiss
        rw [hparse] at hok
        cases hok
    have hchecked : ∀ key, ∀ p ∈ sources cl.options es key, p.1.WellFormed ∧
        p.1.checkArgument p.2 := by
      intro key p hp
      obtain ⟨hmem, -, hcheck⟩ := checked_of_mem_sources cl.wellFormed hreads hp
      exact ⟨cl.wellFormed _ hmem, hcheck⟩
    have hint : ∀ key, (∀ v ∈ (parse cl argv (ConfigSet.new parent)).2.2.valuesOf key,
        ∃ n, cast v = .ok n) ↔ ∀ p ∈ sources cl.options es key, FitsInt p := by
      intro key
      rw [hconfig, valuesOf_sources, List.forall_mem_map]
      exact forall₂_congr fun p hp => int_returns_iff_fitsInt hcast (hchecked key p hp).2
    have hbool : ∀ key, (∀ v ∈ (parse cl argv (ConfigSet.new parent)).2.2.valuesOf key,
        ∃ b, ConfigSet.convertBool v = .ok b) ↔ ∀ p ∈ sources cl.options es key, FitsBool p := by
      intro key
      rw [hconfig, valuesOf_sources, List.forall_mem_map]
      exact forall₂_congr fun p hp =>
        bool_returns_iff_fitsBool (hchecked key p hp).1 (hchecked key p hp).2
    apply forall₂_congr
    intro o _
    constructor
    · intro hconv p hp
      exact ⟨fun hi => (hint _).mp (returns_iff.mp (hconv.int hi)) p hp,
        fun hb => (hbool _).mp (returns_iff.mp (hconv.bool hb)) p hp⟩
    · intro hfits
      exact ⟨fun hi => returns_iff.mpr ((hint _).mpr fun p hp => (hfits p hp).1 hi),
        fun hb => returns_iff.mpr ((hbool _).mpr fun p hp => (hfits p hp).2 hb)⟩

/-- A command line with `--n`, which takes an integer. -/
def number : CommandLine where
  options := [{ long := "n".toList, flags := { int := true } }]
  built := by
    intro o ho
    cases List.mem_singleton.mp ho
    exact ⟨":n=int".toList, rfl⟩

/-- `--n=5` can be read, and its value as well. -/
theorem parse_number_converts :
    (∀ defval, ∃ n, (parse number ["--n=5".toList] (ConfigSet.new none)).2.2.getScalar
      lexicalCastInt "n".toList defval = .ok n) ∧
    ∀ defval, ∃ ns, (parse number ["--n=5".toList] (ConfigSet.new none)).2.2.getList
      lexicalCastInt "n".toList defval = .ok ns := by
  obtain ⟨-, hconverts⟩ := parse_converts_iff lexicalCastInt isLexicalCastInt_lexicalCastInt number
    ["--n=5".toList] none rfl
  have hreads : Reads (FirstSpelled number.options) ["--n=5".toList]
      [.given { long := "n".toList, flags := { int := true } } "5".toList ["--n=5".toList]] [] :=
    .given rfl rfl rfl (@CmdlineOption.Takes.longValue _ "5".toList [] rfl rfl) (.stop [])
  have hfits : ∀ o ∈ number.options, Converts lexicalCastInt
      (parse number ["--n=5".toList] (ConfigSet.new none)).2.2 o := by
    refine (hconverts _ hreads).mpr fun o ho p hp => ?_
    cases List.mem_singleton.mp ho
    cases List.mem_singleton.mp hp
    exact ⟨fun _ => show decimal "5".toList < 2 ^ 31 by decide, nofun⟩
  exact (hfits _ (List.mem_singleton_self _)).int rfl rfl

/-- `2147483648` passes the check of an integer option, but it is not a 32-bit `int`. -/
theorem number_out_of_range :
    (parse number ["--n=2147483648".toList] (ConfigSet.new none)).1 = .ok () ∧
    (parse number ["--n=2147483648".toList] (ConfigSet.new none)).2.2.existsName "n".toList ∧
    (parse number ["--n=2147483648".toList] (ConfigSet.new none)).2.2.getScalar
      lexicalCastInt "n".toList 0 = .error .badLexicalCast ∧
    (parse number ["--n=2147483648".toList] (ConfigSet.new none)).2.2.getList
      lexicalCastInt "n".toList [] = .error .badLexicalCast := by
  decide

end CommandLine

end Utilmm
