import Utilmm.CommandLine.Simulation

/-!
# What `parse` computes

Every call of `parse` ends in one of three ways: it returns with the positional words and the
values of the whole reading, it throws at the first word in error, or it throws at the first
required option that is still absent after all words.
-/

namespace Utilmm

namespace CommandLine

open Throwing (exec exec_bind_ok exec_bind_error)

/-! ### The three outcomes -/

/-- The reading reaches the end, and no required option is missing. -/
lemma parse_of_reads_nil {cl : CommandLine} {argv : List Str} {config : ConfigSet}
    {es : List Event} (h : Reads (FirstSpelled cl.options) argv es [])
    (hmiss : ∀ pre o post, cl.options = pre ++ o :: post →
      ¬ Missing (fillDefaults pre (storeEvents es config)) o) :
    parse cl argv config
      = (.ok (), { cl with remaining := positionals es },
          fillDefaults cl.options (storeEvents es config)) := by
  have hwords := exec_parseWords_of_reads_nil cl.wellFormed h ⟨config, cl.remaining⟩
  have hdefaults := exec_setDefaults
    (s := { config := storeEvents es config, remaining := cl.remaining }) hmiss
  rw [parse, parseBody, exec_bind_ok hwords, exec_bind_ok hdefaults, Throwing.exec_modify]

/-- The reading meets a word in error. -/
lemma parse_of_malformed {cl : CommandLine} {argv rest : List Str} (config : ConfigSet)
    {es : List Event} (h : Reads (FirstSpelled cl.options) argv es rest)
    (hm : Malformed (FirstSpelled cl.options) rest) :
    ∃ msg, parse cl argv config
      = (.error (.commandlineError msg), cl, storeEvents es config) := by
  obtain ⟨msg, hwords⟩ := exec_parseWords_of_malformed cl.wellFormed h hm ⟨config, cl.remaining⟩
  refine ⟨msg, ?_⟩
  rw [parse, parseBody, exec_bind_error hwords]

/-- The reading reaches the end, and `o` is the first required option that is missing. -/
lemma parse_of_missing {cl : CommandLine} {argv : List Str} {config : ConfigSet}
    {es : List Event} {pre post : List CmdlineOption} {o : CmdlineOption}
    (h : Reads (FirstSpelled cl.options) argv es [])
    (hsplit : cl.options = pre ++ o :: post)
    (hpre : ∀ pre' o' post', pre = pre' ++ o' :: post' →
      ¬ Missing (fillDefaults pre' (storeEvents es config)) o')
    (hmiss : Missing (fillDefaults pre (storeEvents es config)) o) :
    ∃ msg, parse cl argv config
      = (.error (.commandlineError msg), cl, fillDefaults pre (storeEvents es config)) := by
  have hwords := exec_parseWords_of_reads_nil cl.wellFormed h ⟨config, cl.remaining⟩
  obtain ⟨msg, hdefaults⟩ := exec_setDefaults_missing post
    (s := { config := storeEvents es config, remaining := cl.remaining }) hpre hmiss
  rw [← hsplit] at hdefaults
  refine ⟨msg, ?_⟩
  rw [parse, parseBody, exec_bind_ok hwords, exec_bind_error hdefaults]

/-- Either no option is missing when its turn comes, or there is a first one. -/
lemma missing_or_not (opts : List CmdlineOption) (config : ConfigSet) :
    (∀ pre o post, opts = pre ++ o :: post → ¬ Missing (fillDefaults pre config) o) ∨
    ∃ pre o post, opts = pre ++ o :: post ∧ Missing (fillDefaults pre config) o ∧
      ∀ pre' o' post', pre = pre' ++ o' :: post' → ¬ Missing (fillDefaults pre' config) o' := by
  induction opts generalizing config with
  | nil => exact Or.inl fun pre o post h => by simp at h
  | cons o opts ih =>
    by_cases ho : Missing config o
    · exact Or.inr ⟨[], o, opts, rfl, ho, fun pre' o' post' h => by simp at h⟩
    · have hcons : ∀ {l : List CmdlineOption},
          (∀ pre o' post, l = pre ++ o' :: post →
            ¬ Missing (fillDefaults pre (fillDefault config o)) o') →
          ∀ pre o' post, o :: l = pre ++ o' :: post → ¬ Missing (fillDefaults pre config) o' := by
        intro l hl pre o' post hsplit
        cases pre with
        | nil =>
          obtain ⟨rfl, -⟩ := List.cons_eq_cons.mp hsplit
          exact ho
        | cons p pre =>
          obtain ⟨rfl, htail⟩ := List.cons_eq_cons.mp hsplit
          exact hl pre o' post htail
      rcases ih (fillDefault config o) with h | ⟨pre, o', post, hsplit, hmiss, hpre⟩
      · exact Or.inl (hcons h)
      · exact Or.inr ⟨o :: pre, o', post, by rw [hsplit]; rfl, hmiss, hcons hpre⟩

/-- The outcome of `parse`, for every list of options. -/
theorem parse_cases (cl : CommandLine) (argv : List Str) (config : ConfigSet) :
    (∃ es, Reads (FirstSpelled cl.options) argv es [] ∧
      (∀ pre o post, cl.options = pre ++ o :: post →
        ¬ Missing (fillDefaults pre (storeEvents es config)) o) ∧
      parse cl argv config
        = (.ok (), { cl with remaining := positionals es },
            fillDefaults cl.options (storeEvents es config))) ∨
    (∃ es rest msg, Reads (FirstSpelled cl.options) argv es rest ∧
      Malformed (FirstSpelled cl.options) rest ∧
      parse cl argv config = (.error (.commandlineError msg), cl, storeEvents es config)) ∨
    (∃ es pre o post msg, Reads (FirstSpelled cl.options) argv es [] ∧
      cl.options = pre ++ o :: post ∧ Missing (fillDefaults pre (storeEvents es config)) o ∧
      parse cl argv config
        = (.error (.commandlineError msg), cl, fillDefaults pre (storeEvents es config))) := by
  obtain ⟨es, rest, h, rfl | hm⟩ := exists_reads cl.options argv
  · rcases missing_or_not cl.options (storeEvents es config) with
      hmiss | ⟨pre, o, post, hsplit, hmiss, hpre⟩
    · exact Or.inl ⟨es, h, hmiss, parse_of_reads_nil h hmiss⟩
    · obtain ⟨msg, hparse⟩ := parse_of_missing h hsplit hpre hmiss
      exact Or.inr (Or.inr ⟨es, pre, o, post, msg, h, hsplit, hmiss, hparse⟩)
  · obtain ⟨msg, hparse⟩ := parse_of_malformed config h hm
    exact Or.inr (Or.inl ⟨es, rest, msg, h, hm, hparse⟩)

/-! ### Equal outcomes -/

/-- Two calls of `parse` agree: both throw `commandline_error`, or both return with the same
configuration and the same remaining words. -/
def Agree (r r' : Except ParseFailure Unit × CommandLine × ConfigSet) : Prop :=
  (∃ msg, r.1 = .error (.commandlineError msg)) ∧ (∃ msg, r'.1 = .error (.commandlineError msg)) ∨
    r.1 = .ok () ∧ r'.1 = .ok () ∧ r.2.2 = r'.2.2 ∧ r.2.1.remaining = r'.2.1.remaining

/-- A required option is missing when its turn comes. -/
def HasMissing (opts : List CmdlineOption) (config : ConfigSet) : Prop :=
  ∃ pre o post, opts = pre ++ o :: post ∧ Missing (fillDefaults pre config) o

/-- The loops over the options that are not set yet have the same effect. -/
def SameDefaults (opts opts' : List CmdlineOption) : Prop :=
  ∀ config, (HasMissing opts config ↔ HasMissing opts' config) ∧
    fillDefaults opts config = fillDefaults opts' config

lemma SameDefaults.refl (opts : List CmdlineOption) : SameDefaults opts opts :=
  fun _ => ⟨Iff.rfl, rfl⟩

/-- A reading to the end leads to an error exactly when an option is missing. -/
lemma parse_of_hasMissing {cl : CommandLine} {argv : List Str} {config : ConfigSet}
    {es : List Event} (h : Reads (FirstSpelled cl.options) argv es [])
    (hmiss : HasMissing cl.options (storeEvents es config)) :
    ∃ msg, (parse cl argv config).1 = .error (.commandlineError msg) := by
  rcases missing_or_not cl.options (storeEvents es config) with
    hall | ⟨pre, o, post, hsplit, ho, hpre⟩
  · obtain ⟨pre, o, post, hsplit, ho⟩ := hmiss
    exact absurd ho (hall pre o post hsplit)
  · obtain ⟨msg, hparse⟩ := parse_of_missing h hsplit hpre ho
    exact ⟨msg, by rw [hparse]⟩

lemma parse_of_not_hasMissing {cl : CommandLine} {argv : List Str} {config : ConfigSet}
    {es : List Event} (h : Reads (FirstSpelled cl.options) argv es [])
    (hmiss : ¬ HasMissing cl.options (storeEvents es config)) :
    parse cl argv config
      = (.ok (), { cl with remaining := positionals es },
          fillDefaults cl.options (storeEvents es config)) :=
  parse_of_reads_nil h fun pre o post hsplit ho => hmiss ⟨pre, o, post, hsplit, ho⟩

/-- Readings that end alike with the same effect lead to the same outcome. -/
lemma agree_of_reads {cl cl' : CommandLine} {argv argv' rest rest' : List Str}
    {es es' : List Event} {config : ConfigSet}
    (hdefaults : SameDefaults cl.options cl'.options)
    (h : Reads (FirstSpelled cl.options) argv es rest)
    (h' : Reads (FirstSpelled cl'.options) argv' es' rest')
    (hend : rest = [] ∧ rest' = [] ∨
      Malformed (FirstSpelled cl.options) rest ∧ Malformed (FirstSpelled cl'.options) rest')
    (hstore : storeEvents es config = storeEvents es' config)
    (hpos : positionals es = positionals es') :
    Agree (parse cl argv config) (parse cl' argv' config) := by
  rcases hend with ⟨rfl, rfl⟩ | ⟨hm, hm'⟩
  · obtain ⟨hiff, hfill⟩ := hdefaults (storeEvents es config)
    by_cases hmiss : HasMissing cl.options (storeEvents es config)
    · exact Or.inl ⟨parse_of_hasMissing h hmiss,
        parse_of_hasMissing h' (hstore ▸ hiff.mp hmiss)⟩
    · have hmiss' : ¬ HasMissing cl'.options (storeEvents es' config) :=
        fun hm => hmiss (hiff.mpr (hstore.symm ▸ hm))
      rw [parse_of_not_hasMissing h hmiss, parse_of_not_hasMissing h' hmiss']
      exact Or.inr ⟨rfl, rfl, by rw [hfill, hstore], hpos⟩
  · obtain ⟨msg, hparse⟩ := parse_of_malformed config h hm
    obtain ⟨msg', hparse'⟩ := parse_of_malformed config h' hm'
    exact Or.inl ⟨⟨msg, by rw [hparse]⟩, ⟨msg', by rw [hparse']⟩⟩

end CommandLine

end Utilmm
