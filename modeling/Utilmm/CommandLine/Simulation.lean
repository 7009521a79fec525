import Utilmm.CommandLine.Reading

/-!
# `parse` follows the reading

Each round of the loop of `parse` is one event of the reading: the index moves behind the words of
the event and its value is stored. At an error of the reading the round throws.
-/

namespace Utilmm

namespace CommandLine

open CmdlineOption (Takes Refuses WellFormed valueNext)
open Throwing (exec exec_bind_ok exec_bind_error)

/-! ### Positions in `argv` -/

lemma arg_of_drop {argv ws : List Str} {w : Str} {i : Nat} (h : argv.drop i = w :: ws) :
    arg argv i = w := by
  rw [arg, List.getD_eq_getElem?_getD, ← List.head?_drop, h]
  rfl

lemma lt_length_of_drop {argv ws : List Str} {w : Str} {i : Nat} (h : argv.drop i = w :: ws) :
    i < argv.length := by
  have hlen := congrArg List.length h
  simp only [List.length_drop, List.length_cons] at hlen
  omega

lemma drop_add {argv ws : List Str} {i : Nat} (words : List Str)
    (h : argv.drop i = words ++ ws) : argv.drop (i + words.length) = ws := by
  rw [← List.drop_drop, h, List.drop_left]

/-- The look-ahead of `option_match`. -/
lemma looksLikeArgument_eq {argv ws : List Str} {w : Str} {i : Nat}
    (h : argv.drop i = w :: ws) : looksLikeArgument argv i = valueNext ws := by
  have hws : argv.drop (i + 1) = ws := drop_add [w] h
  cases ws with
  | nil =>
    have hlen : argv.length ≤ i + 1 := List.drop_eq_nil_iff.mp hws
    simp [looksLikeArgument, valueNext, hlen]
  | cons v ws =>
    simp [looksLikeArgument, valueNext, arg_of_drop hws, lt_length_of_drop hws]

/-! ### One option -/

lemma exec_fail {α : Type} (message : Str) (s : ParseState) :
    exec (fail message : ParseM α) s = (.error (.commandlineError message), s) := rfl

lemma exec_addArgument {o : CmdlineOption} {v : Str} (h : o.checkArgument v) (s : ParseState) :
    exec (addArgument o v) s = (.ok (), { s with config := store o v s.config }) := by
  rw [addArgument, if_neg (by simp [h])]
  exact Throwing.exec_modify _ s

lemma exec_addArgument_invalid {o : CmdlineOption} {v : Str} (h : o.checkArgument v = false)
    (s : ParseState) :
    ∃ msg, exec (addArgument o v) s = (.error (.commandlineError msg), s) := by
  rw [addArgument, if_pos (by simp [h])]
  exact ⟨_, exec_fail _ s⟩

/-- Store a value and go on behind the words it came from. -/
lemma exec_addArgument_return {o : CmdlineOption} {v : Str} (h : o.checkArgument v) (j : Nat)
    (s : ParseState) :
    exec (do addArgument o v; return j) s
      = (.ok j, { s with config := store o v s.config }) := by
  rw [exec_bind_ok (exec_addArgument h s), Throwing.exec_pure]

lemma exec_addArgument_return_invalid {o : CmdlineOption} {v : Str}
    (h : o.checkArgument v = false) (j : Nat) (s : ParseState) :
    ∃ msg, exec (do addArgument o v; return j) s = (.error (.commandlineError msg), s) := by
  obtain ⟨msg, hadd⟩ := exec_addArgument_invalid h s
  exact ⟨msg, exec_bind_error hadd⟩

/-- A word that is not a spelling of the option is left to the others. -/
lemma exec_optionMatch_of_not_spells {o : CmdlineOption} {argv : List Str} {i : Nat}
    (h : ¬ o.spells (arg argv i)) (s : ParseState) :
    exec (optionMatch o argv i) s = (.ok i, s) := by
  simp only [CmdlineOption.spells, Bool.or_eq_true, not_or, decide_eq_true_eq] at h
  obtain ⟨⟨hshort, hlong⟩, hvalue⟩ := h
  rw [optionMatch, if_neg hshort, if_neg hlong, if_neg hvalue, Throwing.exec_pure]

section

variable {o : CmdlineOption} (ho : o.WellFormed) {argv : List Str} {i : Nat}
include ho

lemma long_ne_short : ['-', '-'] ++ o.getLong ≠ ['-'] ++ o.getShort :=
  ho.short_ne (by have := ho.long_length; simp; omega)

lemma longValue_ne_short (v : Str) : ['-', '-'] ++ o.getLong ++ ['='] ++ v ≠ ['-'] ++ o.getShort :=
  ho.short_ne (by simp; omega)

/-- `option_match` at a word `--long=v`. -/
lemma optionMatch_longValue {v : Str} (hw : arg argv i = ['-', '-'] ++ o.getLong ++ ['='] ++ v) :
    optionMatch o argv i
      = if !o.hasArgument then fail ("argument provided to --".toList ++ o.getLong)
        else do
          addArgument o v
          return i + 1 := by
  have hne : arg argv i ≠ ['-', '-'] ++ o.getLong := by simp [hw, List.append_assoc]
  have hstart : startsWith (arg argv i) (['-', '-'] ++ o.getLong ++ ['=']) :=
    startsWith_iff.mpr ⟨v, hw⟩
  have hdrop : (arg argv i).drop (o.getLong.length + 3) = v := by
    rw [hw,
      show o.getLong.length + 3 = (['-', '-'] ++ o.getLong ++ ['=']).length by simp, List.drop_left]
  rw [optionMatch, if_neg (hw ▸ longValue_ne_short ho v), if_neg hne, if_pos hstart, hdrop]

/-- `option_match` at the word `--long`. -/
lemma optionMatch_long (hw : arg argv i = ['-', '-'] ++ o.getLong) :
    optionMatch o argv i
      = if o.hasArgument && !o.isArgumentOptional then
          fail ("missing argument to --".toList ++ o.getLong)
        else do
          addArgument o o.getDefaultValue
          return i + 1 := by
  rw [optionMatch, if_neg (hw ▸ long_ne_short ho), if_pos hw]

end

/-- `option_match` at the word `-s`. -/
lemma optionMatch_short {o : CmdlineOption} {argv ws : List Str} {i : Nat}
    (hi : argv.drop i = (['-'] ++ o.getShort) :: ws) :
    optionMatch o argv i
      = if !o.hasArgument || (o.isArgumentOptional && !valueNext ws) then do
          addArgument o o.getDefaultValue
          return i + 1
        else if valueNext ws then do
          addArgument o (arg argv (i + 1))
          return i + 2
        else fail ("missing argument to -".toList ++ o.getShort) := by
  rw [optionMatch, if_pos (arg_of_drop hi), looksLikeArgument_eq hi]

/-- `option_match` on the words of its option: the value is stored. -/
lemma exec_optionMatch_takes {o : CmdlineOption} (ho : o.WellFormed) {argv words ws : List Str}
    {v : Str} {i : Nat} (ht : o.Takes words ws v) (hi : argv.drop i = words ++ ws)
    (s : ParseState) :
    exec (optionMatch o argv i) s
      = (.ok (i + words.length), { s with config := store o v s.config }) := by
  cases ht with
  | short h =>
    have hcond : (!o.hasArgument || (o.isArgumentOptional && !valueNext ws)) = true := by
      rcases h with h | ⟨hopt, hn⟩ <;> simp [*]
    have hwords : argv.drop i = (['-'] ++ o.getShort) :: ws := hi
    rw [optionMatch_short hwords, if_pos hcond]
    exact exec_addArgument_return (ho.checkArgument_getDefaultValue (h.imp_right And.left)) _ s
  | shortValue ha hv hc =>
    have hwords : argv.drop i = (['-'] ++ o.getShort) :: v :: ws := hi
    have hnext : arg argv (i + 1) = v :=
      arg_of_drop (drop_add [['-'] ++ o.getShort] hwords)
    have hn : valueNext (v :: ws) = true := by simp [valueNext, hv]
    rw [optionMatch_short hwords, if_neg (by simp [ha, hn]), if_pos hn, hnext]
    exact exec_addArgument_return hc _ s
  | long h =>
    have hcond : ¬ (o.hasArgument && !o.isArgumentOptional) = true := by
      rcases h with h | h <;> simp [h]
    rw [optionMatch_long ho (arg_of_drop hi), if_neg hcond]
    exact exec_addArgument_return (ho.checkArgument_getDefaultValue h) _ s
  | longValue ha hc =>
    rw [optionMatch_longValue ho (arg_of_drop hi), if_neg (by simp [ha])]
    exact exec_addArgument_return hc _ s

/-- `option_match` on words of its option that are in error: it throws, and nothing is stored. -/
lemma exec_optionMatch_refuses {o : CmdlineOption} (ho : o.WellFormed) {argv ws : List Str}
    {i : Nat} (hr : o.Refuses ws) (hi : argv.drop i = ws) (s : ParseState) :
    ∃ msg, exec (optionMatch o argv i) s = (.error (.commandlineError msg), s) := by
  cases hr with
  | missingShort h hn =>
    obtain ⟨ha, hopt⟩ := h
    rw [optionMatch_short hi, if_neg (by simp [ha, hopt]), if_neg (by simp [hn])]
    exact ⟨_, exec_fail _ s⟩
  | missingLong h =>
    obtain ⟨ha, hopt⟩ := h
    rw [optionMatch_long ho (arg_of_drop hi), if_pos (by simp [ha, hopt])]
    exact ⟨_, exec_fail _ s⟩
  | unexpected h =>
    rw [optionMatch_longValue ho (arg_of_drop hi), if_pos (by simp [h])]
    exact ⟨_, exec_fail _ s⟩
  | @invalidShort v ws ha hv hc =>
    have hnext : arg argv (i + 1) = v :=
      arg_of_drop (drop_add [['-'] ++ o.getShort] hi)
    have hn : valueNext (v :: ws) = true := by simp [valueNext, hv]
    rw [optionMatch_short hi, if_neg (by simp [ha, hn]), if_pos hn, hnext]
    exact exec_addArgument_return_invalid hc _ s
  | invalidLong ha hc =>
    rw [optionMatch_longValue ho (arg_of_drop hi), if_neg (by simp [ha])]
    exact exec_addArgument_return_invalid hc _ s

/-! ### One word -/

/-- The search ends at the first option that the word spells, unless there is none. -/
lemma exec_matchOptions {opts : List CmdlineOption} (hopts : ∀ o ∈ opts, o.WellFormed)
    {argv ws : List Str} {w : Str} {i : Nat} (hi : argv.drop i = w :: ws) (s : ParseState) :
    exec (matchOptions argv i opts) s
      = match opts.find? (·.spells w) with
        | some o => exec (optionMatch o argv i) s
        | none => (.error (.commandlineError ("unknown argument ".toList ++ w)), s) := by
  induction opts with
  | nil =>
    rw [matchOptions, exec_fail, arg_of_drop hi]
    rfl
  | cons o opts ih =>
    have ho := hopts o List.mem_cons_self
    cases hspells : o.spells w with
    | false =>
      have hpass : exec (optionMatch o argv i) s = (.ok i, s) :=
        exec_optionMatch_of_not_spells (by simp [arg_of_drop hi, hspells]) s
      rw [matchOptions, exec_bind_ok hpass, if_neg (by simp),
        List.find?_cons_of_neg (by simp [hspells])]
      exact ih fun o' ho' => hopts o' (List.mem_cons_of_mem _ ho')
    | true =>
      rw [List.find?_cons_of_pos (by simp [hspells])]
      rcases CmdlineOption.takes_or_refuses hspells ws with ⟨words, rest, v, hws, ht⟩ | hr
      · have hlen : 1 ≤ words.length := by cases ht <;> simp
        have hmatch := exec_optionMatch_takes ho ht (hi.trans hws) s
        rw [matchOptions, exec_bind_ok hmatch, if_pos (by omega), Throwing.exec_pure]
        exact hmatch.symm
      · obtain ⟨msg, hmatch⟩ := exec_optionMatch_refuses ho hr hi s
        rw [matchOptions, exec_bind_error hmatch]
        exact hmatch.symm

/-- A word that starts with `-` and its value are one round of the loop. -/
lemma exec_parseWord_given {opts : List CmdlineOption} (hopts : ∀ o ∈ opts, o.WellFormed)
    {argv ws words next : List Str} {w v : Str} {o : CmdlineOption} {i : Nat}
    (hi : argv.drop i = w :: ws) (hw : startsDash w) (ho : FirstSpelled opts w o)
    (hws : w :: ws = words ++ next) (ht : o.Takes words next v) (remains : List Str)
    (s : ParseState) :
    exec (parseWord opts argv i remains) s
      = (.ok (i + words.length, remains), { s with config := store o v s.config }) := by
  have hmatch : exec (matchOptions argv i opts) s
      = (.ok (i + words.length), { s with config := store o v s.config }) := by
    rw [exec_matchOptions hopts hi, ho]
    exact exec_optionMatch_takes (hopts o (List.mem_of_find?_eq_some ho)) ht (hi.trans hws) s
  rw [parseWord, if_neg (by simp [arg_of_drop hi, hw]), exec_bind_ok hmatch, Throwing.exec_pure]

/-- A word in error makes the round throw. -/
lemma exec_parseWord_malformed {opts : List CmdlineOption} (hopts : ∀ o ∈ opts, o.WellFormed)
    {argv ws : List Str} {i : Nat} (hi : argv.drop i = ws)
    (hm : Malformed (FirstSpelled opts) ws) (remains : List Str) (s : ParseState) :
    ∃ msg, exec (parseWord opts argv i remains) s = (.error (.commandlineError msg), s) := by
  suffices h : ∀ w ws', ws = w :: ws' → startsDash w →
      (∃ msg, exec (matchOptions argv i opts) s = (.error (.commandlineError msg), s)) →
      ∃ msg, exec (parseWord opts argv i remains) s = (.error (.commandlineError msg), s) by
    cases hm with
    | @unknown w ws' hw hnone =>
      refine h w ws' rfl hw ⟨"unknown argument ".toList ++ w, ?_⟩
      have hfind : opts.find? (·.spells w) = none :=
        Option.eq_none_iff_forall_ne_some.mpr fun o ho => hnone o ho
      rw [exec_matchOptions hopts hi, hfind]
    | @refused w ws' o hw ho hr =>
      refine h w ws' rfl hw ?_
      rw [exec_matchOptions hopts hi, ho]
      exact exec_optionMatch_refuses (hopts o (List.mem_of_find?_eq_some ho)) hr hi s
  rintro w ws' rfl hw ⟨msg, hmatch⟩
  rw [parseWord, if_neg (by simp [arg_of_drop hi, hw])]
  exact ⟨msg, exec_bind_error hmatch⟩

/-! ### All words -/

lemma exec_parseWords_done {opts : List CmdlineOption} {argv : List Str} {i : Nat}
    (h : argv.length ≤ i) (fuel : Nat) (remains : List Str) (s : ParseState) :
    exec (parseWords opts argv fuel i remains) s = (.ok remains, s) := by
  cases fuel <;> rw [parseWords, if_pos h, Throwing.exec_pure]

lemma exec_parseWords_succ {opts : List CmdlineOption} {argv remains remains' : List Str}
    {i i' : Nat} {s s' : ParseState} (h : i < argv.length)
    (hround : exec (parseWord opts argv i remains) s = (.ok (i', remains'), s')) (fuel : Nat) :
    exec (parseWords opts argv (fuel + 1) i remains) s
      = exec (parseWords opts argv fuel i' remains') s' := by
  rw [parseWords, if_neg (by omega), exec_bind_ok hround]

lemma exec_parseWords_error {opts : List CmdlineOption} {argv remains : List Str} {i : Nat}
    {s s' : ParseState} {e : ParseFailure} (h : i < argv.length)
    (hround : exec (parseWord opts argv i remains) s = (.error e, s')) (fuel : Nat) :
    exec (parseWords opts argv (fuel + 1) i remains) s = (.error e, s') := by
  rw [parseWords, if_neg (by omega), exec_bind_error hround]

/-- The loop runs through the events of a reading. -/
lemma exec_parseWords_reads {opts : List CmdlineOption} (hopts : ∀ o ∈ opts, o.WellFormed)
    {argv ws rest : List Str} {es : List Event} (h : Reads (FirstSpelled opts) ws es rest) :
    ∀ (fuel i : Nat) (remains : List Str) (s : ParseState), argv.drop i = ws → i ≤ argv.length →
      argv.length ≤ i + fuel →
      ∃ fuel' i', argv.drop i' = rest ∧ i' ≤ argv.length ∧ argv.length ≤ i' + fuel' ∧
        exec (parseWords opts argv fuel i remains) s
          = exec (parseWords opts argv fuel' i' (remains ++ positionals es))
              { s with config := storeEvents es s.config } := by
  induction h with
  | stop ws =>
    intro fuel i remains s hi hle hfuel
    exact ⟨fuel, i, hi, hle, hfuel, by simp [positionals, storeEvents]⟩
  | @positional w ws rest es hw _ ih =>
    intro fuel i remains s hi hle hfuel
    have hlt := lt_length_of_drop hi
    obtain ⟨fuel, rfl⟩ : ∃ n, fuel = n + 1 := ⟨fuel - 1, by omega⟩
    have hround : exec (parseWord opts argv i remains) s = (.ok (i + 1, remains ++ [w]), s) := by
      rw [parseWord, if_pos (by simp [arg_of_drop hi, hw]), arg_of_drop hi, Throwing.exec_pure]
    obtain ⟨fuel', i', hi', hle', hfuel', hrun⟩ := ih fuel (i + 1) (remains ++ [w]) s
      (drop_add [w] hi) hlt (by omega)
    refine ⟨fuel', i', hi', hle', hfuel', ?_⟩
    rw [exec_parseWords_succ hlt hround, hrun]
    simp [positionals, storeEvents, Event.apply]
  | @given w v o ws words next rest es hw ho hws ht _ ih =>
    intro fuel i remains s hi hle hfuel
    have hlt := lt_length_of_drop hi
    have hlen : 1 ≤ words.length := by cases ht <;> simp
    have hnext : i + words.length ≤ argv.length := by
      have := congrArg List.length (hi.trans hws)
      simp only [List.length_drop, List.length_append] at this
      omega
    obtain ⟨fuel, rfl⟩ : ∃ n, fuel = n + 1 := ⟨fuel - 1, by omega⟩
    have hround := exec_parseWord_given hopts hi hw ho hws ht remains s
    obtain ⟨fuel', i', hi', hle', hfuel', hrun⟩ := ih fuel (i + words.length) remains
      { s with config := store o v s.config } (drop_add words (hi.trans hws)) hnext
      (by omega)
    refine ⟨fuel', i', hi', hle', hfuel', ?_⟩
    rw [exec_parseWords_succ hlt hround, hrun]
    simp [positionals, storeEvents, Event.apply]

/-- A command line that is read to its end leaves the loop with its positional words. -/
lemma exec_parseWords_of_reads_nil {opts : List CmdlineOption}
    (hopts : ∀ o ∈ opts, o.WellFormed) {argv : List Str} {es : List Event}
    (h : Reads (FirstSpelled opts) argv es []) (s : ParseState) :
    exec (parseWords opts argv argv.length 0 []) s
      = (.ok (positionals es), { s with config := storeEvents es s.config }) := by
  obtain ⟨fuel, i, hi, hle, -, hrun⟩ := exec_parseWords_reads hopts h
    argv.length 0 [] s List.drop_zero (Nat.zero_le _) (by omega)
  rw [hrun, exec_parseWords_done (List.drop_eq_nil_iff.mp hi), List.nil_append]

/-- A command line that is read up to an error throws there. -/
lemma exec_parseWords_of_malformed {opts : List CmdlineOption}
    (hopts : ∀ o ∈ opts, o.WellFormed) {argv rest : List Str} {es : List Event}
    (h : Reads (FirstSpelled opts) argv es rest) (hm : Malformed (FirstSpelled opts) rest)
    (s : ParseState) :
    ∃ msg, exec (parseWords opts argv argv.length 0 []) s
      = (.error (.commandlineError msg), { s with config := storeEvents es s.config }) := by
  obtain ⟨fuel, i, hi, hle, hfuel, hrun⟩ := exec_parseWords_reads hopts h
    argv.length 0 [] s List.drop_zero (Nat.zero_le _) (by omega)
  have hlt : i < argv.length := by
    cases hm with
    | unknown => exact lt_length_of_drop hi
    | refused => exact lt_length_of_drop hi
  obtain ⟨fuel, rfl⟩ : ∃ n, fuel = n + 1 := ⟨fuel - 1, by omega⟩
  obtain ⟨msg, hround⟩ := exec_parseWord_malformed hopts hi hm ([] ++ positionals es)
    { s with config := storeEvents es s.config }
  exact ⟨msg, hrun.trans (exec_parseWords_error hlt hround fuel)⟩

/-- The indices and states at the head of the loop. -/
inductive Reaches (opts : List CmdlineOption) (argv : List Str) (start : ParseState) :
    Nat → List Str → ParseState → Prop where
  | start : Reaches opts argv start 0 [] start
  | round {i i' : Nat} {remains remains' : List Str} {s s' : ParseState}
      (h : Reaches opts argv start i remains s) (hi : i < argv.length)
      (hround : exec (parseWord opts argv i remains) s = (.ok (i', remains'), s')) :
      Reaches opts argv start i' remains' s'

/-- A round that returns reads one event. -/
lemma parseWord_reads {opts : List CmdlineOption} (hopts : ∀ o ∈ opts, o.WellFormed)
    {argv remains remains' : List Str} {i i' : Nat} {s s' : ParseState} (hi : i < argv.length)
    (hround : exec (parseWord opts argv i remains) s = (.ok (i', remains'), s')) :
    i' ≤ argv.length ∧ ∃ e, Reads (FirstSpelled opts) (argv.drop i) [e] (argv.drop i') := by
  have hdrop : argv.drop i = argv[i] :: argv.drop (i + 1) := List.drop_eq_getElem_cons hi
  cases hw : startsDash argv[i] with
  | false =>
    rw [parseWord, if_pos (by simp [arg_of_drop hdrop, hw]), Throwing.exec_pure] at hround
    cases hround
    refine ⟨hi, .positional argv[i], ?_⟩
    rw [hdrop]
    exact .positional hw (.stop _)
  | true =>
    obtain ⟨es, rest, h, hrest⟩ := exists_reads opts (argv.drop i)
    rw [hdrop] at h
    cases h with
    | stop =>
      rcases hrest with hnil | hm
      · cases hnil
      · obtain ⟨msg, herr⟩ := exec_parseWord_malformed hopts hdrop hm remains s
        rw [herr] at hround
        cases hround
    | positional hw' => rw [hw] at hw'; cases hw'
    | @given _ v o _ words next _ _ _ ho hws ht =>
      rw [exec_parseWord_given hopts hdrop hw ho hws ht] at hround
      cases hround
      have hlen := congrArg List.length (hdrop.trans hws)
      simp only [List.length_drop, List.length_append] at hlen
      refine ⟨by omega, .given o v words, ?_⟩
      rw [drop_add words (hdrop.trans hws), hdrop]
      exact .given hw ho hws ht (.stop next)

/-- The index never passes `argc`. -/
lemma Reaches.le {opts : List CmdlineOption} (hopts : ∀ o ∈ opts, o.WellFormed)
    {argv remains : List Str} {i : Nat} {start s : ParseState}
    (h : Reaches opts argv start i remains s) : i ≤ argv.length := by
  induction h with
  | start => exact Nat.zero_le _
  | round _ hi hround _ => exact (parseWord_reads hopts hi hround).1

/-- The words before an index that the loop reaches have been read. -/
lemma Reaches.reads {opts : List CmdlineOption} (hopts : ∀ o ∈ opts, o.WellFormed)
    {argv remains : List Str} {i : Nat} {start s : ParseState}
    (h : Reaches opts argv start i remains s) :
    ∃ es, Reads (FirstSpelled opts) argv es (argv.drop i) := by
  induction h with
  | start => exact ⟨[], .stop argv⟩
  | round _ hi hround ih =>
    obtain ⟨es, h⟩ := ih
    obtain ⟨-, e, hevent⟩ := parseWord_reads hopts hi hround
    exact ⟨es ++ [e], h.append hevent⟩

/-! ### Defaults -/

/-- The default of an option whose key is absent. -/
def fillDefault (config : ConfigSet) (o : CmdlineOption) : ConfigSet :=
  if !config.existsName o.getConfigKey && o.hasDefaultValue then
    config.set o.getConfigKey o.getDefaultValue
  else config

def fillDefaults (opts : List CmdlineOption) (config : ConfigSet) : ConfigSet :=
  opts.foldl fillDefault config

/-- The option is required and its key is absent. -/
def Missing (config : ConfigSet) (o : CmdlineOption) : Prop :=
  o.isRequired ∧ config.existsName o.getConfigKey = false

lemma exec_setDefaults_cons {o : CmdlineOption} {opts : List CmdlineOption} {s : ParseState}
    (h : ¬ Missing s.config o) :
    exec (setDefaults (o :: opts)) s
      = exec (setDefaults opts) { s with config := fillDefault s.config o } := by
  rw [setDefaults, exec_bind_ok (Throwing.exec_get s)]
  cases hex : s.config.existsName o.getConfigKey with
  | true => simp [fillDefault, hex]
  | false =>
    have hreq : o.isRequired = false := by
      cases hr : o.isRequired with
      | true => exact absurd ⟨hr, hex⟩ h
      | false => rfl
    cases hd : o.hasDefaultValue with
    | true =>
      simp only [hreq, Bool.false_eq_true, if_false, if_true]
      rw [exec_bind_ok (Throwing.exec_modify _ s)]
      simp [fillDefault, hex, hd]
    | false => simp [fillDefault, hd, hreq]

/-- Without a missing option the loop fills in all defaults. -/
lemma exec_setDefaults {opts : List CmdlineOption} {s : ParseState}
    (h : ∀ pre o post, opts = pre ++ o :: post → ¬ Missing (fillDefaults pre s.config) o) :
    exec (setDefaults opts) s = (.ok (), { s with config := fillDefaults opts s.config }) := by
  induction opts generalizing s with
  | nil => rfl
  | cons o opts ih =>
    rw [exec_setDefaults_cons (h [] o opts rfl)]
    apply ih
    intro pre o' post hsplit
    exact h (o :: pre) o' post (by rw [hsplit]; rfl)

/-- The loop throws at a missing option; the defaults of those before it stay. -/
lemma exec_setDefaults_missing {pre : List CmdlineOption} (post : List CmdlineOption)
    {o : CmdlineOption} {s : ParseState}
    (hpre : ∀ pre' o' post', pre = pre' ++ o' :: post' →
      ¬ Missing (fillDefaults pre' s.config) o')
    (h : Missing (fillDefaults pre s.config) o) :
    ∃ msg, exec (setDefaults (pre ++ o :: post)) s
      = (.error (.commandlineError msg), { s with config := fillDefaults pre s.config }) := by
  induction pre generalizing s with
  | nil =>
    obtain ⟨hr, hex⟩ := h
    have hex' : s.config.existsName o.getConfigKey = false := hex
    rw [List.nil_append, setDefaults, exec_bind_ok (Throwing.exec_get s)]
    simp only [hex', hr, Bool.false_eq_true, if_false, if_true]
    exact ⟨_, exec_fail _ s⟩
  | cons o' pre ih =>
    rw [List.cons_append, exec_setDefaults_cons (hpre [] o' pre rfl)]
    apply ih
    · intro pre' o'' post' hsplit
      exact hpre (o' :: pre') o'' post' (by rw [hsplit]; rfl)
    · exact h

end CommandLine

end Utilmm
