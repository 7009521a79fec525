import Utilmm.CommandLine.Parse

/-!
# The reading of a command line

A command line is read from left to right, without indices: a word that does not start with `-`
is positional, and any other word spells an option, which takes a value. `Reads` collects the
events of a reading and the words it leaves, and `Malformed` says that no reading continues.

Which option a word is, is a parameter. `parse` takes the first option that the word spells.
-/

namespace Utilmm

namespace CmdlineOption

/-! ### Spellings -/

/-- The word is `-s`, `--long` or `--long=v`. -/
def spells (o : CmdlineOption) (word : Str) : Bool :=
  word = ['-'] ++ o.getShort || word = ['-', '-'] ++ o.getLong ||
    startsWith word (['-', '-'] ++ o.getLong ++ ['='])

/-- An argument has to be given. -/
def IsMandatory (o : CmdlineOption) : Prop := o.hasArgument ∧ o.isArgumentOptional = false

/-- The next word can be a value. -/
def valueNext : List Str → Bool
  | [] => false
  | v :: _ => !CommandLine.startsDash v

/-- `o.Takes words ws v`: the option is spelled by `words` and takes the value `v`, when `ws`
are the words that follow. -/
inductive Takes (o : CmdlineOption) : List Str → List Str → Str → Prop where
  | short {ws : List Str}
      (h : o.hasArgument = false ∨ o.isArgumentOptional ∧ valueNext ws = false) :
      o.Takes [['-'] ++ o.getShort] ws o.getDefaultValue
  | shortValue {v : Str} {ws : List Str} (ha : o.hasArgument)
      (hv : CommandLine.startsDash v = false) (hc : o.checkArgument v) :
      o.Takes [['-'] ++ o.getShort, v] ws v
  | long {ws : List Str} (h : o.hasArgument = false ∨ o.isArgumentOptional) :
      o.Takes [['-', '-'] ++ o.getLong] ws o.getDefaultValue
  | longValue {v : Str} {ws : List Str} (ha : o.hasArgument) (hc : o.checkArgument v) :
      o.Takes [['-', '-'] ++ o.getLong ++ ['='] ++ v] ws v

/-- The words start with a spelling of the option that is in error. -/
inductive Refuses (o : CmdlineOption) : List Str → Prop where
  | missingShort {ws : List Str} (h : o.IsMandatory) (hn : valueNext ws = false) :
      o.Refuses ((['-'] ++ o.getShort) :: ws)
  | missingLong {ws : List Str} (h : o.IsMandatory) : o.Refuses ((['-', '-'] ++ o.getLong) :: ws)
  | unexpected {v : Str} {ws : List Str} (h : o.hasArgument = false) :
      o.Refuses ((['-', '-'] ++ o.getLong ++ ['='] ++ v) :: ws)
  | invalidShort {v : Str} {ws : List Str} (ha : o.hasArgument)
      (hv : CommandLine.startsDash v = false) (hc : o.checkArgument v = false) :
      o.Refuses ((['-'] ++ o.getShort) :: v :: ws)
  | invalidLong {v : Str} {ws : List Str} (ha : o.hasArgument)
      (hc : o.checkArgument v = false) :
      o.Refuses ((['-', '-'] ++ o.getLong ++ ['='] ++ v) :: ws)

lemma spells_iff {o : CmdlineOption} {w : Str} :
    o.spells w ↔ w = ['-'] ++ o.getShort ∨ w = ['-', '-'] ++ o.getLong ∨
      ∃ v, w = ['-', '-'] ++ o.getLong ++ ['='] ++ v := by
  simp only [spells, Bool.or_eq_true, decide_eq_true_eq, startsWith_iff]
  tauto

lemma WellNamed.short_length {o : CmdlineOption} (ho : o.WellNamed) : o.getShort.length ≤ 1 := by
  rw [CmdlineOption.getShort]
  rcases ho.short_ident with h | ⟨c, -, h⟩ <;> simp [h]

lemma WellNamed.long_length {o : CmdlineOption} (ho : o.WellNamed) : 1 ≤ o.getLong.length :=
  List.length_pos_iff.mpr ho.long_ne_nil

/-- A word with at least three characters is not the short spelling. -/
lemma WellNamed.short_ne {o : CmdlineOption} (ho : o.WellNamed) {w : Str} (hw : 3 ≤ w.length) :
    w ≠ ['-'] ++ o.getShort := by
  rintro rfl
  have := ho.short_length
  simp at hw
  omega

/-- What an option takes depends on the words that follow only through the look-ahead. -/
lemma Takes.congr {o : CmdlineOption} {words ws ws' : List Str} {v : Str}
    (h : o.Takes words ws v) (hnext : valueNext ws = valueNext ws') : o.Takes words ws' v := by
  cases h with
  | short h => exact .short (hnext ▸ h)
  | shortValue ha hv hc => exact .shortValue ha hv hc
  | long h => exact .long h
  | longValue ha hc => exact .longValue ha hc

/-- An option takes a value from a word it spells, or it refuses the words. -/
lemma takes_or_refuses {o : CmdlineOption} {w : Str} (h : o.spells w) (ws : List Str) :
    (∃ words rest v, w :: ws = words ++ rest ∧ o.Takes words rest v) ∨ o.Refuses (w :: ws) := by
  cases ha : o.hasArgument with
  | false =>
    rcases spells_iff.mp h with rfl | rfl | ⟨v, rfl⟩
    · exact Or.inl ⟨_, ws, _, rfl, .short (Or.inl ha)⟩
    · exact Or.inl ⟨_, ws, _, rfl, .long (Or.inl ha)⟩
    · exact Or.inr (.unexpected ha)
  | true =>
    rcases spells_iff.mp h with rfl | rfl | ⟨v, rfl⟩
    · cases hn : valueNext ws with
      | false =>
        cases hopt : o.isArgumentOptional with
        | false => exact Or.inr (.missingShort ⟨ha, hopt⟩ hn)
        | true => exact Or.inl ⟨_, ws, _, rfl, .short (Or.inr ⟨hopt, hn⟩)⟩
      | true =>
        cases ws with
        | nil => cases hn
        | cons v ws =>
          have hv : CommandLine.startsDash v = false := by simpa [valueNext] using hn
          cases hc : o.checkArgument v with
          | false => exact Or.inr (.invalidShort ha hv hc)
          | true => exact Or.inl ⟨[_, v], ws, v, rfl, .shortValue ha hv hc⟩
    · cases hopt : o.isArgumentOptional with
      | false => exact Or.inr (.missingLong ⟨ha, hopt⟩)
      | true => exact Or.inl ⟨_, ws, _, rfl, .long (Or.inr hopt)⟩
    · cases hc : o.checkArgument v with
      | false => exact Or.inr (.invalidLong ha hc)
      | true => exact Or.inl ⟨_, ws, v, rfl, .longValue ha hc⟩

end CmdlineOption

namespace CommandLine

open CmdlineOption (Takes Refuses WellFormed valueNext)
open Throwing (exec)

/-! ### Readings -/

/-- What a reading meets, with the words it consumes. -/
inductive Event where
  | positional (word : Str)
  | given (opt : CmdlineOption) (value : Str) (words : List Str)

def Event.words : Event → List Str
  | .positional word => [word]
  | .given _ _ words => words

/-- The effect of an event on the configuration. -/
def Event.apply (config : ConfigSet) : Event → ConfigSet
  | .positional _ => config
  | .given opt value _ => store opt value config

/-- The configuration after the events. -/
def storeEvents (es : List Event) (config : ConfigSet) : ConfigSet := es.foldl Event.apply config

/-- The positional words among the events. -/
def positionals (es : List Event) : List Str :=
  es.filterMap fun e => match e with
    | .positional word => some word
    | .given _ _ _ => none

/-- `Reads names ws es rest`: the words `ws` are read as the events `es`, up to `rest`. -/
inductive Reads (names : Str → CmdlineOption → Prop) : List Str → List Event → List Str → Prop where
  | stop (ws : List Str) : Reads names ws [] ws
  | positional {w : Str} {ws rest : List Str} {es : List Event} (hw : startsDash w = false)
      (h : Reads names ws es rest) : Reads names (w :: ws) (.positional w :: es) rest
  | given {w v : Str} {o : CmdlineOption} {ws words next rest : List Str} {es : List Event}
      (hw : startsDash w) (ho : names w o) (hws : w :: ws = words ++ next)
      (ht : o.Takes words next v) (h : Reads names next es rest) :
      Reads names (w :: ws) (.given o v words :: es) rest

/-- The first of the words is in error. -/
inductive Malformed (names : Str → CmdlineOption → Prop) : List Str → Prop where
  | unknown {w : Str} {ws : List Str} (hw : startsDash w) (h : ∀ o, ¬ names w o) :
      Malformed names (w :: ws)
  | refused {w : Str} {ws : List Str} {o : CmdlineOption} (hw : startsDash w) (ho : names w o)
      (h : o.Refuses (w :: ws)) : Malformed names (w :: ws)

/-- The option that `parse` takes a word for. -/
def FirstSpelled (opts : List CmdlineOption) (w : Str) (o : CmdlineOption) : Prop :=
  opts.find? (·.spells w) = some o

/-- A reading consumes every word before `rest` exactly once. -/
lemma Reads.words_eq {names : Str → CmdlineOption → Prop} {ws rest : List Str} {es : List Event}
    (h : Reads names ws es rest) : ws = es.flatMap Event.words ++ rest := by
  induction h with
  | stop ws => rfl
  | positional _ _ ih => simp [Event.words, ih]
  | given _ _ hws _ _ ih => simp [Event.words, hws, ih]

/-- A reading can go on where another one stopped. -/
lemma Reads.append {names : Str → CmdlineOption → Prop} {ws mid rest : List Str}
    {es es' : List Event} (h : Reads names ws es mid) (h' : Reads names mid es' rest) :
    Reads names ws (es ++ es') rest := by
  induction h with
  | stop ws => exact h'
  | positional hw _ ih => exact .positional hw (ih h')
  | given hw ho hws ht _ ih => exact .given hw ho hws ht (ih h')

/-- A reading does not depend on the words behind it, but for the look-ahead. -/
lemma Reads.replace_rest {names : Str → CmdlineOption → Prop} {ws rest rest' : List Str}
    {es : List Event} (h : Reads names ws es rest) (hnext : valueNext rest = valueNext rest') :
    Reads names (es.flatMap Event.words ++ rest') es rest' := by
  induction h with
  | stop ws => exact .stop rest'
  | positional hw _ ih => exact .positional hw (ih hnext)
  | @given w v o ws words next rest es hw ho hws ht h ih =>
    have hrest : es.flatMap Event.words ++ rest = next := h.words_eq.symm
    obtain ⟨words', rfl⟩ : ∃ words', words = w :: words' := by
      cases words with
      | nil => cases ht
      | cons _ words => exact ⟨words, by rw [(List.cons_eq_cons.mp hws).1]⟩
    have hnext' : valueNext next = valueNext (es.flatMap Event.words ++ rest') := by
      rw [← hrest]
      cases es.flatMap Event.words with
      | nil => exact hnext
      | cons _ _ => rfl
    have hwords : (Event.given o v (w :: words') :: es).flatMap Event.words ++ rest'
        = w :: (words' ++ (es.flatMap Event.words ++ rest')) := by simp [Event.words]
    rw [hwords]
    exact .given hw ho rfl (ht.congr hnext') (ih hnext)

/-- Two ways of naming that agree on the words give the same readings. -/
lemma Reads.congr {names names' : Str → CmdlineOption → Prop} {ws rest : List Str}
    {es : List Event} (h : Reads names ws es rest)
    (hn : ∀ w ∈ ws, ∀ o, names w o ↔ names' w o) : Reads names' ws es rest := by
  induction h with
  | stop ws => exact .stop ws
  | positional hw _ ih => exact .positional hw (ih fun w h => hn w (List.mem_cons_of_mem _ h))
  | given hw ho hws ht _ ih =>
    refine .given hw ((hn _ List.mem_cons_self _).mp ho) hws ht (ih fun w h => hn w ?_)
    exact hws ▸ List.mem_append_right _ h

lemma Malformed.congr {names names' : Str → CmdlineOption → Prop} {ws : List Str}
    (h : Malformed names ws) (hn : ∀ w ∈ ws, ∀ o, names w o ↔ names' w o) :
    Malformed names' ws := by
  cases h with
  | unknown hw h => exact .unknown hw fun o ho => h o ((hn _ List.mem_cons_self o).mpr ho)
  | refused hw ho h => exact .refused hw ((hn _ List.mem_cons_self _).mp ho) h

/-- Every command line can be read to its end or to an error. -/
lemma exists_reads (opts : List CmdlineOption) (ws : List Str) :
    ∃ es rest, Reads (FirstSpelled opts) ws es rest
      ∧ (rest = [] ∨ Malformed (FirstSpelled opts) rest) := by
  induction hn : ws.length using Nat.strong_induction_on generalizing ws with
  | _ n ih =>
    cases ws with
    | nil => exact ⟨[], [], .stop [], Or.inl rfl⟩
    | cons w ws =>
      simp only [List.length_cons] at hn
      cases hw : startsDash w with
      | false =>
        obtain ⟨es, rest, h, hrest⟩ := ih ws.length (by omega) ws rfl
        exact ⟨_, rest, .positional hw h, hrest⟩
      | true =>
        cases ho : opts.find? (·.spells w) with
        | none =>
          refine ⟨[], w :: ws, .stop _, Or.inr (.unknown hw fun o h => ?_)⟩
          rw [FirstSpelled, ho] at h
          cases h
        | some o =>
          have hspells : o.spells w := by simpa using List.find?_some ho
          rcases CmdlineOption.takes_or_refuses hspells ws with ⟨words, next, v, hws, ht⟩ | hr
          · have hlen : next.length < n := by
              have h₁ := congrArg List.length hws
              have h₂ : 1 ≤ words.length := by cases ht <;> simp
              simp only [List.length_cons, List.length_append] at h₁
              omega
            obtain ⟨es, rest, h, hrest⟩ := ih next.length hlen next rfl
            exact ⟨_, rest, .given hw ho hws ht h, hrest⟩
          · exact ⟨[], w :: ws, .stop _, Or.inr (.refused hw ho hr)⟩

end CommandLine

end Utilmm
