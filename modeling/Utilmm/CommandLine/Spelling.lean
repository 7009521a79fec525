import Utilmm.CommandLine.Contract

/-!
# Short and long spellings

`-s v` and `--long=v` take different branches of `option_match`, which look ahead differently and
move the index by two words or by one. Both are one event of the reading, with the same effect, so
`parse` cannot tell them apart.
-/

namespace Utilmm

namespace CommandLine

open CmdlineOption (Takes Refuses valueNext spells_iff)

/-- `Respells opts ws ws'`: the words `ws` spell options of the list by their short names, and
`ws'` spell the same options with the same arguments by their long names. -/
inductive Respells (opts : List CmdlineOption) : List Str → List Str → Prop where
  | nil : Respells opts [] []
  | argument {o : CmdlineOption} {v : Str} {ws ws' : List Str} (ho : o ∈ opts)
      (hs : o.getShort ≠ []) (ha : o.hasArgument) (hv : startsDash v = false)
      (h : Respells opts ws ws') :
      Respells opts ((['-'] ++ o.getShort) :: v :: ws)
        ((['-', '-'] ++ o.getLong ++ ['='] ++ v) :: ws')
  | flag {o : CmdlineOption} {ws ws' : List Str} (ho : o ∈ opts) (hs : o.getShort ≠ [])
      (ha : o.hasArgument = false) (h : Respells opts ws ws') :
      Respells opts ((['-'] ++ o.getShort) :: ws) ((['-', '-'] ++ o.getLong) :: ws')

/-- The loop of `parse` comes to the word at index `i`. -/
def ComesTo (cl : CommandLine) (argv : List Str) (config : ConfigSet) (i : Nat) : Prop :=
  ∃ remains s, Reaches cl.options argv ⟨config, cl.remaining⟩ i remains s

/-! ### The words before -/

/-- The words before a word that the loop comes to have been read. -/
lemma ComesTo.reads {cl : CommandLine} {pre rest : List Str} {config : ConfigSet}
    (h : ComesTo cl (pre ++ rest) config pre.length) :
    ∃ es, Reads (FirstSpelled cl.options) (pre ++ rest) es rest ∧
      es.flatMap Event.words = pre := by
  obtain ⟨remains, s, h⟩ := h
  obtain ⟨es, hreads⟩ := h.reads cl.wellFormed
  rw [List.drop_left] at hreads
  exact ⟨es, hreads, (List.append_cancel_right hreads.words_eq).symm⟩

/-- Both spellings start with a dash, so a short option before them sees no argument. -/
lemma Respells.valueNext_eq {opts : List CmdlineOption} {ws ws' : List Str}
    (h : Respells opts ws ws') (post : List Str) :
    valueNext (ws ++ post) = valueNext (ws' ++ post) := by
  cases h <;> rfl

/-! ### The words themselves -/

section

variable {cl : CommandLine} (hd : DistinctNames cl.options) {o : CmdlineOption}
  (ho : o ∈ cl.options)

include hd ho

lemma firstSpelled_short (hs : o.getShort ≠ []) :
    FirstSpelled cl.options (['-'] ++ o.getShort) o :=
  (firstSpelled_iff hd (by simpa using hs) o).mpr ⟨ho, spells_iff.mpr (Or.inl rfl)⟩

lemma firstSpelled_long : FirstSpelled cl.options (['-', '-'] ++ o.getLong) o :=
  (firstSpelled_iff hd (by simp) o).mpr ⟨ho, spells_iff.mpr (Or.inr (Or.inl rfl))⟩

lemma firstSpelled_longValue (v : Str) :
    FirstSpelled cl.options (['-', '-'] ++ o.getLong ++ ['='] ++ v) o :=
  (firstSpelled_iff hd (by simp) o).mpr ⟨ho, spells_iff.mpr (Or.inr (Or.inr ⟨v, rfl⟩))⟩

end

/-- Both spellings are read with the same effect, as far as they can be read. -/
lemma Respells.reads {cl : CommandLine} (hd : DistinctNames cl.options) {ws ws' : List Str}
    (h : Respells cl.options ws ws') (post : List Str) :
    ∃ es es' rest rest', Reads (FirstSpelled cl.options) (ws ++ post) es rest ∧
      Reads (FirstSpelled cl.options) (ws' ++ post) es' rest' ∧
      (rest = [] ∧ rest' = [] ∨
        Malformed (FirstSpelled cl.options) rest ∧ Malformed (FirstSpelled cl.options) rest') ∧
      (∀ config, storeEvents es config = storeEvents es' config) ∧
      positionals es = positionals es' := by
  induction h with
  | nil =>
    obtain ⟨es, rest, hreads, hrest⟩ := exists_reads cl.options post
    exact ⟨es, es, rest, rest, hreads, hreads, hrest.imp (fun h => ⟨h, h⟩) fun h => ⟨h, h⟩,
      fun _ => rfl, rfl⟩
  | @argument o v ws ws' ho hs ha hv _ ih =>
    have hshort := firstSpelled_short hd ho hs
    have hlong := firstSpelled_longValue hd ho v
    cases hc : o.checkArgument v with
    | false =>
      -- an invalid value makes both words an error
      exact ⟨[], [], _, _, .stop _, .stop _, Or.inr ⟨.refused rfl hshort (.invalidShort ha hv hc),
        .refused rfl hlong (.invalidLong ha hc)⟩, fun _ => rfl, rfl⟩
    | true =>
      obtain ⟨es, es', rest, rest', hreads, hreads', hend, hstore, hpos⟩ := ih
      exact ⟨.given o v [['-'] ++ o.getShort, v] :: es,
        .given o v [['-', '-'] ++ o.getLong ++ ['='] ++ v] :: es', rest, rest',
        .given rfl hshort rfl (.shortValue ha hv hc) hreads,
        .given rfl hlong rfl (.longValue ha hc) hreads', hend,
        fun config => hstore (store o v config), hpos⟩
  | @flag o ws ws' ho hs ha _ ih =>
    obtain ⟨es, es', rest, rest', hreads, hreads', hend, hstore, hpos⟩ := ih
    exact ⟨.given o o.getDefaultValue [['-'] ++ o.getShort] :: es,
      .given o o.getDefaultValue [['-', '-'] ++ o.getLong] :: es', rest, rest',
      .given rfl (firstSpelled_short hd ho hs) rfl (.short (Or.inl ha)) hreads,
      .given rfl (firstSpelled_long hd ho) rfl (.long (Or.inl ha)) hreads', hend,
      fun config => hstore (store o o.getDefaultValue config), hpos⟩

/-! ### The whole command line -/

lemma storeEvents_append (es es' : List Event) (config : ConfigSet) :
    storeEvents (es ++ es') config = storeEvents es' (storeEvents es config) := by
  simp [storeEvents]

lemma positionals_append (es es' : List Event) :
    positionals (es ++ es') = positionals es ++ positionals es' := by
  simp [positionals]

/-- Short spellings can be replaced by long ones, and long ones by short ones, wherever `parse`
comes to them. -/
theorem agree_respelled (cl : CommandLine) (hd : DistinctNames cl.options) (config : ConfigSet)
    (pre ws ws' post : List Str) (h : Respells cl.options ws ws')
    (hat : ComesTo cl (pre ++ (ws ++ post)) config pre.length ∨
      ComesTo cl (pre ++ (ws' ++ post)) config pre.length) :
    Agree (parse cl (pre ++ (ws ++ post)) config) (parse cl (pre ++ (ws' ++ post)) config) := by
  have hnext := h.valueNext_eq post
  obtain ⟨before, hbefore, hbefore'⟩ : ∃ before,
      Reads (FirstSpelled cl.options) (pre ++ (ws ++ post)) before (ws ++ post) ∧
      Reads (FirstSpelled cl.options) (pre ++ (ws' ++ post)) before (ws' ++ post) := by
    rcases hat with hat | hat
    · obtain ⟨before, hreads, rfl⟩ := hat.reads
      exact ⟨before, hreads, hreads.replace_rest hnext⟩
    · obtain ⟨before, hreads, rfl⟩ := hat.reads
      exact ⟨before, hreads.replace_rest hnext.symm, hreads⟩
  obtain ⟨es, es', rest, rest', hreads, hreads', hend, hstore, hpos⟩ := h.reads hd post
  refine agree_of_reads (.refl _) (hbefore.append hreads) (hbefore'.append hreads') hend ?_ ?_
  · rw [storeEvents_append, storeEvents_append, hstore]
  · rw [positionals_append, positionals_append, hpos]

/-- `x.cpp -I bla -I blo --quiet` and `x.cpp --include=bla --include=blo --quiet`. -/
theorem agree_respelled_includeQuiet :
    Agree (parse includeQuiet (["x.cpp".toList] ++ (["-I".toList, "bla".toList, "-I".toList,
        "blo".toList] ++ ["--quiet".toList])) (ConfigSet.new none))
      (parse includeQuiet (["x.cpp".toList] ++ (["--include=bla".toList, "--include=blo".toList] ++
        ["--quiet".toList])) (ConfigSet.new none)) :=
  agree_respelled includeQuiet includeQuiet_distinct.names (ConfigSet.new none) _ _ _ _
    (.argument List.mem_cons_self (by decide) rfl rfl
      (.argument List.mem_cons_self (by decide) rfl rfl .nil))
    (Or.inl ⟨_, _, .round .start (by decide) rfl⟩)

end CommandLine

end Utilmm
