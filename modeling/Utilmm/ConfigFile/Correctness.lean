import Utilmm.ConfigFile.Store
import Utilmm.ConfigFile.Stream

/-!
# What `read` accepts and what it builds

The reader follows the machine of the grammar line by line: its objects are the sections that the
machine has on its stack, and it throws where the machine gives up. So it accepts the texts of the
grammar, builds the tree of the derivation, and reports the first line that nothing can follow.
-/

namespace Utilmm

namespace ConfigFile

open ConfigFile.Parser (IsDone)

/-- The reader is where the machine is. -/
structure Follows (r : Reader) (p : Parser) : Prop where
  spine : Spine r.sets r.curSet [] p.top p.stack (List.range r.sets.length)
  mode : r.mode = if p.findBracket then .findBracket else .normal

lemma follows_start : Follows .start .start where
  spine := .file rfl (.empty 0)
  mode := rfl

/-! ### One line -/

/-- The outcome of a step of the reader, given that of the machine. -/
def Agrees (n : Nat) (outcome : Except ReadError Reader) : Option Parser → Prop
  | some p => ∃ r, outcome = .ok r ∧ Follows r p
  | none => ∃ message, outcome = .error (.parseError n message)

lemma Follows.insert {r : Reader} {p : Parser} (h : Follows r p) (key value : Str) :
    Follows (r.insert key value) { p with top := p.top.append (.attr key value .empty) } where
  spine := by
    rw [Reader.insert, List.length_modify]
    exact h.spine.insert List.nodup_range key value
  mode := h.mode

lemma Follows.enter {r : Reader} {p : Parser} (h : Follows r p) (key : Str) (findBracket : Bool) :
    Follows (r.enter key (if findBracket then .findBracket else .normal))
      ⟨(key, p.top) :: p.stack, .empty, findBracket⟩ where
  spine := by
    have hspine := h.spine.enter List.nodup_range (fun i hi => List.mem_range.mp hi) key
    rw [← List.range_succ] at hspine
    have hlen : (r.enter key (if findBracket then .findBracket else .normal)).sets.length
        = r.sets.length + 1 := by
      rw [Reader.enter, List.length_append, List.length_modify]
      rfl
    rw [hlen]
    exact hspine
  mode := rfl

/-- A closing bracket. -/
lemma Follows.close {r : Reader} {p : Parser} (h : Follows r p) (hfind : p.findBracket = false) :
    (∃ outer p', r.parent = some outer ∧ p.close = some p' ∧
        Follows { r with curSet := outer } p') ∨
    r.parent = none ∧ p.close = none := by
  obtain ⟨stack, top, find⟩ := p
  cases stack with
  | nil => exact Or.inr ⟨h.spine.parent_file, rfl⟩
  | cons frame stack =>
    obtain ⟨outer, hparent, hspine⟩ := h.spine.close
    have hmode : r.mode = .normal := by rw [h.mode, hfind]; rfl
    exact Or.inl ⟨outer, _, hparent, rfl, hspine, hmode⟩

/-- A line where an opening bracket is due. -/
lemma Follows.readLine_findBracket {r : Reader} {p : Parser} (h : Follows r p)
    (hfind : p.findBracket = true) (n : Nat) {line : Str} (hempty : ¬ rxEmpty.isMatch line) :
    Agrees n (readLine n r line) (p.step (classify line)) := by
  have hmode : r.mode = .findBracket := by rw [h.mode, if_pos hfind]
  have hblank : classify line ≠ .blank := by
    rw [Ne, classify_eq_blank_iff, ← rxEmpty_iff]
    exact hempty
  rw [readLine, if_neg hempty, hmode]
  by_cases hopen : rxOpenBracket.isMatch line
  · rw [classify_eq_openBracket_iff.mpr hopen, Parser.step, if_pos hfind]
    exact ⟨{ r with mode := .normal }, by simp [hopen], h.spine, rfl⟩
  · have hkind : classify line ≠ .openBracket := by
      rw [Ne, classify_eq_openBracket_iff]
      exact hopen
    have hnone : p.step (classify line) = none := by
      cases hline : classify line with
      | blank => exact absurd hline hblank
      | openBracket => exact absurd hline hkind
      | attr key value => rw [Parser.step, if_pos hfind]
      | opening key => rw [Parser.step, if_pos hfind]
      | name key => rw [Parser.step, if_pos hfind]
      | closeBracket => rw [Parser.step, if_pos hfind]
      | other => rfl
    rw [hnone]
    simp only [hopen, Bool.not_false, if_true]
    exact ⟨_, rfl⟩

/-- A line that starts with a name, where no opening bracket is due. -/
lemma Follows.readNamed {r : Reader} {p : Parser} (h : Follows r p)
    (hfind : p.findBracket = false) (n : Nat) (key value message : Str) :
    Agrees n
      (if value.isEmpty || rxOpenBracket.isMatch value then
        .ok (r.enter key (if value.isEmpty then .findBracket else .normal))
      else match Regexp.fullMatch rxAttribute value with
        | some c => .ok (r.insert key (Regexp.capture c 1))
        | none => .error (.parseError n message))
      (p.step (classifyNamed key value)) := by
  by_cases hvalue : value.isEmpty
  · have hkind : classifyNamed key value = .name key := by rw [classifyNamed, if_pos hvalue]
    have hstep : p.step (.name key) = some ⟨(key, p.top) :: p.stack, .empty, true⟩ := by
      rw [Parser.step, if_neg (by simp [hfind])]
    have henter := h.enter key true
    simp only [hkind, hstep, hvalue, Bool.true_or, if_true] at henter ⊢
    exact ⟨_, rfl, henter⟩
  · rw [Bool.not_eq_true] at hvalue
    by_cases hopen : rxOpenBracket.isMatch value
    · have hkind : classifyNamed key value = .opening key := by
        rw [classifyNamed, if_neg (by simp [hvalue]), if_pos hopen]
      have hstep : p.step (.opening key) = some ⟨(key, p.top) :: p.stack, .empty, false⟩ := by
        rw [Parser.step, if_neg (by simp [hfind])]
      have henter := h.enter key false
      simp only [hkind, hstep, hvalue, hopen, Bool.false_or, Bool.false_eq_true, if_true,
        if_false] at henter ⊢
      exact ⟨_, rfl, henter⟩
    · rw [Bool.not_eq_true] at hopen
      simp only [classifyNamed, hvalue, hopen, Bool.or_self, Bool.false_eq_true, if_false]
      cases Regexp.fullMatch rxAttribute value with
      | some c =>
        have hstep : p.step (.attr key (Regexp.capture c 1))
            = some { p with top := p.top.append (.attr key (Regexp.capture c 1) .empty) } := by
          rw [Parser.step, if_neg (by simp [hfind])]
        have hinsert := h.insert key (Regexp.capture c 1)
        simp only [hstep]
        exact ⟨_, rfl, hinsert⟩
      | none => exact ⟨message, rfl⟩

/-- A line where no opening bracket is due. -/
lemma Follows.readLine_normal {r : Reader} {p : Parser} (h : Follows r p)
    (hfind : p.findBracket = false) (n : Nat) {line : Str} (hempty : ¬ rxEmpty.isMatch line) :
    Agrees n (readLine n r line) (p.step (classify line)) := by
  have hmode : r.mode = .normal := by rw [h.mode, if_neg (by simp [hfind])]
  rw [readLine, if_neg hempty, classify, if_neg hempty, hmode]
  cases hname : Regexp.fullMatch rxName line with
  | some c => exact h.readNamed hfind n (Regexp.capture c 1) (Regexp.capture c 2) _
  | none =>
    by_cases hclose : rxCloseBracket.isMatch line
    · simp only [hclose, if_true]
      have hstep : p.step .closeBracket = p.close := by
        rw [Parser.step, if_neg (by simp [hfind])]
      rw [hstep]
      rcases h.close hfind with ⟨outer, p', hparent, hp', hfollows⟩ | ⟨hparent, hp'⟩
      · rw [hparent, hp']
        exact ⟨_, rfl, hmode ▸ hfollows⟩
      · rw [hparent, hp']
        exact ⟨_, rfl⟩
    · simp only [hclose, Bool.false_eq_true, if_false]
      have hnone : p.step (if rxOpenBracket.isMatch line then .openBracket else .other) = none := by
        split_ifs
        · rw [Parser.step, if_neg (by simp [hfind])]
        · rfl
      rw [hnone]
      exact ⟨_, rfl⟩

/-- The reader does with a line what the machine does with its kind. -/
theorem Follows.readLine {r : Reader} {p : Parser} (h : Follows r p) (n : Nat) (line : Str) :
    Agrees n (readLine n r line) (p.step (classify line)) := by
  by_cases hempty : rxEmpty.isMatch line
  · rw [ConfigFile.readLine, classify, if_pos hempty, if_pos hempty]
    exact ⟨r, rfl, h⟩
  · cases hfind : p.findBracket with
    | true => exact h.readLine_findBracket hfind n hempty
    | false => exact h.readLine_normal hfind n hempty

/-! ### All lines -/

/-- The machine on the lines of a text. -/
def runLines (p : Parser) (ls : List Str) : Option Parser := p.run (ls.map classify)

lemma runLines_cons (p : Parser) (line : Str) (ls : List Str) :
    runLines p (line :: ls) = (p.step (classify line)).bind fun p => runLines p ls := rfl

/-- As long as the machine goes on, so does the reader. -/
lemma Follows.readLines {r : Reader} {p p' : Parser} (h : Follows r p) (n : Nat) {ls : List Str}
    (hrun : runLines p ls = some p') : ∃ r', readLines n r ls = .ok r' ∧ Follows r' p' := by
  induction ls generalizing n r p with
  | nil =>
    cases hrun
    exact ⟨r, rfl, h⟩
  | cons line ls ih =>
    obtain ⟨q, hstep, hrun⟩ := Option.bind_eq_some_iff.mp hrun
    have hline := h.readLine n line
    rw [hstep] at hline
    obtain ⟨r₁, hread, h₁⟩ := hline
    obtain ⟨r', hreads, h'⟩ := ih h₁ (n + 1) hrun
    refine ⟨r', ?_, h'⟩
    rw [ConfigFile.readLines, hread]
    exact hreads

/-- The reader throws at the line at which the machine gives up. -/
lemma Follows.readLines_error {r : Reader} {p : Parser} (h : Follows r p) (n : Nat)
    {ls : List Str} (hrun : runLines p ls = none) :
    ∃ pre line post message, ls = pre ++ line :: post ∧ (runLines p pre).isSome ∧
      runLines p (pre ++ [line]) = none ∧
      ConfigFile.readLines n r ls = .error (.parseError (n + pre.length) message) := by
  induction ls generalizing n r p with
  | nil => cases hrun
  | cons line ls ih =>
    have hline := h.readLine n line
    cases hstep : p.step (classify line) with
    | none =>
      rw [hstep] at hline
      obtain ⟨message, hread⟩ := hline
      refine ⟨[], line, ls, message, rfl, rfl, ?_, ?_⟩
      · rw [List.nil_append, runLines_cons, hstep]
        rfl
      · rw [ConfigFile.readLines, hread]
        rfl
    | some q =>
      rw [hstep] at hline
      obtain ⟨r₁, hread, h₁⟩ := hline
      rw [runLines_cons, hstep] at hrun
      obtain ⟨pre, l, post, message, rfl, hpre, hfail, herror⟩ := ih h₁ (n + 1) hrun
      refine ⟨line :: pre, l, post, message, rfl, ?_, ?_, ?_⟩
      · rw [runLines_cons, hstep]
        exact hpre
      · rw [List.cons_append, runLines_cons, hstep]
        exact hfail
      · rw [ConfigFile.readLines, hread, List.length_cons, ← Nat.add_assoc, Nat.add_right_comm]
        exact herror

/-- The checks at the end of the file. -/
lemma Follows.finish {r : Reader} {p : Parser} (h : Follows r p) (n : Nat) :
    p.IsDone ∧ ConfigFile.finish n r = .ok r.sets ∨
    ¬ p.IsDone ∧ ∃ message, ConfigFile.finish n r = .error (.parseError n message) := by
  obtain ⟨stack, top, find⟩ := p
  cases find with
  | true =>
    have hmode : r.mode = .findBracket := h.mode
    refine Or.inr ⟨fun hdone => Bool.noConfusion hdone.2,
      "expected '\x7b', got end of file".toList, ?_⟩
    rw [ConfigFile.finish, if_pos hmode]
  | false =>
    have hmode : r.mode ≠ .findBracket := by
      rw [h.mode]
      simp
    cases stack with
    | nil =>
      have hparent : r.parent = none := h.spine.parent_file
      refine Or.inl ⟨⟨rfl, rfl⟩, ?_⟩
      rw [ConfigFile.finish, if_neg hmode, hparent]
      rfl
    | cons frame stack =>
      obtain ⟨outer, hparent, -⟩ := h.spine.close
      have hparent' : r.parent = some outer := hparent
      refine Or.inr ⟨fun hdone => List.cons_ne_nil _ _ hdone.1,
        "expected '\x7d' before end of file".toList, ?_⟩
      rw [ConfigFile.finish, if_neg hmode, hparent', Option.isSome_some, if_pos rfl]

/-! ### The grammar and the reader -/

/-- The kinds of the lines that are not blank. -/
def significant (ls : List Str) : List Line := (ls.map classify).filter (· ≠ .blank)

lemma derives_iff_runLines {ls : List Str} {t : Tree} :
    Derives (significant ls) t ↔ runLines .start ls = some ⟨[], t, false⟩ :=
  Parser.derives_iff_run

lemma viable_iff_runLines {ls : List Str} :
    Viable (significant ls) ↔ (runLines .start ls).isSome := Parser.viable_iff_run

/-- A text that the grammar derives is accepted, and the objects store its tree. -/
lemma readText_of_derives {text : Str} {t : Tree} (h : Derives (significant (lines text)) t) :
    ∃ sets, readText text = .ok sets ∧ IsTree sets 0 none t (List.range sets.length) := by
  obtain ⟨r, hread, hfollows⟩ := follows_start.readLines 1 (derives_iff_runLines.mp h)
  refine ⟨r.sets, ?_, hfollows.spine.isTree⟩
  rw [readText_eq, hread]
  rcases hfollows.finish (1 + text.count '\n') with ⟨-, hfinish⟩ | ⟨hdone, -⟩
  · exact hfinish
  · exact absurd ⟨rfl, rfl⟩ hdone

/-- Any other text is rejected, with the number of the line that nothing can follow, or with that
of the last line. -/
lemma readText_of_not_derives {text : Str}
    (h : ¬ ∃ t, Derives (significant (lines text)) t) :
    ∃ n message, readText text = .error (.parseError n message) ∧
      ((∃ pre line post, lines text = pre ++ line :: post ∧ Viable (significant pre) ∧
          ¬ Viable (significant (pre ++ [line])) ∧ n = 1 + pre.length) ∨
        Viable (significant (lines text)) ∧ n = 1 + text.count '\n') := by
  cases hrun : runLines .start (lines text) with
  | none =>
    obtain ⟨pre, line, post, message, hsplit, hpre, hfail, herror⟩ :=
      follows_start.readLines_error 1 hrun
    refine ⟨1 + pre.length, message, ?_, Or.inl ⟨pre, line, post, hsplit, ?_, ?_, rfl⟩⟩
    · rw [readText_eq, herror]
      rfl
    · exact viable_iff_runLines.mpr hpre
    · rw [viable_iff_runLines, hfail]
      simp
  | some p =>
    obtain ⟨r, hread, hfollows⟩ := follows_start.readLines 1 hrun
    rcases hfollows.finish (1 + text.count '\n') with ⟨hdone, -⟩ | ⟨-, message, hfinish⟩
    · obtain ⟨stack, top, find⟩ := p
      obtain ⟨rfl, rfl⟩ : stack = [] ∧ find = false := hdone
      exact absurd ⟨top, derives_iff_runLines.mpr hrun⟩ h
    · refine ⟨1 + text.count '\n', message, ?_, Or.inr ⟨?_, rfl⟩⟩
      · rw [readText_eq, hread]
        exact hfinish
      · rw [viable_iff_runLines, hrun]
        rfl

/-- `read` accepts the texts of the grammar and builds their trees. From any other text it throws
`parse_error` with the number of the first line that leaves no continuation, or, if every line
does, with the number of the last line. -/
theorem readText_eq_grammar (text : Str) :
    ((∃ sets, readText text = .ok sets) ↔ ∃ t, Derives (significant (lines text)) t) ∧
    (∀ t, Derives (significant (lines text)) t →
      ∃ sets, readText text = .ok sets ∧ IsTree sets 0 none t (List.range sets.length)) ∧
    ((¬ ∃ t, Derives (significant (lines text)) t) →
      ∃ n message, readText text = .error (.parseError n message) ∧
        ((∃ pre line post, lines text = pre ++ line :: post ∧ Viable (significant pre) ∧
            ¬ Viable (significant (pre ++ [line])) ∧ n = 1 + pre.length) ∨
          Viable (significant (lines text)) ∧ n = 1 + text.count '\n')) := by
  refine ⟨⟨?_, ?_⟩, fun t h => readText_of_derives h, readText_of_not_derives⟩
  · rintro ⟨sets, hread⟩
    by_contra h
    obtain ⟨n, message, herror, -⟩ := readText_of_not_derives h
    rw [herror] at hread
    cases hread
  · rintro ⟨t, h⟩
    obtain ⟨sets, hread, -⟩ := readText_of_derives h
    exact ⟨sets, hread⟩

end ConfigFile

end Utilmm
