import Utilmm.ConfigFile.Lines

/-!
# The grammar of configuration files

The lines of a file that are not blank are generated by

    S → (attribute | opening S '}' | name '{' S '}')*

A `Tree` is what such a sequence of lines says. The grammar is recognised by a machine that keeps
the sections it is in on a stack: it accepts exactly the sequences of the grammar, and it gives up
exactly when no continuation is left.
-/

namespace Utilmm

namespace ConfigFile

/-! ### Trees -/

/-- The items of a section, in order. -/
inductive Tree where
  | empty
  | attr (key value : Str) (rest : Tree)
  | child (key : Str) (body rest : Tree)
deriving DecidableEq

namespace Tree

/-- Add items behind those of a section. -/
def append : Tree → Tree → Tree
  | empty, t' => t'
  | attr key value rest, t' => attr key value (rest.append t')
  | child key body rest, t' => child key body (rest.append t')

@[simp] lemma empty_append (t : Tree) : empty.append t = t := rfl

@[simp] lemma append_empty (t : Tree) : t.append empty = t := by
  induction t with
  | empty => rfl
  | attr key value rest ih => rw [append, ih]
  | child key body rest _ ih => rw [append, ih]

lemma append_assoc (t₁ t₂ t₃ : Tree) :
    (t₁.append t₂).append t₃ = t₁.append (t₂.append t₃) := by
  induction t₁ with
  | empty => rfl
  | attr key value rest ih => simp only [append, ih]
  | child key body rest _ ih => simp only [append, ih]

/-- The attributes of a section, without those of its children. -/
def attributes : Tree → List (Str × Str)
  | empty => []
  | attr key value rest => (key, value) :: rest.attributes
  | child _ _ rest => rest.attributes

@[simp] lemma attributes_append (t t' : Tree) :
    (t.append t').attributes = t.attributes ++ t'.attributes := by
  induction t with
  | empty => rfl
  | attr key value rest ih => simp [append, attributes, ih]
  | child key body rest _ ih => simp [append, attributes, ih]

/-- The attributes of a section and of all sections in it, in the order of the file. -/
def allAttributes : Tree → List (Str × Str)
  | empty => []
  | attr key value rest => (key, value) :: rest.allAttributes
  | child _ body rest => body.allAttributes ++ rest.allAttributes

/-- The number of sections in a section. -/
def size : Tree → Nat
  | empty => 0
  | attr _ _ rest => rest.size
  | child _ body rest => body.size + 1 + rest.size

end Tree

/-! ### Derivations -/

/-- The lines that open a section. -/
inductive Opening : Str → List Line → Prop where
  | oneLine (key : Str) : Opening key [.opening key]
  | twoLines (key : Str) : Opening key [.name key, .openBracket]

/-- `Derives ls t`: the grammar generates the lines `ls`, and they say `t`. -/
inductive Derives : List Line → Tree → Prop where
  | empty : Derives [] .empty
  | attr {ls : List Line} {t : Tree} (key value : Str) (h : Derives ls t) :
      Derives (.attr key value :: ls) (.attr key value t)
  | child {key : Str} {os ls ls' : List Line} {body t : Tree} (ho : Opening key os)
      (hbody : Derives ls body) (h : Derives ls' t) :
      Derives (os ++ ls ++ .closeBracket :: ls') (.child key body t)

/-- Some continuation of the lines is generated. -/
def Viable (ls : List Line) : Prop := ∃ more t, Derives (ls ++ more) t

lemma Derives.append {ls ls' : List Line} {t t' : Tree} (h : Derives ls t) (h' : Derives ls' t') :
    Derives (ls ++ ls') (t.append t') := by
  induction h with
  | empty => exact h'
  | attr key value _ ih => exact .attr key value ih
  | child ho hbody _ _ ih =>
    have hchild := Derives.child ho hbody ih
    simpa [Tree.append] using hchild

lemma Derives.attr_singleton (key value : Str) :
    Derives [.attr key value] (.attr key value .empty) := .attr key value .empty

lemma Derives.child_singleton {key : Str} {os ls : List Line} {body : Tree} (ho : Opening key os)
    (h : Derives ls body) : Derives (os ++ ls ++ [.closeBracket]) (.child key body .empty) :=
  .child ho h .empty

/-- The attribute on a line. -/
def Line.attribute? : Line → Option (Str × Str)
  | .attr key value => some (key, value)
  | _ => none

/-- The attributes of a derivation are those on its lines. -/
lemma Derives.allAttributes {ls : List Line} {t : Tree} (h : Derives ls t) :
    t.allAttributes = ls.filterMap Line.attribute? := by
  induction h with
  | empty => rfl
  | attr key value _ ih => simp [Tree.allAttributes, Line.attribute?, ih]
  | @child key os ls ls' body t ho _ _ ihbody ih =>
    have hos : os.filterMap Line.attribute? = [] := by cases ho <;> rfl
    have hclose : (.closeBracket :: ls').filterMap Line.attribute?
        = ls'.filterMap Line.attribute? := rfl
    rw [List.filterMap_append, List.filterMap_append, hos, hclose, Tree.allAttributes, ihbody, ih,
      List.nil_append]

lemma Derives.other_not_mem {ls : List Line} {t : Tree} (h : Derives ls t) : .other ∉ ls := by
  induction h with
  | empty => simp
  | attr key value _ ih => simpa using ih
  | child ho _ _ ihbody ih =>
    cases ho with
    | oneLine => simp [ihbody, ih]
    | twoLines => simp [ihbody, ih]

/-! ### The machine -/

/-- Where the machine is: the sections around the current one, innermost first, each with the key
of the section that is open in it, then the current section, and whether a bracket is due. -/
structure Parser where
  stack : List (Str × Tree)
  top : Tree
  findBracket : Bool

namespace Parser

def start : Parser := ⟨[], .empty, false⟩

/-- Close the current section. -/
def close : Parser → Option Parser
  | ⟨[], _, _⟩ => none
  | ⟨(key, outer) :: stack, top, _⟩ => some ⟨stack, outer.append (.child key top .empty), false⟩

/-- Read a line. -/
def step (p : Parser) : Line → Option Parser
  | .blank => some p
  | .attr key value =>
    if p.findBracket then none
    else some { p with top := p.top.append (.attr key value .empty) }
  | .opening key => if p.findBracket then none else some ⟨(key, p.top) :: p.stack, .empty, false⟩
  | .name key => if p.findBracket then none else some ⟨(key, p.top) :: p.stack, .empty, true⟩
  | .openBracket => if p.findBracket then some { p with findBracket := false } else none
  | .closeBracket => if p.findBracket then none else p.close
  | .other => none

/-- Read lines. -/
def run : Parser → List Line → Option Parser
  | p, [] => some p
  | p, l :: ls => (p.step l).bind fun p => p.run ls

/-- No section is open and no bracket is due. -/
def IsDone (p : Parser) : Prop := p.stack = [] ∧ p.findBracket = false

lemma run_append (p : Parser) (ls ls' : List Line) :
    p.run (ls ++ ls') = (p.run ls).bind fun p => p.run ls' := by
  induction ls generalizing p with
  | nil => rfl
  | cons l ls ih =>
    simp only [List.cons_append, run, Option.bind_assoc]
    congr 1
    funext p'
    exact ih p'

/-- Blank lines do not change anything. -/
lemma run_filter (p : Parser) (ls : List Line) : p.run (ls.filter (· ≠ .blank)) = p.run ls := by
  induction ls generalizing p with
  | nil => rfl
  | cons l ls ih =>
    by_cases hl : l = .blank
    · subst hl
      simpa [run, step] using ih p
    · rw [List.filter_cons_of_pos (by simpa using hl), run, run]
      congr 1
      funext p'
      exact ih p'

/-! ### Completeness -/

/-- The machine reads what the grammar generates, in any surroundings. -/
lemma run_of_derives {ls : List Line} {t : Tree} (h : Derives ls t) (stack : List (Str × Tree))
    (top : Tree) : run ⟨stack, top, false⟩ ls = some ⟨stack, top.append t, false⟩ := by
  induction h generalizing stack top with
  | empty => rw [run, Tree.append_empty]
  | attr key value _ ih =>
    have hrec := ih stack (top.append (.attr key value .empty))
    rw [Tree.append_assoc] at hrec
    exact hrec
  | @child key os ls ls' body t ho _ _ ihbody ih =>
    have hopen : run ⟨stack, top, false⟩ os = some ⟨(key, top) :: stack, .empty, false⟩ := by
      cases ho with
      | oneLine => rfl
      | twoLines => rfl
    have hbody := ihbody ((key, top) :: stack) .empty
    have hrest := ih stack (top.append (.child key body .empty))
    rw [Tree.append_assoc] at hrest
    rw [run_append, run_append, hopen, Option.bind_some, hbody]
    exact hrest

/-! ### Soundness -/

/-- What the machine has read to get somewhere. -/
inductive Partial : List Line → Parser → Prop where
  | outside {ls : List Line} {t : Tree} (h : Derives ls t) : Partial ls ⟨[], t, false⟩
  | inside {key : Str} {os ls ls' : List Line} {stack : List (Str × Tree)} {t t' : Tree}
      (h : Partial ls ⟨stack, t, false⟩) (ho : Opening key os) (h' : Derives ls' t') :
      Partial (ls ++ os ++ ls') ⟨(key, t) :: stack, t', false⟩
  | between {key : Str} {ls : List Line} {stack : List (Str × Tree)} {t : Tree}
      (h : Partial ls ⟨stack, t, false⟩) :
      Partial (ls ++ [.name key]) ⟨(key, t) :: stack, .empty, true⟩

/-- More items in the current section. -/
lemma Partial.extend {ls ls' : List Line} {stack : List (Str × Tree)} {t t' : Tree}
    (h : Partial ls ⟨stack, t, false⟩) (h' : Derives ls' t') :
    Partial (ls ++ ls') ⟨stack, t.append t', false⟩ := by
  cases h with
  | outside h => exact .outside (h.append h')
  | inside h ho hin =>
    rw [List.append_assoc]
    exact .inside h ho (hin.append h')

lemma Partial.close {ls : List Line} {p p' : Parser} (h : Partial ls p)
    (hfind : p.findBracket = false) (hclose : p.close = some p') :
    Partial (ls ++ [.closeBracket]) p' := by
  cases h with
  | outside h => cases hclose
  | inside h ho hin =>
    cases hclose
    have hchild := h.extend (Derives.child_singleton ho hin)
    simpa using hchild
  | between h => cases hfind

/-- What one step preserves. -/
lemma Partial.step {ls : List Line} {p p' : Parser} {l : Line} (h : Partial ls p)
    (hl : l ≠ .blank) (hstep : p.step l = some p') : Partial (ls ++ [l]) p' := by
  obtain ⟨stack, top, find⟩ := p
  cases find with
  | false =>
    cases l with
    | blank => exact absurd rfl hl
    | attr key value =>
      cases hstep
      exact h.extend (Derives.attr_singleton key value)
    | opening key =>
      cases hstep
      have hin := Partial.inside h (.oneLine key) Derives.empty
      simpa using hin
    | name key =>
      cases hstep
      exact .between h
    | openBracket => cases hstep
    | closeBracket => exact h.close rfl hstep
    | other => cases hstep
  | true =>
    cases l with
    | blank => exact absurd rfl hl
    | openBracket =>
      cases hstep
      cases h with
      | @between key _ _ _ h =>
        have hin := Partial.inside h (.twoLines key) Derives.empty
        simpa using hin
    | attr key value => cases hstep
    | opening key => cases hstep
    | name key => cases hstep
    | closeBracket => cases hstep
    | other => cases hstep

/-- What a run preserves. -/
lemma Partial.run {ls ls' : List Line} {p p' : Parser} (h : Partial ls p)
    (hl : ∀ l ∈ ls', l ≠ .blank) (hrun : p.run ls' = some p') : Partial (ls ++ ls') p' := by
  induction ls' generalizing ls p with
  | nil =>
    cases hrun
    rwa [List.append_nil]
  | cons l ls' ih =>
    obtain ⟨q, hstep, hrun⟩ := Option.bind_eq_some_iff.mp hrun
    have hq := h.step (hl l List.mem_cons_self) hstep
    have hrec := ih hq (fun l' hl' => hl l' (List.mem_cons_of_mem _ hl')) hrun
    simpa using hrec

/-- From everywhere the machine can be, closing brackets lead to an end. -/
lemma Partial.viable {ls : List Line} {p : Parser} (h : Partial ls p) : Viable ls := by
  have hclosed : ∀ (n : Nat) {ls : List Line} {p : Parser}, Partial ls p →
      p.findBracket = false → p.stack.length = n → Viable ls := by
    intro n
    induction n with
    | zero =>
      intro ls p h hfind hlen
      cases h with
      | outside h => exact ⟨[], _, by rwa [List.append_nil]⟩
      | inside h ho h' => simp at hlen
      | between h => cases hfind
    | succ n ih =>
      intro ls p h hfind hlen
      obtain ⟨stack, top, find⟩ := p
      cases stack with
      | nil => simp at hlen
      | cons frame stack =>
        have hp := h.close hfind rfl
        obtain ⟨more, t, ht⟩ := ih hp rfl (by simpa using hlen)
        exact ⟨.closeBracket :: more, t, by simpa using ht⟩
  cases hfind : p.findBracket with
  | false => exact hclosed p.stack.length h hfind rfl
  | true =>
    have hp := h.step (l := .openBracket) (by simp) (by rw [Parser.step, if_pos hfind])
    obtain ⟨more, t, ht⟩ := hclosed p.stack.length hp rfl rfl
    exact ⟨.openBracket :: more, t, by simpa using ht⟩

/-! ### The language of the machine -/

lemma partial_of_run {ls : List Line} {p : Parser} (h : start.run ls = some p) :
    Partial (ls.filter (· ≠ .blank)) p := by
  rw [← run_filter] at h
  have hstart : Partial [] start := .outside .empty
  exact hstart.run (fun l hl => by simpa using (List.mem_filter.mp hl).2) h

/-- The machine ends with what the grammar derives. -/
theorem derives_iff_run {ls : List Line} {t : Tree} :
    Derives (ls.filter (· ≠ .blank)) t ↔ start.run ls = some ⟨[], t, false⟩ := by
  constructor
  · intro h
    have hrun := run_of_derives h [] .empty
    rw [← run_filter]
    exact hrun
  · intro h
    have hpartial := partial_of_run h
    generalize ls.filter (· ≠ .blank) = ls' at hpartial
    cases hpartial with
    | outside h => exact h

/-- The machine gets past the lines that have a continuation. -/
theorem viable_iff_run {ls : List Line} :
    Viable (ls.filter (· ≠ .blank)) ↔ (start.run ls).isSome := by
  constructor
  · rintro ⟨more, t, h⟩
    have hrun := run_of_derives h [] .empty
    rw [run_append, Option.bind_eq_some_iff] at hrun
    obtain ⟨p, hp, -⟩ := hrun
    rw [← run_filter]
    exact Option.isSome_iff_exists.mpr ⟨p, hp⟩
  · intro h
    obtain ⟨p, hp⟩ := Option.isSome_iff_exists.mp h
    exact (partial_of_run hp).viable

end Parser

end ConfigFile

end Utilmm
