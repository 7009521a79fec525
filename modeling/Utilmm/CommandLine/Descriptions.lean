import Utilmm.CommandLine.CmdlineOption

/-!
# The grammar of option descriptions

A `Description` is one way to read an option description: its parts, with the conditions that the
documentation puts on them. The constructor of `cmdline_option` accepts the texts of descriptions
and no others, and the option it builds has the parts of the only description with that text.
-/

namespace Utilmm

/-! ### The parts of a description -/

/-- The words `int`, `string` and `bool`. -/
inductive ArgumentType where
  | int
  | string
  | bool
deriving DecidableEq

namespace ArgumentType

def text : ArgumentType → Str
  | int => "int".toList
  | string => "string".toList
  | bool => "bool".toList

def flags : ArgumentType → ArgumentFlags
  | int => { int := true }
  | string => { string := true }
  | bool => { bool := true }

/-- The texts that are values of the type. -/
def Accepts : ArgumentType → Str → Prop
  | int, v => v ≠ [] ∧ ∀ c ∈ v, c.isDigit
  | string, _ => True
  | bool, v => v = "1".toList ∨ v = "0".toList ∨ v = "false".toList ∨ v = "true".toList

/-- The text of a type ends at the first separator behind it. -/
lemma notMem_of_mem_text (t : ArgumentType) : ∀ c ∈ t.text, c ∉ ",:".toList := by
  have hfree : t.text.all fun c => !",:".toList.contains c := by cases t <;> rfl
  simpa using hfree

end ArgumentType

/-- `=type`, `=type,default` or `?type,default` -/
@[ext] structure ArgumentDescription where
  optional : Bool
  type : ArgumentType
  default : Option Str
  default_colon : ∀ v ∈ default, ':' ∉ v
  default_accepted : ∀ v ∈ default, type.Accepts v
  optional_default : optional → default ≠ none

/-- `[!][*]key:long[,short][argument][:help]`. The flags are taken off before the key is read. -/
@[ext] structure Description where
  required : Bool
  multiple : Bool
  key : Str
  long : Str
  short : Option Char
  argument : Option ArgumentDescription
  help : Option Str
  key_colon : ':' ∉ key
  key_star : multiple = false → key.head? ≠ some '*'
  key_bang : required = false → multiple = false → key.head? ≠ some '!'
  long_ne_nil : long ≠ []
  long_ident : ∀ c ∈ long, isIdent c
  short_ident : ∀ c ∈ short, isIdent c
  required_default : required → ∀ a ∈ argument, a.optional = false → a.default = none

/-! ### The text of a description -/

def flagText (required multiple : Bool) : Str :=
  (if required then ['!'] else []) ++ if multiple then ['*'] else []

def shortText : Option Char → Str
  | none => []
  | some c => [',', c]

def defaultText : Option Str → Str
  | none => []
  | some v => ',' :: v

def argumentText : Option ArgumentDescription → Str
  | none => []
  | some a => (if a.optional then '?' else '=') :: (a.type.text ++ defaultText a.default)

def helpText : Option Str → Str
  | none => []
  | some h => ':' :: h

/-- The bits of the argument. -/
def argumentFlags : Option ArgumentDescription → ArgumentFlags
  | none => {}
  | some a => { a.type.flags with optional := a.optional, default := a.default.isSome }

def argumentDefault : Option ArgumentDescription → Str
  | none => []
  | some a => a.default.getD []

namespace Description

/-- The text of the description. -/
def render (r : Description) : Str :=
  flagText r.required r.multiple ++ (r.key ++ ':' :: (r.long ++ (shortText r.short ++
    (argumentText r.argument ++ helpText r.help))))

/-- The key under which the values of the option are stored. -/
def configKey (r : Description) : Str := if r.key = [] then r.long else r.key

/-- The option that the description stands for. -/
def option (r : Description) : CmdlineOption where
  multiple := r.multiple
  required := r.required
  config := r.key
  long := r.long
  short := r.short.toList
  help := r.help.getD []
  flags := argumentFlags r.argument
  default := argumentDefault r.argument

end Description

namespace CmdlineOption

open Except (throwIf)

/-! ### One scan -/

/-- The text is empty or starts with one of the characters. -/
def StopsAt (allowed text : Str) : Prop := ∀ c ∈ text.head?, c ∈ allowed

/-- After a scan of `d` that found the delimiter `delim` at `current`, the text `tail` is left,
the delimiter included. -/
def Leaves (d : Str) (delim : Option Char) (current : Nat) (tail : Str) : Prop :=
  delim = tail.head? ∧ (tail ≠ [] → current < d.length ∧ d.drop current = tail)

/-- Every text can be cut at the first of the characters. -/
lemma exists_cut (allowed text : Str) :
    ∃ before tail, text = before ++ tail ∧ (∀ c ∈ before, c ∉ allowed) ∧ StopsAt allowed tail := by
  refine ⟨text.takeWhile (· ∉ allowed), text.dropWhile (· ∉ allowed),
    List.takeWhile_append_dropWhile.symm, fun c hc => by simpa using List.mem_takeWhile_imp hc, ?_⟩
  intro c hc
  obtain ⟨tail, htail⟩ : ∃ tail, text.dropWhile (· ∉ allowed) = c :: tail :=
    List.head?_eq_some_iff.mp hc
  simpa using not_of_dropWhile htail

/-- Behind a delimiter the source goes on. -/
lemma Leaves.next {d rest : Str} {delim : Option Char} {current : Nat} {c : Char}
    (h : Leaves d delim current (c :: rest)) :
    delim = some c ∧ current + 1 ≤ d.length ∧ d.drop (current + 1) = rest := by
  obtain ⟨hlt, hdrop⟩ := h.2 (List.cons_ne_nil c rest)
  refine ⟨h.1, hlt, ?_⟩
  rw [← List.drop_drop, hdrop]
  rfl

/-- `advance` reads the text up to the cut and leaves what is behind it. -/
lemma advance_eq {d text tail : Str} {current : Nat} (allowed : Str) (hle : current ≤ d.length)
    (hd : d.drop current = text ++ tail) (htext : ∀ c ∈ text, c ∉ allowed)
    (htail : StopsAt allowed tail) :
    ∃ delim next, advance d allowed current = .ok (delim, next, text) ∧
      Leaves d delim next tail := by
  have hnone : text.findIdx? (· ∈ allowed) = none := by
    rw [List.findIdx?_eq_none_iff]
    intro c hc
    simpa using htext c hc
  rw [advance, if_neg (by omega), findFirstOf, hd, List.findIdx?_append, hnone]
  cases tail with
  | nil =>
    exact ⟨none, npos, by simp, rfl, fun h => absurd rfl h⟩
  | cons c tail =>
    have hc : c ∈ allowed := htail c rfl
    have hnext : d.drop (current + text.length) = c :: tail := by
      rw [← List.drop_drop, hd, List.drop_left]
    have hlt : current + text.length < d.length := by
      have hlen := congrArg List.length hnext
      simp only [List.length_drop, List.length_cons] at hlen
      omega
    refine ⟨some c, current + text.length, ?_, rfl, fun _ => ⟨hlt, hnext⟩⟩
    have hget : d[current + text.length]? = some c := by
      rw [← List.head?_drop, hnext]
      rfl
    simp [List.findIdx?_cons, hc, hget]

/-! ### The flags -/

/-- The flags are read off the front of a description. -/
lemma exists_flags (d : Str) :
    ∃ required multiple rest, d = flagText required multiple ++ rest ∧
      (multiple = false → rest.head? ≠ some '*') ∧
      (required = false → multiple = false → rest.head? ≠ some '!') := by
  obtain ⟨required, w, rfl, hbang⟩ : ∃ (required : Bool) (w : Str),
      d = (if required then ['!'] else []) ++ w ∧ (required = false → w.head? ≠ some '!') := by
    by_cases h : d.head? = some '!'
    · obtain ⟨w, rfl⟩ := List.head?_eq_some_iff.mp h
      exact ⟨true, w, rfl, by simp⟩
    · exact ⟨false, d, rfl, fun _ => h⟩
  by_cases h : w.head? = some '*'
  · obtain ⟨rest, rfl⟩ := List.head?_eq_some_iff.mp h
    exact ⟨required, true, rest, by simp [flagText], by simp, by simp⟩
  · exact ⟨required, false, w, by simp [flagText], fun _ => h, fun hr _ => hbang hr⟩

lemma skipFlag_eq {d rest : Str} {c : Char} {current : Nat} (present : Bool)
    (hle : current ≤ d.length) (h : d.drop current = (if present then [c] else []) ++ rest)
    (habsent : present = false → rest.head? ≠ some c) :
    ∃ next, skipFlag d c current = (present, next) ∧ next ≤ d.length ∧ d.drop next = rest := by
  have hget : d[current]? = ((if present then [c] else []) ++ rest).head? := by
    rw [← List.head?_drop, h]
  cases present with
  | true =>
    have hlen := congrArg List.length h
    simp only [List.length_drop, if_true, List.length_append, List.length_singleton] at hlen
    refine ⟨current + 1, by simp [skipFlag, hget], by omega, ?_⟩
    rw [← List.drop_drop, h]
    rfl
  | false =>
    have hne : d[current]? ≠ some c := fun heq => habsent rfl (by rw [← heq, hget]; rfl)
    exact ⟨current, by simp [skipFlag, hne], hle, by simpa using h⟩

/-- Both flags are taken off before the key is read. -/
lemma skipFlags_eq {required multiple : Bool} {d rest : Str}
    (hd : d = flagText required multiple ++ rest)
    (hstar : multiple = false → rest.head? ≠ some '*')
    (hbang : required = false → multiple = false → rest.head? ≠ some '!') :
    ∃ next next', skipFlag d '!' 0 = (required, next) ∧
      skipFlag d '*' next = (multiple, next') ∧ next' ≤ d.length ∧ d.drop next' = rest := by
  have hd' : d.drop 0
      = (if required then ['!'] else []) ++ ((if multiple then ['*'] else []) ++ rest) := by
    simp [hd, flagText]
  obtain ⟨next, hskip, hle, hdrop⟩ := skipFlag_eq required (Nat.zero_le _) hd' (by
    intro hr
    cases multiple with
    | true => simp
    | false => exact hbang hr rfl)
  obtain ⟨next', hskip', hle', hdrop'⟩ := skipFlag_eq multiple hle hdrop hstar
  exact ⟨next, next', hskip, hskip', hle', hdrop'⟩

/-! ### The scans, one by one -/

/-- The scan throws `bad_syntax`. -/
def ThrowsBadSyntax {α : Type} (d : Str) (x : Except OptionError α) : Prop :=
  ∃ msg, x = .error (.badSyntax d msg)

/-- The characters at which the scan of a long name stops are not part of it. -/
lemma not_mem_of_isIdent {s allowed : Str} (h : ∀ c ∈ s, isIdent c)
    (hallowed : ∀ c ∈ allowed, c ∈ ",=?:".toList) : ∀ c ∈ s, c ∉ allowed := by
  intro c hc hmem
  have hdelim : isIdent c = false := by
    have hcases : c = ',' ∨ c = '=' ∨ c = '?' ∨ c = ':' := by simpa using hallowed c hmem
    rcases hcases with rfl | rfl | rfl | rfl <;> rfl
  rw [h c hc] at hdelim
  cases hdelim

lemma not_mem_singleton {s : Str} {c : Char} : (∀ a ∈ s, a ∉ [c]) ↔ c ∉ s := by
  simp only [List.mem_singleton]
  exact ⟨fun h hc => h c hc rfl, fun h a ha hac => h (hac ▸ ha)⟩

/-- The scan up to the long name, where there is a `:`. -/
lemma scanLong_eq {required multiple : Bool} {key long tail : Str}
    (hstar : multiple = false → (key ++ ':' :: (long ++ tail)).head? ≠ some '*')
    (hbang : required = false → multiple = false →
      (key ++ ':' :: (long ++ tail)).head? ≠ some '!')
    (hkey : ':' ∉ key) (hlong : ∀ c ∈ long, c ∉ ",=?:".toList)
    (htail : StopsAt ",=?:".toList tail) (d : Str)
    (hd : d = flagText required multiple ++ (key ++ ':' :: (long ++ tail))) :
    ∃ s : Scan, Leaves d s.delim s.current tail ∧
      s.opt = { multiple, required, config := key, long } ∧ scanLong d =
        if rxValidIdentifier.isMatch long then .ok s
        else .error (.badSyntax d "invalid identifier".toList) := by
  obtain ⟨i, j, hi, hj, hle, hdrop⟩ := skipFlags_eq hd hstar hbang
  obtain ⟨delim, k, hadvance, hleaves⟩ := advance_eq ":".toList hle hdrop
    (not_mem_singleton.mpr hkey) (by simp [StopsAt])
  obtain ⟨rfl, hle', hdrop'⟩ := hleaves.next
  obtain ⟨delim', l, hadvance', hleaves'⟩ := advance_eq _ hle' hdrop' hlong htail
  refine ⟨⟨_, delim', l⟩, hleaves', rfl, ?_⟩
  simp only [scanLong, hi, hj, hadvance, hadvance', Except.ok_bind, Option.isNone_some]
  cases rxValidIdentifier.isMatch long <;> rfl

/-- Without a `:` behind the flags the constructor throws. -/
lemma scanLong_of_not_mem {required multiple : Bool} {rest : Str}
    (hstar : multiple = false → rest.head? ≠ some '*')
    (hbang : required = false → multiple = false → rest.head? ≠ some '!')
    (hrest : ':' ∉ rest) (d : Str) (hd : d = flagText required multiple ++ rest) :
    ThrowsBadSyntax d (scanLong d) := by
  obtain ⟨i, j, hi, hj, hle, hdrop⟩ := skipFlags_eq hd hstar hbang
  obtain ⟨delim, k, hadvance, hleaves⟩ := advance_eq ":".toList hle
    (hdrop.trans (List.append_nil rest).symm) (not_mem_singleton.mpr hrest) (by simp [StopsAt])
  have hdelim : delim = none := hleaves.1
  refine ⟨"expected ':'".toList, ?_⟩
  simp only [scanLong, hi, hj, hadvance, hdelim, Except.ok_bind]
  rfl

/-- The scan of the short name, where there is a `,`. -/
lemma scanShort_eq {d text tail : Str} {s : Scan}
    (h : Leaves d s.delim s.current (',' :: (text ++ tail)))
    (htext : ∀ c ∈ text, c ∉ "=?:".toList) (htail : StopsAt "=?:".toList tail) :
    ∃ delim current, Leaves d delim current tail ∧
      (text.length = 1 → rxValidIdentifier.isMatch text →
        scanShort d s = .ok ⟨{ s.opt with short := text }, delim, current⟩) ∧
      (text.length ≠ 1 ∨ rxValidIdentifier.isMatch text = false →
        ThrowsBadSyntax d (scanShort d s)) := by
  obtain ⟨hdelim, hle, hdrop⟩ := h.next
  obtain ⟨delim, current, hadvance, hleaves⟩ := advance_eq _ hle hdrop htext htail
  refine ⟨delim, current, hleaves, fun hlen hmatch => ?_, fun hbad => ?_⟩
  · simp only [scanShort, hdelim, hadvance, hlen, hmatch, Except.ok_bind, ne_eq,
      not_true_eq_false, if_false]
    rfl
  · simp only [scanShort, hdelim, hadvance, Except.ok_bind, ne_eq, not_true_eq_false, if_false]
    by_cases hlen : text.length = 1
    · have hmatch : rxValidIdentifier.isMatch text = false := by simpa [hlen] using hbad
      simp only [hlen, hmatch, not_true_eq_false, decide_false]
      exact ⟨_, rfl⟩
    · simp only [hlen, not_false_eq_true, decide_true]
      exact ⟨_, rfl⟩

/-- The scan of the argument, where there is a `=` or a `?`. -/
lemma scanArgument_eq {d text tail : Str} {s : Scan} (optional : Bool)
    (h : Leaves d s.delim s.current ((if optional then '?' else '=') :: (text ++ tail)))
    (htext : ∀ c ∈ text, c ∉ ",:".toList) (htail : StopsAt ",:".toList tail) :
    ∃ delim current, Leaves d delim current tail ∧ scanArgument d s =
      match typeFlags text with
      | none => .error (.badSyntax d "invalid option type".toList)
      | some flags =>
        scanDefault d ⟨{ s.opt with flags := { flags with optional } }, delim, current⟩ := by
  obtain ⟨hdelim, hle, hdrop⟩ := h.next
  obtain ⟨delim, current, hadvance, hleaves⟩ := advance_eq _ hle hdrop htext htail
  refine ⟨delim, current, hleaves, ?_⟩
  cases optional <;>
    simp only [scanArgument, hdelim, hadvance, Except.ok_bind] <;> rfl

/-- The scan of the default value, where there is a `,`. -/
lemma scanDefault_eq {d text tail : Str} {s : Scan}
    (h : Leaves d s.delim s.current (',' :: (text ++ tail))) (htext : ':' ∉ text)
    (htail : StopsAt ":".toList tail) :
    ∃ delim current, Leaves d delim current tail ∧
      ((s.opt.isRequired && !s.opt.isArgumentOptional) = false → s.opt.checkArgument text →
        scanDefault d s = .ok ⟨{ s.opt with flags := { s.opt.flags with default := true },
                                            default := text }, delim, current⟩) ∧
      ((s.opt.isRequired && !s.opt.isArgumentOptional) ∨ s.opt.checkArgument text = false →
        ThrowsBadSyntax d (scanDefault d s)) := by
  obtain ⟨hdelim, hle, hdrop⟩ := h.next
  obtain ⟨delim, current, hadvance, hleaves⟩ := advance_eq ":".toList hle hdrop
    (not_mem_singleton.mpr htext) htail
  refine ⟨delim, current, hleaves, fun hmeaning hvalid => ?_, fun hbad => ?_⟩
  · simp only [scanDefault, hdelim, hadvance, hmeaning, hvalid, Except.ok_bind, if_true]
    rfl
  · simp only [scanDefault, hdelim, hadvance, Except.ok_bind, if_true]
    cases hmeaning : s.opt.isRequired && !s.opt.isArgumentOptional with
    | true => exact ⟨_, rfl⟩
    | false =>
      have hvalid : s.opt.checkArgument text = false := by simpa [hmeaning] using hbad
      simp only [hvalid]
      exact ⟨_, rfl⟩

/-! ### The parts, one by one -/

lemma StopsAt.mono {allowed allowed' tail : Str} (h : StopsAt allowed tail)
    (hsub : ∀ c ∈ allowed, c ∈ allowed') : StopsAt allowed' tail :=
  fun c hc => hsub c (h c hc)

/-- A text that does not start with one of the characters stops at the others. -/
lemma StopsAt.of_head?_ne {allowed allowed' tail : Str} {c : Char} (h : StopsAt allowed tail)
    (hne : tail.head? ≠ some c) (hsub : ∀ a ∈ allowed, a = c ∨ a ∈ allowed') :
    StopsAt allowed' tail := by
  intro a ha
  refine (hsub a (h a ha)).resolve_left ?_
  rintro rfl
  exact hne ha

/-- The scan ends before a character that is not among the allowed ones. -/
lemma Leaves.delim_ne {d tail allowed : Str} {delim : Option Char} {current : Nat} {c : Char}
    (h : Leaves d delim current tail) (hstop : StopsAt allowed tail) (hc : c ∉ allowed) :
    delim ≠ some c := by
  intro hdelim
  exact hc (hstop c (by rw [← h.1, hdelim]; rfl))

/-- The scan of the short name reads a short name. -/
lemma scanShort_ok {d tail : Str} {s : Scan} (short : Option Char)
    (hident : ∀ c ∈ short, isIdent c) (hs : s.opt.short = [])
    (h : Leaves d s.delim s.current (shortText short ++ tail)) (hstop : StopsAt "=?:".toList tail) :
    ∃ s' : Scan, Leaves d s'.delim s'.current tail ∧
      s'.opt = { s.opt with short := short.toList } ∧ scanShort d s = .ok s' := by
  cases short with
  | none =>
    refine ⟨s, h, by rw [Option.toList_none, ← hs], ?_⟩
    rw [scanShort, if_pos (h.delim_ne hstop (by decide))]
  | some c =>
    have hc : isIdent c := hident c rfl
    have hmatch : rxValidIdentifier.isMatch [c] := rxValidIdentifier_iff.mpr ⟨by simp, by simpa⟩
    have hfree : ∀ a ∈ [c], a ∉ "=?:".toList := not_mem_of_isIdent (by simpa) (by simp)
    obtain ⟨delim, current, hleaves, hok, -⟩ := scanShort_eq h hfree hstop
    exact ⟨⟨_, delim, current⟩, hleaves, rfl, hok rfl hmatch⟩

lemma scanShort_cases {d tail : Str} {s : Scan}
    (h : Leaves d s.delim s.current tail) (hstop : StopsAt ",=?:".toList tail) :
    ThrowsBadSyntax d (scanShort d s) ∨ ∃ short rest, tail = shortText short ++ rest ∧
      (∀ c ∈ short, isIdent c) ∧ StopsAt "=?:".toList rest := by
  by_cases hcomma : tail.head? = some ','
  · obtain ⟨w, rfl⟩ := List.head?_eq_some_iff.mp hcomma
    obtain ⟨text, rest, rfl, htext, hrest⟩ := exists_cut "=?:".toList w
    obtain ⟨-, -, -, -, hbad⟩ := scanShort_eq h htext hrest
    by_cases hlen : text.length = 1
    · obtain ⟨c, rfl⟩ := List.length_eq_one_iff.mp hlen
      cases hmatch : rxValidIdentifier.isMatch [c] with
      | true =>
        have hc : isIdent c := by simpa using (rxValidIdentifier_iff.mp hmatch).2
        exact Or.inr ⟨some c, rest, rfl, by simpa using hc, hrest⟩
      | false => exact Or.inl (hbad (Or.inr hmatch))
    · exact Or.inl (hbad (Or.inl hlen))
  · exact Or.inr ⟨none, tail, rfl, by simp, hstop.of_head?_ne hcomma (by simp)⟩

lemma typeFlags_text (t : ArgumentType) : typeFlags t.text = some t.flags := by
  cases t <;> rfl

lemma typeFlags_cases (text : Str) : typeFlags text = none ∨ ∃ t : ArgumentType, text = t.text := by
  rw [typeFlags]
  split_ifs with hint hstring hbool
  · exact Or.inr ⟨.int, hint⟩
  · exact Or.inr ⟨.string, hstring⟩
  · exact Or.inr ⟨.bool, hbool⟩
  · exact Or.inl rfl

/-- The check of an argument accepts the values of its type. -/
lemma checkArgument_iff {o : CmdlineOption} {t : ArgumentType} (hint : o.flags.int = t.flags.int)
    (hbool : o.flags.bool = t.flags.bool) (v : Str) : o.checkArgument v ↔ t.Accepts v := by
  rw [checkArgument, hint, hbool]
  cases t with
  | int => exact rxInt_iff
  | string => simp [ArgumentType.flags, ArgumentType.Accepts]
  | bool => exact rxBool_iff

/-- The scan of the default value reads a default value. -/
lemma scanDefault_ok {d tail : Str} {s : Scan} (default : Option Str)
    (hcolon : ∀ v ∈ default, ':' ∉ v) (hvalid : ∀ v ∈ default, s.opt.checkArgument v)
    (hmeaning : (s.opt.isRequired && !s.opt.isArgumentOptional) → default = none)
    (hoptional : s.opt.isArgumentOptional → default ≠ none)
    (hflag : s.opt.flags.default = false) (hs : s.opt.default = [])
    (h : Leaves d s.delim s.current (defaultText default ++ tail))
    (hstop : StopsAt ":".toList tail) :
    ∃ delim current, Leaves d delim current tail ∧ scanDefault d s =
      .ok ⟨{ s.opt with flags := { s.opt.flags with default := default.isSome },
                        default := default.getD [] }, delim, current⟩ := by
  cases default with
  | none =>
    have hopt : s.opt.isArgumentOptional = false := by simpa using hoptional
    refine ⟨s.delim, s.current, h, ?_⟩
    rw [scanDefault, if_neg (h.delim_ne hstop (by decide)), Option.getD_none, ← hs,
      Option.isSome_none, ← hflag, hopt]
    rfl
  | some v =>
    obtain ⟨delim, current, hleaves, hok, -⟩ := scanDefault_eq h (hcolon v rfl) hstop
    exact ⟨delim, current, hleaves, hok (by simpa using hmeaning) (hvalid v rfl)⟩

lemma scanDefault_cases {d tail : Str} {s : Scan} (h : Leaves d s.delim s.current tail)
    (hstop : StopsAt ",:".toList tail) :
    ThrowsBadSyntax d (scanDefault d s) ∨ ∃ default rest, tail = defaultText default ++ rest ∧
      (∀ v ∈ default, ':' ∉ v) ∧ (∀ v ∈ default, s.opt.checkArgument v) ∧
      ((s.opt.isRequired && !s.opt.isArgumentOptional) → default = none) ∧
      (s.opt.isArgumentOptional → default ≠ none) ∧ StopsAt ":".toList rest := by
  by_cases hcomma : tail.head? = some ','
  · obtain ⟨w, rfl⟩ := List.head?_eq_some_iff.mp hcomma
    obtain ⟨text, rest, rfl, htext, hrest⟩ := exists_cut ":".toList w
    have hcolon : ':' ∉ text := not_mem_singleton.mp htext
    obtain ⟨-, -, -, -, hbad⟩ := scanDefault_eq h hcolon hrest
    by_cases hmeaning : (s.opt.isRequired && !s.opt.isArgumentOptional) = true
    · exact Or.inl (hbad (Or.inl hmeaning))
    · cases hvalid : s.opt.checkArgument text with
      | true =>
        exact Or.inr ⟨some text, rest, rfl, by simpa using hcolon, by simpa using hvalid,
          fun h => absurd h hmeaning, fun _ => by simp, hrest⟩
      | false => exact Or.inl (hbad (Or.inr hvalid))
  · have hdelim : s.delim ≠ some ',' := by rwa [h.1]
    cases hopt : s.opt.isArgumentOptional with
    | true =>
      left
      rw [scanDefault, if_neg hdelim, hopt]
      exact ⟨_, rfl⟩
    | false =>
      exact Or.inr ⟨none, tail, rfl, by simp, by simp, fun _ => rfl, by simp,
        hstop.of_head?_ne hcomma (by simp)⟩

/-- The scan of the argument reads an argument. -/
lemma scanArgument_ok {d tail : Str} {s : Scan} (argument : Option ArgumentDescription)
    (hmeaning : s.opt.required → ∀ a ∈ argument, a.optional = false → a.default = none)
    (hflags : s.opt.flags = {}) (hs : s.opt.default = [])
    (h : Leaves d s.delim s.current (argumentText argument ++ tail))
    (hstop : StopsAt ":".toList tail) :
    ∃ s' : Scan, Leaves d s'.delim s'.current tail ∧
      s'.opt = { s.opt with
        flags := argumentFlags argument, default := argumentDefault argument } ∧
      scanArgument d s = .ok s' := by
  cases argument with
  | none =>
    refine ⟨s, h, by rw [argumentFlags, argumentDefault, ← hflags, ← hs], ?_⟩
    rw [scanArgument, if_pos ⟨h.delim_ne hstop (by decide), h.delim_ne hstop (by decide)⟩]
  | some a =>
    have hstop' : StopsAt ",:".toList (defaultText a.default ++ tail) := by
      cases a.default with
      | none => exact hstop.mono (by simp)
      | some v => simp [StopsAt, defaultText]
    rw [argumentText, List.cons_append, List.append_assoc] at h
    obtain ⟨delim, current, hleaves, heq⟩ := scanArgument_eq a.optional h a.type.notMem_of_mem_text hstop'
    rw [heq, typeFlags_text]
    have hbits : a.type.flags.default = false := by cases a.type <;> rfl
    obtain ⟨delim', current', hleaves', hok⟩ := scanDefault_ok
      (s := ⟨{ s.opt with flags := { a.type.flags with optional := a.optional } }, delim, current⟩)
      a.default a.default_colon
      (fun v hv => (checkArgument_iff rfl rfl v).mpr (a.default_accepted v hv))
      (fun hreq => by
        simp only [isRequired, isArgumentOptional, Bool.and_eq_true, Bool.not_eq_true'] at hreq
        exact hmeaning hreq.1 a rfl hreq.2)
      a.optional_default hbits hs hleaves hstop
    exact ⟨⟨_, delim', current'⟩, hleaves', rfl, hok⟩

lemma scanArgument_cases {d tail : Str} {s : Scan} (h : Leaves d s.delim s.current tail)
    (hstop : StopsAt "=?:".toList tail) :
    ThrowsBadSyntax d (scanArgument d s) ∨ ∃ argument rest, tail = argumentText argument ++ rest ∧
      (s.opt.required → ∀ a ∈ argument, a.optional = false → a.default = none) ∧
      StopsAt ":".toList rest := by
  by_cases hhead : tail.head? = some '=' ∨ tail.head? = some '?'
  · obtain ⟨optional, w, rfl⟩ : ∃ (optional : Bool) (w : Str),
        tail = (if optional then '?' else '=') :: w := by
      rcases hhead with heq | heq
      · obtain ⟨w, rfl⟩ := List.head?_eq_some_iff.mp heq
        exact ⟨false, w, rfl⟩
      · obtain ⟨w, rfl⟩ := List.head?_eq_some_iff.mp heq
        exact ⟨true, w, rfl⟩
    obtain ⟨text, rest, rfl, htext, hrest⟩ := exists_cut ",:".toList w
    obtain ⟨delim, current, hleaves, heq⟩ := scanArgument_eq optional h htext hrest
    rcases typeFlags_cases text with hnone | ⟨t, rfl⟩
    · exact Or.inl ⟨_, by rw [heq, hnone]⟩
    · rw [heq, typeFlags_text]
      rcases scanDefault_cases (s := ⟨{ s.opt with flags := { t.flags with optional } },
          delim, current⟩) hleaves hrest with
        hbad | ⟨default, rest, rfl, hcolon, hvalid, hmeaning, hoptional, hstop'⟩
      · exact Or.inl hbad
      · have haccepts : ∀ v ∈ default, t.Accepts v :=
          fun v hv => (checkArgument_iff rfl rfl v).mp (hvalid v hv)
        refine Or.inr ⟨some ⟨optional, t, default, hcolon, haccepts, hoptional⟩, rest,
          by simp [argumentText], ?_, hstop'⟩
        intro hreq a ha hopt
        obtain rfl := Option.mem_some.mp ha
        exact hmeaning (by simpa [isRequired, isArgumentOptional] using ⟨hreq, hopt⟩)
  · obtain ⟨hequals, hquestion⟩ := not_or.mp hhead
    have hstop' : StopsAt "?:".toList tail := hstop.of_head?_ne hequals (by simp)
    exact Or.inr ⟨none, tail, rfl, by simp, hstop'.of_head?_ne hquestion (by simp)⟩

/-- The help text is everything behind the last delimiter. -/
lemma scanHelp_ok {d : Str} {s : Scan} (help : Option Str) (hs : s.opt.help = [])
    (h : Leaves d s.delim s.current (helpText help)) :
    scanHelp d s = .ok { s.opt with help := help.getD [] } := by
  cases help with
  | none =>
    have hdelim : s.delim = none := h.1
    rw [scanHelp, hdelim, Option.getD_none, ← hs]
    rfl
  | some text =>
    obtain ⟨hdelim, hle, hdrop⟩ := h.next
    rw [scanHelp, hdelim, if_neg (by simp), if_neg (by omega), hdrop]
    rfl

lemma exists_helpText {tail : Str} (hstop : StopsAt ":".toList tail) :
    ∃ help, tail = helpText help := by
  cases tail with
  | nil => exact ⟨none, rfl⟩
  | cons c text =>
    have hc : c = ':' := by simpa using hstop c rfl
    exact ⟨some text, by rw [hc]; rfl⟩

lemma stopsAt_helpText (help : Option Str) : StopsAt ":".toList (helpText help) := by
  cases help <;> simp [StopsAt, helpText]

lemma stopsAt_argumentText (argument : Option ArgumentDescription) {tail : Str}
    (h : StopsAt ":".toList tail) : StopsAt "=?:".toList (argumentText argument ++ tail) := by
  cases argument with
  | none => exact h.mono (by simp)
  | some a => cases ho : a.optional <;> simp [StopsAt, argumentText, ho]

lemma stopsAt_shortText (short : Option Char) {tail : Str} (h : StopsAt "=?:".toList tail) :
    StopsAt ",=?:".toList (shortText short ++ tail) := by
  cases short with
  | none => exact h.mono (by simp)
  | some c => simp [StopsAt, shortText]

/-! ### The whole description -/

lemma head?_key_ne {key rest : Str} {c : Char} (h : key.head? ≠ some c) (hc : c ≠ ':') :
    (key ++ ':' :: rest).head? ≠ some c := by
  cases key with
  | nil => simpa using hc.symm
  | cons a key => exact h

lemma head?_key_ne_of_append {key rest : Str} {c : Char}
    (h : (key ++ ':' :: rest).head? ≠ some c) : key.head? ≠ some c := by
  cases key with
  | nil => simp
  | cons a key => exact h

/-- The text of a description yields its option. -/
lemma ofDescription_render (r : Description) : ofDescription r.render = .ok r.option := by
  have hhelp := stopsAt_helpText r.help
  have hargument := stopsAt_argumentText r.argument hhelp
  have hfree : ∀ c ∈ r.long, c ∉ ",=?:".toList := not_mem_of_isIdent r.long_ident (by simp)
  have hmatch : rxValidIdentifier.isMatch r.long :=
    rxValidIdentifier_iff.mpr ⟨r.long_ne_nil, r.long_ident⟩
  obtain ⟨s₁, hleaves₁, hopt₁, hlong⟩ := scanLong_eq
    (fun hm => head?_key_ne (r.key_star hm) (by decide))
    (fun hr hm => head?_key_ne (r.key_bang hr hm) (by decide)) r.key_colon hfree
    (stopsAt_shortText r.short hargument) r.render rfl
  rw [if_pos hmatch] at hlong
  obtain ⟨s₂, hleaves₂, hopt₂, hshort⟩ := scanShort_ok r.short r.short_ident (by rw [hopt₁])
    hleaves₁ hargument
  obtain ⟨s₃, hleaves₃, hopt₃, harg⟩ := scanArgument_ok r.argument
    (by rw [hopt₂, hopt₁]; exact r.required_default) (by rw [hopt₂, hopt₁])
    (by rw [hopt₂, hopt₁]) hleaves₂ hhelp
  have hhelp' := scanHelp_ok r.help (by rw [hopt₃, hopt₂, hopt₁]) hleaves₃
  rw [ofDescription, hlong, Except.ok_bind, hshort, Except.ok_bind, harg, Except.ok_bind, hhelp',
    hopt₃, hopt₂, hopt₁]
  rfl

lemma ThrowsBadSyntax.bind {α β : Type} {d : Str} {x : Except OptionError α}
    (h : ThrowsBadSyntax d x) (f : α → Except OptionError β) : ThrowsBadSyntax d (x >>= f) := by
  obtain ⟨msg, rfl⟩ := h
  exact ⟨msg, rfl⟩

/-- The constructor throws `bad_syntax`, or its argument is the text of a description. -/
lemma ofDescription_cases (d : Str) :
    ThrowsBadSyntax d (ofDescription d) ∨ ∃ r : Description, r.render = d := by
  obtain ⟨required, multiple, w, hd, hstar, hbang⟩ := exists_flags d
  obtain ⟨key, tail, rfl, hkey, htail⟩ := exists_cut ":".toList w
  have hkey : ':' ∉ key := not_mem_singleton.mp hkey
  cases tail with
  | nil =>
    rw [List.append_nil] at hd hstar hbang
    exact Or.inl ((scanLong_of_not_mem hstar hbang hkey d hd).bind _)
  | cons c tail =>
    obtain rfl : c = ':' := by simpa using htail c rfl
    obtain ⟨long, tail, rfl, hfree, htail⟩ := exists_cut ",=?:".toList tail
    obtain ⟨s₁, hleaves₁, hopt₁, hlong⟩ := scanLong_eq hstar hbang hkey hfree htail d hd
    cases hmatch : rxValidIdentifier.isMatch long with
    | false =>
      have hbad : ThrowsBadSyntax d (scanLong d) := ⟨_, by rw [hlong, hmatch]; rfl⟩
      exact Or.inl (hbad.bind _)
    | true =>
      obtain ⟨hne, hident⟩ := rxValidIdentifier_iff.mp hmatch
      rw [hmatch, if_pos rfl] at hlong
      rw [ofDescription, hlong, Except.ok_bind]
      rcases scanShort_cases hleaves₁ htail with hbad | ⟨short, tail, rfl, hshort, htail⟩
      · exact Or.inl (hbad.bind _)
      obtain ⟨s₂, hleaves₂, hopt₂, hok⟩ := scanShort_ok short hshort (by rw [hopt₁])
        hleaves₁ htail
      rw [hok, Except.ok_bind]
      rcases scanArgument_cases hleaves₂ htail with hbad | ⟨argument, tail, rfl, hmeaning, htail⟩
      · exact Or.inl (hbad.bind _)
      rw [hopt₂, hopt₁] at hmeaning
      obtain ⟨help, rfl⟩ := exists_helpText htail
      exact Or.inr ⟨⟨required, multiple, key, long, short, argument, help, hkey,
        fun hm => head?_key_ne_of_append (hstar hm),
        fun hr hm => head?_key_ne_of_append (hbang hr hm), hne, hident, hshort, hmeaning⟩, hd.symm⟩

/-! ### Descriptions and options -/

/-- The bits and the default value determine the argument. -/
lemma argument_eq {a a' : Option ArgumentDescription} (hflags : argumentFlags a = argumentFlags a')
    (hdefault : argumentDefault a = argumentDefault a') : a = a' := by
  cases a with
  | none =>
    cases a' with
    | none => rfl
    | some a' => cases ht : a'.type <;> simp [argumentFlags, ht, ArgumentType.flags] at hflags
  | some a =>
    cases a' with
    | none => cases ht : a.type <;> simp [argumentFlags, ht, ArgumentType.flags] at hflags
    | some a' =>
      simp only [argumentFlags, ArgumentFlags.mk.injEq] at hflags
      simp only [argumentDefault] at hdefault
      obtain ⟨hoptional, hint, hbool, hstring, hsome⟩ := hflags
      have htype : a.type = a'.type := by
        cases ht : a.type <;> cases ht' : a'.type <;> simp_all [ArgumentType.flags]
      have hdefault : a.default = a'.default := by
        cases hd : a.default <;> cases hd' : a'.default <;> simp_all
      exact congrArg some (ArgumentDescription.ext hoptional htype hdefault)

/-- A text is the text of one description only. -/
lemma render_injective {r r' : Description} (h : r.render = r'.render) : r = r' := by
  have hoption : r.option = r'.option := by
    have hok := ofDescription_render r
    rw [h, ofDescription_render r'] at hok
    exact (Except.ok.inj hok).symm
  simp only [Description.option, CmdlineOption.mk.injEq] at hoption
  obtain ⟨hmultiple, hrequired, hkey, hlong, hshort, -, hflags, hdefault⟩ := hoption
  have hshort : r.short = r'.short := by
    cases hs : r.short <;> cases hs' : r'.short <;> simp_all
  have hargument : r.argument = r'.argument := argument_eq hflags hdefault
  -- only the help is left: an absent one and an empty one differ in the text
  have hhelp : helpText r.help = helpText r'.help := by
    simpa [Description.render, hmultiple, hrequired, hkey, hlong, hshort, hargument] using h
  have hhelp : r.help = r'.help := by
    cases hh : r.help <;> cases hh' : r'.help <;> simp_all [helpText]
  exact Description.ext hrequired hmultiple hkey hlong hshort hargument hhelp

/-- The word of the argument type. -/
def typeText (flags : ArgumentFlags) : Str :=
  if flags.int then "int".toList else if flags.bool then "bool".toList else "string".toList

/-- A description text for the option. -/
def render (o : CmdlineOption) : Str :=
  flagText o.isRequired o.isMultiple ++ (o.config ++ ':' :: (o.getLong ++
    ((if o.getShort = [] then [] else ',' :: o.getShort) ++
      ((if o.hasArgument then (if o.isArgumentOptional then '?' else '=') :: (typeText o.flags ++
          if o.hasDefaultValue then ',' :: o.default else []) else []) ++
        if o.getHelp = [] then [] else ':' :: o.getHelp))))

lemma argumentText_eq (a : Option ArgumentDescription) :
    (if (argumentFlags a).any then (if (argumentFlags a).optional then '?' else '=') ::
        (typeText (argumentFlags a) ++ if (argumentFlags a).default then ',' :: argumentDefault a
          else []) else []) = argumentText a := by
  cases a with
  | none => rfl
  | some a =>
    have htype : typeText (argumentFlags (some a)) = a.type.text := by
      cases ht : a.type <;> simp only [typeText, argumentFlags, ht] <;> rfl
    have hany : (argumentFlags (some a)).any := by
      cases ht : a.type <;> simp [ArgumentFlags.any, argumentFlags, ht, ArgumentType.flags]
    have hdefault : (if (argumentFlags (some a)).default then ',' :: argumentDefault (some a)
        else []) = defaultText a.default := by
      cases hd : a.default <;> simp [argumentFlags, argumentDefault, defaultText, hd]
    rw [if_pos hany, htype, hdefault]
    rfl

/-- An option is rendered as its description without an empty help. -/
lemma render_option (r : Description) :
    r.option.render = { r with help := r.help.filter (· ≠ []) : Description }.render := by
  have hshort : (if r.short.toList = [] then [] else ',' :: r.short.toList) = shortText r.short := by
    cases r.short <;> rfl
  have hhelp : (if r.help.getD [] = [] then [] else ':' :: r.help.getD [])
      = helpText (r.help.filter (· ≠ [])) := by
    cases r.help with
    | none => rfl
    | some text => by_cases ht : text = [] <;> simp [Option.filter, ht, helpText]
  rw [Description.render, ← argumentText_eq, ← hhelp, ← hshort]
  rfl

/-! ### The constructor and its grammar -/

/-- The constructor accepts exactly the texts of descriptions, and builds the option of the only
description with that text. Every other text makes it throw `bad_syntax`. Rendering an option and
parsing the result gives the option back. -/
theorem ofDescription_exact (d : Str) :
    (∀ o, ofDescription d = .ok o ↔
      ∃ r : Description, r.render = d ∧ r.option = o ∧ o.getConfigKey = r.configKey) ∧
    (∀ r r' : Description, r.render = d → r'.render = d → r = r') ∧
    (∀ o, ofDescription d = .ok o → ofDescription o.render = .ok o) ∧
    ∀ e, ofDescription d = .error e → ∃ msg, e = .badSyntax d msg := by
  have hconfig : ∀ r : Description, r.option.getConfigKey = r.configKey := by
    intro r
    simp [getConfigKey, Description.option, Description.configKey]
  have hread : ∀ o, ofDescription d = .ok o → ∃ r : Description, r.render = d ∧ r.option = o := by
    intro o ho
    rcases ofDescription_cases d with ⟨msg, herror⟩ | ⟨r, rfl⟩
    · rw [ho] at herror
      cases herror
    · rw [ofDescription_render] at ho
      exact ⟨r, rfl, Except.ok.inj ho⟩
  refine ⟨fun o => ⟨fun ho => ?_, ?_⟩, ?_, ?_, ?_⟩
  · obtain ⟨r, hr, rfl⟩ := hread o ho
    exact ⟨r, hr, rfl, hconfig r⟩
  · rintro ⟨r, rfl, rfl, -⟩
    exact ofDescription_render r
  · rintro r r' rfl hr'
    exact (render_injective hr').symm
  · intro o ho
    obtain ⟨r, -, rfl⟩ := hread o ho
    have hhelp : (r.help.filter (· ≠ [])).getD [] = r.help.getD [] := by
      cases hh : r.help with
      | none => rfl
      | some text => by_cases ht : text = [] <;> simp [Option.filter, ht]
    rw [render_option, ofDescription_render]
    simp only [Description.option, hhelp]
  · intro e he
    rcases ofDescription_cases d with ⟨msg, herror⟩ | ⟨r, rfl⟩
    · rw [he] at herror
      exact ⟨msg, Except.error.inj herror⟩
    · rw [ofDescription_render] at he
      cases he

end CmdlineOption

end Utilmm
