import Utilmm.Core.Except
import Utilmm.Core.Regexp
import Utilmm.Text

/-!
# `cmdline_option`

An option description has the form

    [!][*][config_key]:long[,short][=type[,default]|?type,default][:help]

The constructor scans it from left to right; the characters at which the next scan stops depend
on the delimiter found by the last one.
-/

namespace Utilmm

/-- The or-ed bits of `ArgumentType`. -/
structure ArgumentFlags where
  optional : Bool := false
  int : Bool := false
  bool : Bool := false
  string : Bool := false
  default : Bool := false
deriving DecidableEq

/-- `m_argument_flags != None` -/
def ArgumentFlags.any (f : ArgumentFlags) : Bool :=
  f.optional || f.int || f.bool || f.string || f.default

structure CmdlineOption where
  multiple : Bool := false
  required : Bool := false
  config : Str := []
  long : Str := []
  short : Str := []
  help : Str := []
  flags : ArgumentFlags := {}
  default : Str := []
deriving DecidableEq

/-- What the constructor can throw. -/
inductive OptionError where
  | badSyntax (source error : Str)
  | outOfRange
deriving DecidableEq

namespace CmdlineOption

open Except (throwIf)

/-! ### Regular expressions -/

/-- `[\w-]+` -/
def rxValidIdentifier : Regexp Char := .plus (.cls isIdent)

/-- `[0-9]+` -/
def rxInt : Regexp Char := .plus (.cls Char.isDigit)

/-- `1|0|false|true` -/
def rxBool : Regexp Char :=
  .alt (.word "1".toList) (.alt (.word "0".toList)
    (.alt (.word "false".toList) (.word "true".toList)))

lemma rxValidIdentifier_iff {s : Str} :
    rxValidIdentifier.isMatch s ↔ s ≠ [] ∧ ∀ c ∈ s, isIdent c := by
  rw [Regexp.isMatch_iff, rxValidIdentifier, Regexp.mem_language_plus_cls]

lemma rxInt_iff {s : Str} : rxInt.isMatch s ↔ s ≠ [] ∧ ∀ c ∈ s, c.isDigit := by
  rw [Regexp.isMatch_iff, rxInt, Regexp.mem_language_plus_cls]

lemma rxBool_iff {s : Str} :
    rxBool.isMatch s
      ↔ s = "1".toList ∨ s = "0".toList ∨ s = "false".toList ∨ s = "true".toList := by
  simp only [Regexp.isMatch_iff, rxBool, Regexp.language, Language.mem_add,
    Regexp.mem_language_word]

/-! ### Accessors -/

def isMultiple (o : CmdlineOption) : Bool := o.multiple
def isRequired (o : CmdlineOption) : Bool := o.required
def getConfigKey (o : CmdlineOption) : Str := if o.config.isEmpty then o.long else o.config
def getLong (o : CmdlineOption) : Str := o.long
def getShort (o : CmdlineOption) : Str := o.short
def getHelp (o : CmdlineOption) : Str := o.help
def hasArgument (o : CmdlineOption) : Bool := o.flags.any
def isArgumentOptional (o : CmdlineOption) : Bool := o.flags.optional
def hasDefaultValue (o : CmdlineOption) : Bool := o.flags.default
def getDefaultValue (o : CmdlineOption) : Str :=
  if o.hasDefaultValue then o.default else "true".toList

/-- Whether `value` is a valid text for the argument type. -/
def checkArgument (o : CmdlineOption) (value : Str) : Bool :=
  if o.flags.int then rxInt.isMatch value
  else if o.flags.bool then rxBool.isMatch value
  else true

/-! ### The constructor -/

/-- Read `text` up to the next of the allowed characters. The character found, or `none` at the
end of the source, comes with its position. -/
def advance (source allowed : Str) (current : Nat) :
    Except OptionError (Option Char × Nat × Str) :=
  if source.length < current then .error .outOfRange
  else match findFirstOf source allowed current with
    | some next => .ok (source[next]?, next, (source.drop current).take (next - current))
    | none => .ok (none, npos, source.drop current)

/-- The state between two scans: the option so far, the last delimiter and its position. -/
structure Scan where
  opt : CmdlineOption
  delim : Option Char
  current : Nat

/-- Skip the character `c` if it stands at `current`. -/
def skipFlag (description : Str) (c : Char) (current : Nat) : Bool × Nat :=
  if description[current]? = some c then (true, current + 1) else (false, current)

/-- The flags, the configuration key and the long name. -/
def scanLong (description : Str) : Except OptionError Scan := do
  let (required, current) := skipFlag description '!' 0
  let (multiple, current) := skipFlag description '*' current
  let (delim, current, config) ← advance description ":".toList current
  throwIf delim.isNone (.badSyntax description "expected ':'".toList)
  let (delim, current, long) ← advance description ",=?:".toList (current + 1)
  throwIf (!rxValidIdentifier.isMatch long) (.badSyntax description "invalid identifier".toList)
  return ⟨{ multiple, required, config, long }, delim, current⟩

/-- The short name, after a `,`. -/
def scanShort (description : Str) (s : Scan) : Except OptionError Scan :=
  if s.delim ≠ some ',' then .ok s
  else do
    let (delim, current, text) ← advance description "=?:".toList (s.current + 1)
    throwIf (text.length ≠ 1)
      (.badSyntax description "short option string must be only one character".toList)
    throwIf (!rxValidIdentifier.isMatch text)
      (.badSyntax description "invalid short option character".toList)
    return ⟨{ s.opt with short := text }, delim, current⟩

/-- The flags of an argument type. -/
def typeFlags (text : Str) : Option ArgumentFlags :=
  if text = "int".toList then some { int := true }
  else if text = "string".toList then some { string := true }
  else if text = "bool".toList then some { bool := true }
  else none

/-- The default value, after a `,`; an optional argument needs one. -/
def scanDefault (description : Str) (s : Scan) : Except OptionError Scan :=
  if s.delim = some ',' then do
    let (delim, current, text) ← advance description ":".toList (s.current + 1)
    throwIf (s.opt.isRequired && !s.opt.isArgumentOptional)
      (.badSyntax description
        ("it is meaningless to have a default value for a required argument of a " ++
          "require option").toList)
    throwIf (!s.opt.checkArgument text)
      (.badSyntax description
        ("default value for ".toList ++ s.opt.getLong ++ " is not a valid value".toList))
    return ⟨{ s.opt with flags := { s.opt.flags with default := true }, default := text },
      delim, current⟩
  else do
    throwIf s.opt.isArgumentOptional
      (.badSyntax description
        "options with optional arguments should have a default value".toList)
    return s

/-- The argument, after a `=` or a `?`. -/
def scanArgument (description : Str) (s : Scan) : Except OptionError Scan :=
  if s.delim ≠ some '=' ∧ s.delim ≠ some '?' then .ok s
  else do
    let (delim, current, text) ← advance description ",:".toList (s.current + 1)
    match typeFlags text with
    | none => .error (.badSyntax description "invalid option type".toList)
    | some flags =>
      scanDefault description
        ⟨{ s.opt with flags := { flags with optional := s.delim = some '?' } }, delim, current⟩

/-- The help text, after the last delimiter. -/
def scanHelp (description : Str) (s : Scan) : Except OptionError CmdlineOption :=
  if s.delim.isNone then .ok s.opt
  else if description.length < s.current + 1 then .error .outOfRange
  else .ok { s.opt with help := description.drop (s.current + 1) }

/-- `cmdline_option::cmdline_option` -/
def ofDescription (description : Str) : Except OptionError CmdlineOption := do
  let s ← scanLong description
  let s ← scanShort description s
  let s ← scanArgument description s
  scanHelp description s

example : (ofDescription "vkey:verbose,v?int,1:include path".toList).toOption
    = some { config := "vkey".toList, long := "verbose".toList, short := "v".toList,
             flags := { optional := true, int := true, default := true },
             default := "1".toList, help := "include path".toList } := by
  decide

/-! ### Well-formed options -/

/-- The long name is an identifier, and so is the short name, of one character if present. -/
structure WellNamed (o : CmdlineOption) : Prop where
  long_ne_nil : o.long ≠ []
  long_ident : ∀ c ∈ o.long, isIdent c
  short_ident : o.short = [] ∨ ∃ c, isIdent c ∧ o.short = [c]

/-- What the constructor guarantees of an option. -/
structure WellFormed (o : CmdlineOption) : Prop extends WellNamed o where
  one_type : o.flags.int → o.flags.bool = false
  optional_default : o.isArgumentOptional → o.hasDefaultValue
  default_valid : o.hasDefaultValue → o.checkArgument o.default

/-- The check of a value depends on the type bits only. -/
lemma checkArgument_congr {o o' : CmdlineOption} (hint : o.flags.int = o'.flags.int)
    (hbool : o.flags.bool = o'.flags.bool) (value : Str) :
    o.checkArgument value = o'.checkArgument value := by
  simp only [checkArgument, hint, hbool]

lemma scanLong_wellNamed {d : Str} {s : Scan} (h : scanLong d = .ok s) :
    s.opt.WellNamed ∧ s.opt.flags = {} := by
  simp only [scanLong, Except.bind_eq_ok, Except.throwIf_eq_ok, Except.pure_eq_ok] at h
  obtain ⟨_, _, _, _, ⟨_, _, long⟩, _, _, hlong, rfl⟩ := h
  obtain ⟨hne, hident⟩ := rxValidIdentifier_iff.mp (by simpa using hlong)
  exact ⟨⟨hne, hident, Or.inl rfl⟩, rfl⟩

lemma scanShort_wellNamed {d : Str} {s s' : Scan} (hs : s.opt.WellNamed)
    (h : scanShort d s = .ok s') : s'.opt.WellNamed ∧ s'.opt.flags = s.opt.flags := by
  simp only [scanShort] at h
  split_ifs at h with hdelim
  · cases h
    exact ⟨hs, rfl⟩
  · simp only [Except.bind_eq_ok, Except.throwIf_eq_ok, Except.pure_eq_ok] at h
    obtain ⟨⟨_, _, text⟩, _, _, hlen, _, hident, rfl⟩ := h
    obtain ⟨c, rfl⟩ := List.length_eq_one_iff.mp (by simpa using hlen)
    have hc := (rxValidIdentifier_iff.mp (by simpa using hident)).2 c (by simp)
    exact ⟨⟨hs.long_ne_nil, hs.long_ident, Or.inr ⟨c, hc, rfl⟩⟩, rfl⟩

lemma scanDefault_wellFormed {d : Str} {s s' : Scan} (hs : s.opt.WellNamed)
    (htype : s.opt.flags.int → s.opt.flags.bool = false)
    (hdefault : s.opt.hasDefaultValue = false) (h : scanDefault d s = .ok s') :
    s'.opt.WellFormed := by
  simp only [scanDefault] at h
  split_ifs at h with hdelim
  · simp only [Except.bind_eq_ok, Except.throwIf_eq_ok, Except.pure_eq_ok] at h
    obtain ⟨⟨_, _, text⟩, _, _, _, _, hcheck, rfl⟩ := h
    have hvalid : s.opt.checkArgument text := by simpa using hcheck
    refine ⟨⟨hs.long_ne_nil, hs.long_ident, hs.short_ident⟩, htype, fun _ => rfl, fun _ => ?_⟩
    rw [← hvalid]
    exact checkArgument_congr rfl rfl text
  · simp only [Except.bind_eq_ok, Except.throwIf_eq_ok, Except.pure_eq_ok] at h
    obtain ⟨_, hopt, rfl⟩ := h
    exact ⟨hs, htype, fun h => by simp [hopt] at h, fun h => by simp [hdefault] at h⟩

lemma typeFlags_eq_some {text : Str} {flags : ArgumentFlags} (h : typeFlags text = some flags) :
    flags.default = false ∧ (flags.int → flags.bool = false) := by
  simp only [typeFlags] at h
  split_ifs at h <;> cases h <;> simp

lemma scanArgument_wellFormed {d : Str} {s s' : Scan} (hs : s.opt.WellNamed)
    (hflags : s.opt.flags = {}) (h : scanArgument d s = .ok s') : s'.opt.WellFormed := by
  simp only [scanArgument] at h
  split_ifs at h with hdelim
  · cases h
    exact ⟨hs, fun h => by simp [hflags] at h,
      fun h => by simp [isArgumentOptional, hflags] at h,
      fun h => by simp [hasDefaultValue, hflags] at h⟩
  · obtain ⟨⟨_, _, text⟩, _, h⟩ := Except.bind_eq_ok.mp h
    cases htype : typeFlags text with
    | none => simp [htype] at h
    | some flags =>
      simp only [htype] at h
      refine scanDefault_wellFormed ?_ ?_ ?_ h
      · exact ⟨hs.long_ne_nil, hs.long_ident, hs.short_ident⟩
      · exact (typeFlags_eq_some htype).2
      · simpa [hasDefaultValue] using (typeFlags_eq_some htype).1

lemma scanHelp_wellFormed {d : Str} {s : Scan} {o : CmdlineOption} (hs : s.opt.WellFormed)
    (h : scanHelp d s = .ok o) : o.WellFormed := by
  simp only [scanHelp] at h
  split_ifs at h
  · cases h
    exact hs
  · cases h
    exact ⟨⟨hs.long_ne_nil, hs.long_ident, hs.short_ident⟩, hs.one_type, hs.optional_default,
      hs.default_valid⟩

/-- Every option built from a description is well formed. -/
theorem wellFormed_of_ofDescription {d : Str} {o : CmdlineOption} (h : ofDescription d = .ok o) :
    o.WellFormed := by
  simp only [ofDescription, Except.bind_eq_ok] at h
  obtain ⟨s₁, h₁, s₂, h₂, s₃, h₃, h⟩ := h
  obtain ⟨hs₁, hf₁⟩ := scanLong_wellNamed h₁
  obtain ⟨hs₂, hf₂⟩ := scanShort_wellNamed hs₁ h₂
  exact scanHelp_wellFormed (scanArgument_wellFormed hs₂ (hf₂.trans hf₁) h₃) h

/-- The value that an option gets without an argument passes its own check. -/
lemma WellFormed.checkArgument_getDefaultValue {o : CmdlineOption} (ho : o.WellFormed)
    (h : o.hasArgument = false ∨ o.isArgumentOptional) : o.checkArgument o.getDefaultValue := by
  by_cases hd : o.hasDefaultValue
  · rw [getDefaultValue, if_pos hd]
    exact ho.default_valid hd
  · rcases h with h | h
    · simp only [hasArgument, ArgumentFlags.any, Bool.or_eq_false_iff] at h
      simp [checkArgument, h]
    · exact absurd (ho.optional_default h) hd

end CmdlineOption

end Utilmm
