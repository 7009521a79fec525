import Utilmm.CommandLine.CmdlineOption
import Utilmm.ConfigFile.ConfigSet

/-!
# `command_line::parse`

`parse` writes the values of the options into a `config_set` as it meets them, and the positional
words into the object at its end. Both are kept in the state, so that what a throw leaves behind
is part of its outcome.
-/

namespace Utilmm

/-- A `command_line`. Its options all come from descriptions. -/
structure CommandLine where
  options : List CmdlineOption
  built : ∀ o ∈ options, ∃ d, CmdlineOption.ofDescription d = .ok o
  remaining : List Str := []

/-- The constructor from a list of descriptions; the first invalid one makes it throw. -/
def CommandLine.ofDescriptions : List Str → Except OptionError CommandLine
  | [] => .ok { options := [], built := by simp }
  | d :: ds =>
    match h : CmdlineOption.ofDescription d with
    | .error e => .error e
    | .ok o => do
      let cmdline ← ofDescriptions ds
      return {
        options := o :: cmdline.options
        built := List.forall_mem_cons.mpr ⟨⟨d, h⟩, cmdline.built⟩ }

/-- Every option of a `command_line` is well formed. -/
lemma CommandLine.wellFormed (cmdline : CommandLine) : ∀ o ∈ cmdline.options, o.WellFormed := by
  intro o ho
  obtain ⟨d, hd⟩ := cmdline.built o ho
  exact CmdlineOption.wellFormed_of_ofDescription hd

/-- How `parse` fails to return. `diverges` stands for a loop that goes on forever. -/
inductive ParseFailure where
  | commandlineError (error : Str)
  | diverges
deriving DecidableEq

/-- The objects that `parse` writes to. -/
structure ParseState where
  config : ConfigSet
  remaining : List Str

abbrev ParseM (α : Type) := Throwing ParseFailure ParseState α

namespace CommandLine

/-- `throw commandline_error(message)` -/
def fail {α : Type} (message : Str) : ParseM α := throw (.commandlineError message)

/-- Store a value of an option: behind the others if the option may be repeated, else instead
of them. -/
def store (opt : CmdlineOption) (value : Str) (config : ConfigSet) : ConfigSet :=
  if opt.isMultiple then config.insert opt.getConfigKey value
  else config.set opt.getConfigKey value

/-- `command_line::add_argument` -/
def addArgument (opt : CmdlineOption) (value : Str) : ParseM Unit :=
  if !opt.checkArgument value then fail ("invalid value for --".toList ++ opt.getLong)
  else modify fun s => { s with config := store opt value s.config }

/-- `argv[i]`; it is read at valid positions only. -/
def arg (argv : List Str) (i : Nat) : Str := argv.getD i []

/-- Whether a word starts with `-`. -/
def startsDash (word : Str) : Bool := word.head? = some '-'

/-- Whether it looks like the option at `i` has an argument behind it. -/
def looksLikeArgument (argv : List Str) (i : Nat) : Bool :=
  i + 1 < argv.length && !startsDash (arg argv (i + 1))

/-- `command_line::option_match`: the index behind the words of the option, or `i` if the word
at `i` is not the option. -/
def optionMatch (opt : CmdlineOption) (argv : List Str) (i : Nat) : ParseM Nat :=
  if arg argv i = ['-'] ++ opt.getShort then
    if !opt.hasArgument || (opt.isArgumentOptional && !looksLikeArgument argv i) then do
      addArgument opt opt.getDefaultValue
      return i + 1
    else if looksLikeArgument argv i then do
      addArgument opt (arg argv (i + 1))
      return i + 2
    else fail ("missing argument to -".toList ++ opt.getShort)
  else if arg argv i = ['-', '-'] ++ opt.getLong then
    if opt.hasArgument && !opt.isArgumentOptional then
      fail ("missing argument to --".toList ++ opt.getLong)
    else do
      addArgument opt opt.getDefaultValue
      return i + 1
  else if startsWith (arg argv i) (['-', '-'] ++ opt.getLong ++ ['=']) then
    if !opt.hasArgument then fail ("argument provided to --".toList ++ opt.getLong)
    else do
      addArgument opt ((arg argv i).drop (opt.getLong.length + 3))
      return i + 1
  else return i

/-- The search for the option that the word at `i` is. -/
def matchOptions (argv : List Str) (i : Nat) : List CmdlineOption → ParseM Nat
  | [] => fail ("unknown argument ".toList ++ arg argv i)
  | opt :: opts => do
    let newIndex ← optionMatch opt argv i
    if newIndex ≠ i then return newIndex else matchOptions argv i opts

/-- One round of the loop over the words, at an index below `argc`. -/
def parseWord (opts : List CmdlineOption) (argv : List Str) (i : Nat) (remains : List Str) :
    ParseM (Nat × List Str) :=
  if !startsDash (arg argv i) then return (i + 1, remains ++ [arg argv i])
  else do
    let newIndex ← matchOptions argv i opts
    return (newIndex, remains)

/-- The loop over the words. Every round moves the index forward, so `argc` rounds are enough. -/
def parseWords (opts : List CmdlineOption) (argv : List Str) :
    Nat → Nat → List Str → ParseM (List Str)
  | 0, i, remains => if argv.length ≤ i then return remains else throw .diverges
  | fuel + 1, i, remains =>
    if argv.length ≤ i then return remains
    else do
      let (i, remains) ← parseWord opts argv i remains
      parseWords opts argv fuel i remains

/-- The loop over the options that are not set yet. -/
def setDefaults : List CmdlineOption → ParseM Unit
  | [] => return ()
  | opt :: opts => do
    let s ← get
    if s.config.existsName opt.getConfigKey then setDefaults opts
    else if opt.isRequired then
      fail ("required option --".toList ++ opt.getLong ++ " is missing".toList)
    else if opt.hasDefaultValue then do
      modify fun s => { s with config := s.config.set opt.getConfigKey opt.getDefaultValue }
      setDefaults opts
    else setDefaults opts

/-- The body of `command_line::parse`. -/
def parseBody (opts : List CmdlineOption) (argv : List Str) : ParseM Unit := do
  let remains ← parseWords opts argv argv.length 0 []
  setDefaults opts
  modify fun s => { s with remaining := remains }

/-- `command_line::parse`: whether it returned, and the two objects afterwards. -/
def parse (cmdline : CommandLine) (argv : List Str) (config : ConfigSet) :
    Except ParseFailure Unit × CommandLine × ConfigSet :=
  let (outcome, s) := Throwing.exec (parseBody cmdline.options argv) ⟨config, cmdline.remaining⟩
  (outcome, { cmdline with remaining := s.remaining }, s.config)

end CommandLine

end Utilmm
