import Utilmm.ConfigFile.ConfigSet
import Utilmm.ConfigFile.Lines

/-!
# `config_file::read`

The reader takes one line after the other from a stream. The `config_set`s it creates are the
elements of a list: an object is named by its place in the list, and the file itself is the first
one. The line number counts the newlines passed so far, from one.
-/

namespace Utilmm

namespace ConfigFile

/-! ### Streams -/

/-- A `std::fstream` opened for reading: what has not been read, and the state flags. -/
structure FileStream where
  rest : Str
  eof : Bool := false
  fail : Bool := false

namespace FileStream

/-- `good()` -/
def good (file : FileStream) : Bool := !file.eof && !file.fail

/-- `peek()`: the next character; at the end it sets `eofbit`. -/
def peek (file : FileStream) : Option Char × FileStream :=
  if !file.good then (none, { file with fail := true })
  else match file.rest with
    | [] => (none, { file with eof := true })
    | c :: _ => (some c, file)

/-- `ignore()`: skip one character. -/
def ignore (file : FileStream) : FileStream :=
  if !file.good then { file with fail := true }
  else match file.rest with
    | [] => { file with eof := true }
    | _ :: rest => { file with rest }

/-- `get(linebuf)`: the characters up to the next newline, which stays in the stream. It sets
`eofbit` when there is no newline, and `failbit` when there is no character. -/
def get (file : FileStream) : Str × FileStream :=
  if !file.good then ([], { file with fail := true })
  else
    let line := file.rest.takeWhile (· ≠ '\n')
    let rest := file.rest.dropWhile (· ≠ '\n')
    (line, { rest, eof := rest.isEmpty, fail := line.isEmpty })

end FileStream

/-! ### The state of the reader -/

inductive Mode where
  | normal
  | findBracket
deriving DecidableEq

/-- How `read` fails to return. `diverges` stands for a loop that goes on forever. -/
inductive ReadError where
  | notFound (file : Str)
  | parseError (line : Nat) (message : Str)
  | diverges
deriving DecidableEq

/-- The objects, the one that is being filled, and the mode. -/
structure Reader where
  sets : List ConfigSet
  curSet : SetId
  mode : Mode

namespace Reader

/-- The reader at the start of a file: the file itself has been cleared. -/
def start : Reader := ⟨[ConfigSet.new none], 0, .normal⟩

/-- `cur_set->parent()` -/
def parent (r : Reader) : Option SetId := r.sets[r.curSet]?.bind ConfigSet.parent

/-- `cur_set->insert(key, value)` -/
def insert (r : Reader) (key value : Str) : Reader :=
  { r with sets := r.sets.modify r.curSet (·.insert key value) }

/-- Create a child of the current object under a key, and go on with it. -/
def enter (r : Reader) (key : Str) (mode : Mode) : Reader where
  sets := r.sets.modify r.curSet (·.insertChild key r.sets.length) ++ [ConfigSet.new r.curSet]
  curSet := r.sets.length
  mode := mode

end Reader

/-! ### Reading -/

/-- The part of the loop behind `file.get`: what is done with a line. -/
def readLine (lineNumber : Nat) (r : Reader) (line : Str) : Except ReadError Reader :=
  if rxEmpty.isMatch line then .ok r
  else match r.mode with
    | .findBracket =>
      if !rxOpenBracket.isMatch line then
        .error (.parseError lineNumber ("expected '\x7b', found ".toList ++ line))
      else .ok { r with mode := .normal }
    | .normal =>
      match Regexp.fullMatch rxName line with
      | some result =>
        let key := Regexp.capture result 1
        let value := Regexp.capture result 2
        if value.isEmpty || rxOpenBracket.isMatch value then
          .ok (r.enter key (if value.isEmpty then .findBracket else .normal))
        else match Regexp.fullMatch rxAttribute value with
          | some attributeValue => .ok (r.insert key (Regexp.capture attributeValue 1))
          | none =>
            .error (.parseError lineNumber
              ("expected '".toList ++ key ++ ": value', found ".toList ++ key ++ value))
      | none =>
        if rxCloseBracket.isMatch line then
          match r.parent with
          | none => .error (.parseError lineNumber "unmatched bracket".toList)
          | some parent => .ok { r with curSet := parent }
        else
          .error (.parseError lineNumber ("expected \"key: value\", found ".toList ++ line))

/-- The loop over the newlines before a line. -/
def skipNewlines : Nat → FileStream → Nat → Except ReadError (FileStream × Nat)
  | 0, _, _ => .error .diverges
  | fuel + 1, file, lineNumber =>
    let (c, file) := file.peek
    if c = some '\n' then skipNewlines fuel file.ignore (lineNumber + 1)
    else .ok (file, lineNumber)

/-- The loop over the lines. Every round takes a character or meets the end. -/
def readLoop : Nat → FileStream → Nat → Reader → Except ReadError (Nat × Reader)
  | 0, _, _, _ => .error .diverges
  | fuel + 1, file, lineNumber, r =>
    if file.eof then .ok (lineNumber, r)
    else do
      let (file, lineNumber) ← skipNewlines (file.rest.length + 1) file lineNumber
      let (line, file) := file.get
      let r ← readLine lineNumber r line
      readLoop fuel file lineNumber r

/-- What is checked at the end of the file. -/
def finish (lineNumber : Nat) (r : Reader) : Except ReadError (List ConfigSet) :=
  if r.mode = .findBracket then
    .error (.parseError lineNumber "expected '\x7b', got end of file".toList)
  else if r.parent.isSome then
    .error (.parseError lineNumber "expected '\x7d' before end of file".toList)
  else .ok r.sets

/-- `read` on an open file. -/
def readText (text : Str) : Except ReadError (List ConfigSet) := do
  let (lineNumber, r) ← readLoop (text.length + 2) ⟨text, false, false⟩ 1 .start
  finish lineNumber r

/-- `config_file::read`, with the files that can be opened. -/
def read (files : Str → Option Str) (name : Str) : Except ReadError (List ConfigSet) :=
  match files name with
  | none => .error (.notFound name)
  | some text => readText text

example : (readText "a: 1\nchild\n\x7b\n a:2 # comment\n\x7d\n".toList).toOption
    = some [⟨none, (∅ : Multimap Str Str).insert "a".toList "1".toList,
        (∅ : Multimap Str SetId).insert "child".toList 1⟩,
      ⟨some 0, (∅ : Multimap Str Str).insert "a".toList "2 ".toList, ∅⟩] := by
  decide

/-! ### Lines of a text -/

/-- Read lines that are numbered from `lineNumber` on. -/
def readLines : Nat → Reader → List Str → Except ReadError Reader
  | _, r, [] => .ok r
  | lineNumber, r, line :: lines => do
    let r ← readLine lineNumber r line
    readLines (lineNumber + 1) r lines

/-- The lines of a text. There is one more of them than there are newlines. -/
def lines (text : Str) : List Str := text.splitOn '\n'

lemma lines_nil : lines [] = [[]] := rfl

lemma lines_newline (text : Str) : lines ('\n' :: text) = [] :: lines text := by
  rw [lines, List.splitOn_cons_eq_if_modifyHead, if_pos (by simp), lines]

/-- The first line, when it is not the last one. -/
lemma lines_append_newline {line : Str} (h : '\n' ∉ line) (text : Str) :
    lines (line ++ '\n' :: text) = line :: lines text :=
  List.splitOn_append_cons_self_of_not_mem h text

lemma lines_of_not_mem {line : Str} (h : '\n' ∉ line) : lines line = [line] :=
  List.splitOn_eq_singleton h

lemma lines_ne_nil (text : Str) : lines text ≠ [] := List.splitOn_ne_nil '\n' text

end ConfigFile

end Utilmm
