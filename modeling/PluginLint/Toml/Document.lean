import PluginLint.Toml.Number

/-!
# Configuration texts

A text is a table: fields, and then sections, each under a heading that says which table its fields
belong to.
-/
namespace PluginLint.Toml

open Reader

/-- So deep may brackets and braces be nested, and so many words may a dotted key have. -/
def depthLimit : Nat := 79

def isKeyChar (c : Char) : Bool := c.isAlphanum || c == '-' || c == '_'

/-- One word of a key. -/
def keyWord : Reader String := do
  match ← peek? with
  | some '"' | some '\'' => quotedLine
  | _ =>
    let name ← takeWhile isKeyChar
    guard (!name.isEmpty)
    return .ofList name

/-- A word with blanks around it. -/
def spacedWord : Reader String := do
  skipGap
  let word ← keyWord
  skipGap
  return word

/-- A dotted key: the words in front, and the last. -/
def key : Reader (List String × String) := do
  let first ← spacedWord
  let more ← many do
    char '.'
    spacedWord
  guard (more.length + 1 ≤ depthLimit)
  let words := first :: more
  return (words.dropLast, words.getLast?.getD first)

/-- A comment up to the end of the line. -/
def comment : Reader Unit := do
  char '#'
  let _ ← takeWhile isPrintable

/-- Blanks, comments and line breaks between the items of a list. -/
def skipBetween : Reader Unit := do
  let _ ← many do
    let gap ← takeWhile isGap
    match ← peek? with
    | some '#' =>
      comment
      newline
    | some '\n' | some '\r' => newline
    | _ => guard (!gap.isEmpty)

/-- The items of a list behind its bracket. The last may have a comma behind it. -/
def listItems (item : Reader Value) : Reader (List Value) := do
  let spaced : Reader Value := do
    skipBetween
    let v ← item
    skipBetween
    return v
  let first? ← optional? spaced
  let items ← match first? with
    | none => pure []
    | some first => do
      let more ← many do
        char ','
        spaced
      let _ ← skip? [',']
      pure (first :: more)
  skipBetween
  char ']'
  return items

/-- A key and its value. -/
def entry (item : Reader Value) : Reader (List String × String × Value) := do
  let (path, last) ← key
  char '='
  skipGap
  return (path, last, ← item)

/-- The fields of a table behind its brace. -/
def braceFields (item : Reader Value) : Reader Fields := do
  let spaced : Reader (List String × String × Value) := do
    let e ← entry item
    skipGap
    return e
  let entries ← match ← optional? spaced with
    | none => pure []
    | some first => do
      let more ← many do
        char ','
        spaced
      pure (first :: more)
  skipGap
  char '\x7d'
  Fields.insertAll [] entries

/-- A value without further values in it. -/
def scalar : Reader Value := do
  match ← peek? with
  | some '"' | some '\'' => return .text (← quoted)
  | some 't' =>
    word ['t', 'r', 'u', 'e']
    return .boolean true
  | some 'f' =>
    word ['f', 'a', 'l', 's', 'e']
    return .boolean false
  | _ => number

/-- A value with at most so many levels of brackets and braces. -/
def value : Nat → Reader Value
  | 0 => scalar
  | depth + 1 => do
    if ← skip? ['['] then
      return .list (← listItems (value depth))
    else if ← skip? ['\x7b'] then
      return .table .braces (← braceFields (value depth))
    else
      scalar

/-- What the fields after a heading belong to. -/
inductive Heading where
  | table (path : List String) (name : String)
  /-- One more table of a list of tables. -/
  | row (path : List String) (name : String)
  deriving DecidableEq, Repr

def heading : Reader Heading := do
  if ← skip? ['[', '['] then
    let (path, name) ← key
    word [']', ']']
    return .row path name
  else
    char '['
    let (path, name) ← key
    char ']'
    return .table path name

/-- The end of a line: a comment perhaps, and a line break or the end of the text. -/
def lineEnd : Reader Unit := do
  skipGap
  if (← peek?) == some '#' then comment
  match ← peek? with
  | none => pure ()
  | some _ => newline

/-- Something on a line of its own. -/
inductive Line where
  | blank
  | heading (h : Heading)
  | entry (path : List String) (key : String) (value : Value)

/-- A line. -/
def line : Reader Line := do
  skipGap
  match ← peek? with
  | none => failure
  | some '#' | some '\n' | some '\r' =>
    lineEnd
    return .blank
  | some '[' =>
    let h ← heading
    lineEnd
    return .heading h
  | some _ =>
    let (path, name, v) ← entry (value depthLimit)
    lineEnd
    return .entry path name v

/-- The lines of a text behind its byte order mark. -/
def lines : Reader (List Line) := do
  let _ ← skip? ['\uFEFF']
  let all ← many line
  skipGap
  return all

/-- The fields up to the next heading. -/
def leadingEntries : List Line → List (List String × String × Value)
  | .entry path name v :: rest => (path, name, v) :: leadingEntries rest
  | .blank :: rest => leadingEntries rest
  | .heading _ :: _ | [] => []

/-- The fields of a section put into their table. The table of a heading must be new or merely
implied; a row is added to a list of rows, or begins one. -/
def addSection (h : Heading) (entries : List (List String × String × Value)) (fields : Fields) :
    Option Fields :=
  match h with
  | .table path name =>
    Fields.change .implied (fun _ inner => do
        let existing : Fields ← match inner.find? name with
          | none => some []
          | some (.table .implied there) => some there
          | some _ => none
        return inner.set name (.table .heading (← Fields.insertAll existing entries)))
      path .heading fields
  | .row path name =>
    Fields.change .implied (fun _ inner => do
        let rows ← match inner.find? name with
          | none => some []
          | some (.tables rows) => some rows
          | some _ => none
        return inner.set name (.tables (rows ++ [← Fields.insertAll [] entries])))
      path .heading fields

/-- The sections of a text one after the other. -/
def addSections : List Line → Fields → Option Fields
  | [], fields => some fields
  | .heading h :: rest, fields => do
    addSections rest (← addSection h (leadingEntries rest) fields)
  | _ :: rest, fields => addSections rest fields

/-- The table that a text describes. -/
def parse? (s : String) : Option Fields := do
  let all ← lines.run? s.toList
  addSections all (← Fields.insertAll [] (leadingEntries all))

end PluginLint.Toml
