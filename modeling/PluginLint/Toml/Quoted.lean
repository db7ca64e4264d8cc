import PluginLint.Text.Range
import PluginLint.Toml.Reader

/-!
# Quoted texts

Texts in double quotes know escapes, texts in single quotes do not. Three quotes open a text of
several lines; as many as two quotes may stand in front of the three that close it.
-/
namespace PluginLint.Toml

open Reader

/-- A character that may stand in a text or a comment. -/
def isPrintable (c : Char) : Bool :=
  Text.inRanges [(0x9, 0x9), (0x20, 0x7E)] c || 0x80 ≤ c.toNat

def isHexDigit (c : Char) : Bool :=
  c.isDigit || ('a' ≤ c && c ≤ 'f') || ('A' ≤ c && c ≤ 'F')

/-- The worth of a digit of any base. -/
def digitValue (c : Char) : Nat :=
  if c.isDigit then c.toNat - '0'.toNat else c.toLower.toNat - 'a'.toNat + 10

/-- The worth of digits. -/
def digitsValue (base : Nat) (digits : List Char) : Nat :=
  digits.foldl (fun n c => n * base + digitValue c) 0

/-- Blanks and tabs. -/
def isGap (c : Char) : Bool := c == ' ' || c == '\t'

def skipGap : Reader Unit := do
  let _ ← takeWhile isGap

/-- A line break, with or without a carriage return. -/
def newline : Reader Unit := do
  let _ ← skip? ['\r']
  char '\n'

/-- A character by its code. -/
def hexEscape (n : Nat) : Reader Char := do
  let code := digitsValue 16 (← takeExactly n isHexDigit)
  guard code.isValidChar
  return Char.ofNat code

/-- What follows a backslash. -/
def escape : Reader Char := do
  match ← satisfy fun _ => true with
  | 'b' => return '\x08'
  | 't' => return '\t'
  | 'n' => return '\n'
  | 'f' => return '\x0c'
  | 'r' => return '\r'
  | '"' => return '"'
  | '\\' => return '\\'
  | 'u' => hexEscape 4
  | 'U' => hexEscape 8
  | _ => failure

/-- A piece of a text on one line in double quotes. -/
def plainPiece : Reader (List Char) := do
  if ← skip? ['\\'] then
    return [← escape]
  else
    return [← satisfy fun c => isPrintable c && c != '"']

/-- A piece of a text on one line in single quotes. -/
def rawPiece : Reader (List Char) := do
  return [← satisfy fun c => isPrintable c && c != '\'']

/-- Blanks and line breaks behind a backslash that ends a line. -/
def skipLines : Reader Unit := do
  skipGap
  newline
  let _ ← many do
    match ← peek? with
    | some ' ' | some '\t' => let _ ← satisfy fun _ => true
    | _ => newline

/-- A piece of a text of several lines: a line break, a run of at most two quotes, or a piece of one
line. With escapes, a backslash at the end of a line swallows the break and the blanks after it. -/
def linesPiece (quote : Char) (piece : Reader (List Char)) (escapes : Bool) :
    Reader (List Char) := do
  match ← ahead with
  | '\n' :: _ | '\r' :: _ =>
    newline
    return ['\n']
  | '\\' :: _ =>
    if escapes then
      let swallowed ← optional? do
        char '\\'
        skipLines
      if swallowed.isSome then return [] else piece
    else piece
  | _ =>
    let run ← takeWhile (· == quote)
    if run.isEmpty then piece
    else
      guard (run.length ≤ 2)
      return run

/-- The quotes that close a text of several lines, with those in front of them. -/
def closeLines (quote : Char) : Reader (List Char) := do
  let run ← takeWhile (· == quote)
  guard (3 ≤ run.length && run.length ≤ 5)
  return run.drop 3

/-- A text behind its opening quote. -/
def oneLine (quote : Char) (piece : Reader (List Char)) : Reader (List Char) := do
  let pieces ← many piece
  char quote
  return pieces.flatten

/-- A text of several lines behind its opening quotes. A line break right there is not part of
it. -/
def severalLines (quote : Char) (piece : Reader (List Char)) (escapes : Bool) :
    Reader (List Char) := do
  let _ ← optional? newline
  let pieces ← many (linesPiece quote piece escapes)
  return pieces.flatten ++ (← closeLines quote)

/-- A text on one line. -/
def quotedLine : Reader String := do
  if ← skip? ['"'] then
    return .ofList (← oneLine '"' plainPiece)
  else
    char '\''
    return .ofList (← oneLine '\'' rawPiece)

/-- A text in any quotes. -/
def quoted : Reader String := do
  if ← skip? ['"', '"', '"'] then
    return .ofList (← severalLines '"' plainPiece true)
  else if ← skip? ['\'', '\'', '\''] then
    return .ofList (← severalLines '\'' rawPiece false)
  else
    quotedLine

end PluginLint.Toml
