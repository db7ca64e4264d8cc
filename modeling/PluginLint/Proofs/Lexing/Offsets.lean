import PluginLint.Syntax.Lexer
import PluginLint.Text.Bytes

/-!
# Scanning by offsets

A second way to read tokens. Here the scanner knows only the whole text and an offset in bytes. It
looks at what is ahead by cutting the text at the offset, which is possible only between two
characters, and it moves by adding to the offset, which is always possible. So a wrong step is not
noticed when it is made, but when the text is next looked at.

Rounds of a loop are counted, because nothing else says that a loop ends: it is a theorem that an
offset grows.
-/
namespace PluginLint.Lexer.ByOffset

/-- Why there are no tokens. -/
inductive Fault where
  /-- The text was to be cut at an offset that is inside a character or past the end. -/
  | outside
  /-- A loop has used up its rounds. -/
  | unfinished
  deriving DecidableEq, Repr

/-- The offset, and all offsets up to now, newest first. -/
structure Head where
  pos : Nat
  visited : List Nat
  deriving DecidableEq, Repr

abbrev Scan := StateT Head (Except Fault)

/-- The offset in bytes of the first place where `lit`, which is not empty, stands. -/
def find? (lit : List Char) : List Char → Option Nat
  | [] => none
  | c :: rest =>
    if lit.isPrefixOf (c :: rest) then some 0 else (find? lit rest).map (c.utf8Size + ·)

/-! ### Moving -/

def here : Scan Nat := do return (← get).pos

def moveTo (o : Nat) : Scan Unit := modify fun h => ⟨o, o :: h.visited⟩

/-- Adds to the offset, whatever stands there. -/
def advance (n : Nat) : Scan Unit := do moveTo ((← here) + n)

section

variable (s : List Char)

def moveToEnd : Scan Unit := moveTo (Text.byteLength s)

def atEnd : Scan Bool := do return Text.byteLength s ≤ (← here)

/-! ### Looking -/

/-- The part of a text that was cut out, if the cut was possible. -/
def found : Option α → Scan α
  | some part => return part
  | none => throw .outside

/-- The text from the offset on. -/
def rest : Scan (List Char) := do found (Text.dropBytes? (← here) s)

/-- The text up to the offset. -/
def before : Scan (List Char) := do found (Text.takeBytes? (← here) s)

/-- The text from an earlier offset on. -/
def take (start : Nat) : Scan String := do found (Text.slice? (String.ofList s) start (← here))

def peek : Scan (Option Char) := do return (← rest s).head?

def peekAt (n : Nat) : Scan (Option Char) := do return (← rest s)[n]?

def startsWith (lit : String) : Scan Bool := do return lit.toList.isPrefixOf (← rest s)

/-- How many double quotes are ahead. -/
def countQuotes : Scan Nat := do return ((← rest s).takeWhile (· == '"')).length

/-- Moves over one character, if there is one. -/
def bump : Scan (Option Char) := do
  match ← peek s with
  | none => return none
  | some c =>
    advance c.utf8Size
    return some c

def eatWhile (p : Char → Bool) : Nat → Scan Unit
  | 0 => throw .unfinished
  | fuel + 1 => do
    if (← peek s).any p then
      let _ ← bump s
      eatWhile p fuel

/-! ### Trivia -/

def lineBreak : Scan Unit := do
  if ← startsWith s "\r\n" then advance 2 else advance 1

def blockComment : Scan Unit := do
  advance 2
  match find? ['*', '/'] (← rest s) with
  | some n => advance (n + 2)
  | none => moveToEnd s

/-- Moves over a piece of trivia, if there is one. -/
def triviaPiece (trailing : Bool) (fuel : Nat) : Scan (Option TriviaKind) := do
  match ← peek s with
  | none => return none
  | some c =>
    if isSpace c then
      eatWhile s isSpace fuel
      return some .whitespace
    else if c == '\r' || c == '\n' then
      lineBreak s
      return some .endOfLine
    else if (← startsWith s "///") && !(← startsWith s "////") then
      eatWhile s isInLine fuel
      return some .docComment
    else if ← startsWith s "//" then
      eatWhile s isInLine fuel
      return some .lineComment
    else if ← startsWith s "/*" then
      blockComment s
      return some .blockComment
    else if c == '#' && !trailing then
      if atLineStart (← before s).reverse then
        eatWhile s isInLine fuel
        return some .directive
      else return none
    else return none

def trivia (trailing : Bool) : Nat → Scan (List Trivia)
  | 0 => throw .unfinished
  | fuel + 1 => do
    let start ← here
    match ← triviaPiece s trailing (fuel + 1) with
    | none => return []
    | some kind =>
      let piece : Trivia := ⟨kind, ← take s start⟩
      if trailing && kind == .endOfLine then return [piece]
      else return piece :: (← trivia trailing fuel)

/-! ### Literals -/

def fraction (fuel : Nat) : Scan Unit := do
  if (← peek s) == some '.' && (← peekAt s 1).any Char.isDigit then
    advance 1
    eatWhile s isDigitOrBar fuel

def exponent (fuel : Nat) : Scan Unit := do
  if (← peek s).any fun c => c == 'e' || c == 'E' then
    let sign ← peekAt s 1
    let digitAt := if sign.any fun c => c == '+' || c == '-' then 2 else 1
    if (← peekAt s digitAt).any Char.isDigit then
      advance digitAt
      eatWhile s Char.isDigit fuel

def digits (fuel : Nat) : Scan Unit := do
  if (← startsWith s "0x") || (← startsWith s "0X") then
    advance 2
    eatWhile s (fun c => isHexDigit c || c == '_') fuel
  else if (← startsWith s "0b") || (← startsWith s "0B") then
    advance 2
    eatWhile s (fun c => c == '0' || c == '1' || c == '_') fuel
  else
    eatWhile s isDigitOrBar fuel
    fraction s fuel
    exponent s fuel

def number (fuel : Nat) : Scan Unit := do
  digits s fuel
  eatWhile s isNumberSuffix fuel

def charBody : Nat → Scan Unit
  | 0 => throw .unfinished
  | fuel + 1 => do
    match ← bump s with
    | none => return
    | some c =>
      if c == '\\' then
        let _ ← bump s
        charBody fuel
      else if c == '\'' || c == '\n' then return
      else charBody fuel

def charLiteral (fuel : Nat) : Scan Unit := do
  advance 1
  charBody s fuel

def rawString (quotes : Nat) : Scan Unit := do
  advance quotes
  match find? (List.replicate quotes '"') (← rest s) with
  | some n =>
    advance n
    advance (← countQuotes s)
  | none => moveToEnd s

/-- Moves over the marks in front of a string literal and collects them. Each is taken to be one
byte wide. -/
def sigils : Nat → Scan (List Char)
  | 0 => throw .unfinished
  | fuel + 1 => do
    match ← peek s with
    | none => return []
    | some c =>
      if isSigil c then
        advance 1
        return c :: (← sigils fuel)
      else return []

/-- The quotes of a string literal and what is between them, with a reader for a text that is not
raw. The quote that opens such a text is not looked for, but taken to be there. -/
def quoted (marks : List Char) (body : Bool → Bool → Scan Unit) : Scan Unit := do
  let quotes ← countQuotes s
  if 3 ≤ quotes then rawString s quotes
  else
    advance 1
    body (marks.contains '@') (marks.contains '$')

def encodingMark : Scan Unit := do
  if (← startsWith s "u8") || (← startsWith s "U8") then advance 2

def stringLike (fuel : Nat) (body : Bool → Bool → Scan Unit) : Scan TokenKind := do
  let marks ← sigils s fuel
  quoted s marks body
  encodingMark s
  return if marks.contains '$' then .interpolatedString else .stringLiteral

def startsString : Scan Bool := do
  return (← startsWith s "\"") || (← startsWith s "@\"") || (← startsWith s "$\"") ||
    (← startsWith s "$@\"") || (← startsWith s "@$\"")

mutual

def quotedBody (verbatim interpolated : Bool) : Nat → Scan Unit
  | 0 => throw .unfinished
  | fuel + 1 => do
    match ← peek s with
    | none => return
    | some c =>
      if c == '"' && verbatim && (← peekAt s 1) == some '"' then
        advance 2
        quotedBody verbatim interpolated fuel
      else if c == '"' then advance 1
      else if c == '\\' && !verbatim then
        advance 1
        let _ ← bump s
        quotedBody verbatim interpolated fuel
      else if c == '\n' && !verbatim then return
      else if c == '\x7b' && interpolated then
        if (← peekAt s 1) == some '\x7b' then
          advance 2
          quotedBody verbatim interpolated fuel
        else
          advance 1
          interpolation 0 fuel
          quotedBody verbatim interpolated fuel
      else
        let _ ← bump s
        quotedBody verbatim interpolated fuel

def interpolation (depth : Nat) : Nat → Scan Unit
  | 0 => throw .unfinished
  | fuel + 1 => do
    match ← peek s with
    | none => return
    | some c =>
      if c == '\x7b' || c == '(' || c == '[' then
        advance 1
        interpolation (depth + 1) fuel
      else if c == ')' || c == ']' then
        advance 1
        interpolation (depth - 1) fuel
      else if c == '\x7d' then
        advance 1
        if depth == 0 then return else interpolation (depth - 1) fuel
      else if (c == '"' || c == '$' || c == '@') && (← startsString s) then
        let _ ← stringLike s (fuel + 1) fun v i => quotedBody v i fuel
        interpolation depth fuel
      else if c == '\'' then
        charLiteral s (fuel + 1)
        interpolation depth fuel
      else if c == '\n' && depth == 0 then return
      else
        let _ ← bump s
        interpolation depth fuel

end

/-! ### Tokens -/

/-- Moves over a token and tells its kind. -/
def tokenKind (fuel : Nat) (c : Char) : Scan TokenKind := do
  let start ← here
  let next? ← peekAt s 1
  if c == '"' || (c == '@' && next?.any fun d => d == '"' || d == '$') ||
      (c == '$' && next?.any fun d => d == '"' || d == '@' || d == '$') then
    stringLike s fuel fun v i => quotedBody s v i fuel
  else if c == '\'' then
    charLiteral s fuel
    return .charLiteral
  else if c == '@' && next?.any isWordStart then
    advance 1
    eatWhile s isWordPart fuel
    return .identifier
  else if isWordStart c then
    eatWhile s isWordPart fuel
    return if keywords.contains (← take s start) then .keyword else .identifier
  else if c.isDigit || (c == '.' && next?.any Char.isDigit) then
    number s fuel
    return .numericLiteral
  else
    let r ← rest s
    match punctuators.find? fun p => p.toList.isPrefixOf r with
    | some p =>
      advance p.utf8ByteSize
      return .punct
    | none =>
      if isPunct c then
        advance 1
        return .punct
      else
        let _ ← bump s
        return .unknown

def token (fuel : Nat) : Scan (TokenKind × String) := do
  let start ← here
  match ← peek s with
  | none => return (.endOfFile, "")
  | some c =>
    let kind ← tokenKind s fuel c
    return (kind, ← take s start)

def tokensFrom : Nat → Scan (List Token)
  | 0 => throw .unfinished
  | fuel + 1 => do
    let leading ← trivia s false (fuel + 1)
    if ← atEnd s then return [.endOfFile leading]
    let (kind, text) ← token s (fuel + 1)
    let trailing ← trivia s true (fuel + 1)
    return ⟨kind, text, leading, trailing⟩ :: (← tokensFrom fuel)

/-- The tokens of a text and the offsets on the way, if the rounds suffice. -/
def tokenize (rounds : Nat) : Except Fault (List Token × Head) := tokensFrom s rounds ⟨0, [0]⟩

end

end PluginLint.Lexer.ByOffset
