import PluginLint.Syntax.Token
import PluginLint.Text.Numeral

/-!
# From text to tokens

A scanner moves a cursor over the characters of a file. What it has taken and what is still ahead
together always make up the text it started with, so no character can be lost.

Scanning stops short in one case only: an opening run of at least two `$` and `@` marks that is
followed by nothing, or by a character that takes more than one byte.
-/
namespace PluginLint

/-- Why a text cannot be read. -/
inductive Panic where
  /-- The marks of a string literal are followed by nothing, or by a character that is wider than
  one byte. -/
  | brokenString
  /-- A loop, or phrases inside one another, went on without end. -/
  | endless
  /-- A count of open brackets fell below zero. -/
  | belowZero
  /-- A token behind the last one was needed, or the end of the file was placed like any other. -/
  | pastEnd
  /-- A phrase was given up behind tokens that had been placed in it. -/
  | givenUp
  deriving DecidableEq, Repr

/-- A result that can be looked at was reached without a failure. -/
theorem eq_ok_of_toOption {ε α : Type} {x : Except ε α} {a : α} (h : x.toOption = some a) :
    x = .ok a := by
  cases x with
  | error e => cases h
  | ok b => rw [Option.some.inj h]

/-- The characters taken so far, newest first, and those still ahead. -/
structure Cursor where
  taken : List Char
  ahead : List Char
  deriving DecidableEq, Repr

namespace Cursor

def start (s : List Char) : Cursor := ⟨[], s⟩

/-- Everything the cursor stands on, in order. -/
def text (k : Cursor) : List Char := k.taken.reverse ++ k.ahead

/-- The characters taken, in order. -/
def lexeme (k : Cursor) : String := String.ofList k.taken.reverse

/-- Takes one character, if there is one. -/
def next (k : Cursor) : Cursor :=
  match k.ahead with
  | [] => k
  | c :: rest => ⟨c :: k.taken, rest⟩

/-- Takes up to `n` characters. -/
def skip : Nat → Cursor → Cursor
  | 0, k => k
  | n + 1, k => skip n k.next

/-- Takes characters as long as they belong to a class. -/
def skipWhile (p : Char → Bool) (k : Cursor) : Cursor :=
  ⟨(k.ahead.takeWhile p).reverse ++ k.taken, k.ahead.dropWhile p⟩

/-- Takes all there is. -/
def skipAll (k : Cursor) : Cursor := ⟨k.ahead.reverse ++ k.taken, []⟩

def startsWith (k : Cursor) (lit : String) : Bool := lit.toList.isPrefixOf k.ahead

@[simp] theorem text_start (s : List Char) : (start s).text = s := rfl

@[simp] theorem text_next (k : Cursor) : k.next.text = k.text := by
  unfold next; split <;> simp [text, *]

@[simp] theorem text_skip (n : Nat) (k : Cursor) : (skip n k).text = k.text := by
  induction n generalizing k with
  | zero => rfl
  | succ n ih => simp [skip, ih]

@[simp] theorem text_skipWhile (p : Char → Bool) (k : Cursor) :
    (k.skipWhile p).text = k.text := by
  simp [text, skipWhile]

@[simp] theorem text_skipAll (k : Cursor) : k.skipAll.text = k.text := by
  simp [text, skipAll]

end Cursor

namespace Lexer

/-- Reserved words by the letters they begin with. Words that are reserved only in some places are
identifiers. -/
def keywordsFrom : Char → List String
  | 'a' => ["abstract", "as"]
  | 'b' => ["base", "bool", "break", "byte"]
  | 'c' => ["case", "catch", "char", "checked", "class", "const", "continue"]
  | 'd' => ["decimal", "default", "delegate", "do", "double"]
  | 'e' => ["else", "enum", "event", "explicit", "extern"]
  | 'f' => ["false", "finally", "fixed", "float", "for", "foreach"]
  | 'g' => ["goto"]
  | 'i' => ["if", "implicit", "in", "int", "interface", "internal", "is"]
  | 'l' => ["lock", "long"]
  | 'n' => ["namespace", "new", "null"]
  | 'o' => ["object", "operator", "out", "override"]
  | 'p' => ["params", "private", "protected", "public"]
  | 'r' => ["readonly", "ref", "return"]
  | 's' =>
    ["sbyte", "sealed", "short", "sizeof", "stackalloc", "static", "string", "struct", "switch"]
  | 't' => ["this", "throw", "true", "try", "typeof"]
  | 'u' => ["uint", "ulong", "unchecked", "unsafe", "ushort", "using"]
  | 'v' => ["virtual", "void", "volatile"]
  | 'w' => ["while"]
  | _ => []

/-- All reserved words. -/
def keywords : List String := "abcdefgilnoprstuvw".toList.flatMap keywordsFrom

/-- The word is looked for among those that begin with the same letter. -/
def isKeyword (word : String) : Bool :=
  (word.toUTF8.data.toList.head?.map Char.ofUInt8).any fun c => (keywordsFrom c).contains word

theorem isKeyword_eq_contains (word : String) : isKeyword word = keywords.contains word := by
  rw [Bool.eq_iff_iff, List.contains_iff_mem]
  constructor
  · intro h
    obtain ⟨c, -, hc⟩ := (Option.any_eq_true _ _).1 h
    have hmem : word ∈ keywordsFrom c := List.contains_iff_mem.1 hc
    refine List.mem_flatMap.2 ⟨c, ?_, hmem⟩
    unfold keywordsFrom at hmem
    split at hmem
    case h_19 => cases hmem
    all_goals decide
  · have hall : ∀ w ∈ keywords, isKeyword w = true := by decide +kernel
    exact hall word

/-- Punctuation of more than one character; the first that fits is taken. Two `>` are never joined
here, so that nested type arguments can close one at a time. -/
def punctuators : List String :=
  ["<<=", "??=", "...", "->", "=>", "==", "!=", "<=", ">=", "&&", "||", "++", "--", "+=", "-=",
   "*=", "/=", "%=", "&=", "|=", "^=", "<<", "??", "?.", "::", ".."]

def isPunct (c : Char) : Bool := "\x7b\x7d()[];,.:?=<>+-*/%&|^!~".toList.contains c

def isWordStart (c : Char) : Bool := c == '_' || Text.isLetter c

def isWordPart (c : Char) : Bool := c == '_' || Text.isWordChar c

def isSigil (c : Char) : Bool := c == '$' || c == '@'

def isHexDigit (c : Char) : Bool :=
  c.isDigit || ('a' ≤ c && c ≤ 'f') || ('A' ≤ c && c ≤ 'F')

/-! ### Trivia -/

def isSpace (c : Char) : Bool := c == ' ' || c == '\t' || c == '\ufeff' || c == '\x0c'

def isInLine (c : Char) : Bool := c != '\r' && c != '\n'

/-- Only blanks and tabs stand between the last line feed and here. `behind` is the text before,
newest first. -/
def atLineStart (behind : List Char) : Bool :=
  (behind.takeWhile (· != '\n')).all fun c => c == ' ' || c == '\t'

/-- Takes up to and including the next `*/`, or all there is. -/
def blockComment (k : Cursor) : Cursor :=
  go k.taken k.ahead
where
  go (taken : List Char) : List Char → Cursor
    | [] => ⟨taken, []⟩
    | '*' :: '/' :: rest => ⟨'/' :: '*' :: taken, rest⟩
    | c :: rest => go (c :: taken) rest

/-- The piece of trivia ahead, if there is one. -/
def triviaPiece (trailing : Bool) (behind : List Char) (k : Cursor) :
    Option (TriviaKind × Cursor) :=
  match k.ahead with
  | [] => none
  | c :: _ =>
    if isSpace c then some (.whitespace, k.skipWhile isSpace)
    else if k.startsWith "\r\n" then some (.endOfLine, k.skip 2)
    else if c == '\r' || c == '\n' then some (.endOfLine, k.next)
    else if k.startsWith "///" && !k.startsWith "////" then
      some (.docComment, k.skipWhile isInLine)
    else if k.startsWith "//" then some (.lineComment, k.skipWhile isInLine)
    else if k.startsWith "/*" then some (.blockComment, blockComment (k.skip 2))
    else if c == '#' && !trailing && atLineStart behind then
      some (.directive, k.skipWhile isInLine)
    else none

/-- A place in a file: the text before it, newest first, and the text after it. -/
structure Place where
  behind : List Char
  ahead : List Char

/-- The run of trivia ahead; a trailing run ends with its first line break. -/
def trivia (trailing : Bool) : Nat → Place → List Trivia × Place
  | 0, p => ([], p)
  | fuel + 1, p =>
    match triviaPiece trailing p.behind (.start p.ahead) with
    | none => ([], p)
    | some (kind, k) =>
      let piece : Trivia := ⟨kind, k.lexeme⟩
      let p' : Place := ⟨k.taken ++ p.behind, k.ahead⟩
      if trailing && kind == .endOfLine then ([piece], p')
      else
        let (pieces, q) := trivia trailing fuel p'
        (piece :: pieces, q)

/-! ### Literals -/

def isDigitOrBar (c : Char) : Bool := c.isDigit || c == '_'

/-- An exponent, if a digit follows the mark and the optional sign. -/
def exponent (k : Cursor) : Cursor :=
  match k.ahead with
  | 'e' :: rest | 'E' :: rest =>
    match rest with
    | '+' :: d :: _ | '-' :: d :: _ =>
      if d.isDigit then (k.skip 2).skipWhile Char.isDigit else k
    | d :: _ => if d.isDigit then k.next.skipWhile Char.isDigit else k
    | [] => k
  | _ => k

/-- A fraction, if a digit follows the point. -/
def fraction (k : Cursor) : Cursor :=
  match k.ahead with
  | '.' :: d :: _ => if d.isDigit then k.next.skipWhile isDigitOrBar else k
  | _ => k

def isNumberSuffix (c : Char) : Bool := "uUlLfFdDmM".toList.contains c

def number (k : Cursor) : Cursor :=
  let body :=
    if k.startsWith "0x" || k.startsWith "0X" then
      (k.skip 2).skipWhile fun c => isHexDigit c || c == '_'
    else if k.startsWith "0b" || k.startsWith "0B" then
      (k.skip 2).skipWhile fun c => c == '0' || c == '1' || c == '_'
    else exponent (fraction (k.skipWhile isDigitOrBar))
  body.skipWhile isNumberSuffix

/-- A character literal, up to its closing quote, a line feed or the end. -/
def charLiteral (k : Cursor) : Cursor :=
  go k.next.taken k.next.ahead
where
  go (taken : List Char) : List Char → Cursor
    | [] => ⟨taken, []⟩
    | ['\\'] => ⟨'\\' :: taken, []⟩
    | '\\' :: c :: rest => go (c :: '\\' :: taken) rest
    | c :: rest =>
      if c == '\'' || c == '\n' then ⟨c :: taken, rest⟩ else go (c :: taken) rest

/-- How the text of a string literal is read. -/
inductive StringForm where
  /-- Between runs of `quotes` double quotes, with nothing escaped. -/
  | raw (quotes : Nat)
  /-- Between single double quotes. -/
  | quoted (verbatim interpolated : Bool)
  deriving DecidableEq, Repr

/-- The marks in front of a string literal say how it is read. -/
def stringForm (s : List Char) : StringForm :=
  let marks := s.takeWhile isSigil
  let quotes := ((s.dropWhile isSigil).takeWhile (· == '"')).length
  if 3 ≤ quotes then .raw quotes else .quoted (marks.contains '@') (marks.contains '$')

/-- Takes the marks and the opening quotes of a string literal. -/
def openString (k : Cursor) : Cursor :=
  let k' := k.skipWhile isSigil
  match stringForm k.ahead with
  | .raw n => k'.skip n
  | .quoted _ _ => k'.next

/-- Takes all up to the first run of at least `n` double quotes, and that run. -/
def rawBody (n : Nat) (k : Cursor) : Cursor :=
  go k.taken k.ahead
where
  go (taken : List Char) : List Char → Cursor
    | [] => ⟨taken, []⟩
    | c :: rest =>
      if (List.replicate n '"').isPrefixOf (c :: rest) then
        Cursor.skipWhile (· == '"') ⟨taken, c :: rest⟩
      else go (c :: taken) rest

/-- The marks of an encoding after a literal. -/
def encodingMark (k : Cursor) : Cursor :=
  if k.startsWith "u8" || k.startsWith "U8" then k.skip 2 else k

/-- A string literal starts here inside an interpolation. -/
def startsString (k : Cursor) : Bool :=
  k.startsWith "\"" || k.startsWith "@\"" || k.startsWith "$\"" || k.startsWith "$@\"" ||
    k.startsWith "@$\""

/- The body of a quoted literal and the interpolations in it. -/
mutual

/-- Takes the body of a quoted literal and its closing quote. A line feed ends it too, unless it is
verbatim. -/
def quotedBody (verbatim interpolated : Bool) : Nat → Cursor → Cursor
  | 0, k => k
  | fuel + 1, k =>
    match k.ahead with
    | [] => k
    | '"' :: '"' :: _ =>
      if verbatim then quotedBody verbatim interpolated fuel (k.skip 2) else k.next
    | '"' :: _ => k.next
    | '\\' :: _ =>
      quotedBody verbatim interpolated fuel (if verbatim then k.next else k.skip 2)
    | '\n' :: _ => if verbatim then quotedBody verbatim interpolated fuel k.next else k
    | '{' :: '{' :: _ =>
      quotedBody verbatim interpolated fuel (if interpolated then k.skip 2 else k.next)
    | '{' :: _ =>
      if interpolated then
        quotedBody verbatim interpolated fuel (interpolation 0 fuel k.next)
      else quotedBody verbatim interpolated fuel k.next
    | _ :: _ => quotedBody verbatim interpolated fuel k.next

/-- Takes an interpolation up to its closing brace, over nested brackets and literals. A line feed
outside all brackets ends it too. -/
def interpolation (depth : Nat) : Nat → Cursor → Cursor
  | 0, k => k
  | fuel + 1, k =>
    match k.ahead with
    | [] => k
    | c :: _ =>
      if c == '{' || c == '(' || c == '[' then interpolation (depth + 1) fuel k.next
      else if c == ')' || c == ']' then interpolation (depth - 1) fuel k.next
      else if c == '}' then
        if depth == 0 then k.next else interpolation (depth - 1) fuel k.next
      else if startsString k then
        let body :=
          match stringForm k.ahead with
          | .raw n => rawBody n (openString k)
          | .quoted v i => quotedBody v i fuel (openString k)
        interpolation depth fuel (encodingMark body)
      else if c == '\'' then interpolation depth fuel (charLiteral k)
      else if c == '\n' && depth == 0 then k
      else interpolation depth fuel k.next

end

/-- Takes a string literal. -/
def stringLiteral (fuel : Nat) (k : Cursor) : Cursor :=
  let body :=
    match stringForm k.ahead with
    | .raw n => rawBody n (openString k)
    | .quoted v i => quotedBody v i fuel (openString k)
  encodingMark body

def stringKind (s : List Char) : TokenKind :=
  if (s.takeWhile isSigil).contains '$' then .interpolatedString else .stringLiteral

/-! ### Tokens -/

/-- Why a text has no tokens. -/
abbrev Error := Panic

/-- The marks ahead are followed by nothing, or by a character wider than one byte. -/
def isBrokenString (s : List Char) : Bool :=
  match s.dropWhile isSigil with
  | [] => true
  | c :: _ => 128 ≤ c.toNat

/-- A string literal, or what is read as one, starts here. -/
def opensString : List Char → Bool
  | '"' :: _ => true
  | '@' :: c :: _ => c == '"' || c == '$'
  | '$' :: c :: _ => c == '"' || c == '@' || c == '$'
  | _ => false

def startsNumber : List Char → Bool
  | '.' :: d :: _ => d.isDigit
  | c :: _ => c.isDigit
  | [] => false

/-- The token ahead: its kind, and the cursor after it. -/
def token (fuel : Nat) (s : List Char) : Except Error (TokenKind × Cursor) :=
  let k := Cursor.start s
  if opensString s then
    if isBrokenString s then .error .brokenString
    else .ok (stringKind s, stringLiteral fuel k)
  else
    match s with
    | [] => .ok (.endOfFile, k)
    | c :: rest =>
      if c == '\'' then .ok (.charLiteral, charLiteral k)
      else if c == '@' && rest.head?.any isWordStart then
        .ok (.identifier, k.next.skipWhile isWordPart)
      else if isWordStart c then
        let k' := k.skipWhile isWordPart
        .ok (if isKeyword k'.lexeme then .keyword else .identifier, k')
      else if startsNumber s then .ok (.numericLiteral, number k)
      else
        match punctuators.find? k.startsWith with
        | some p => .ok (.punct, k.skip p.length)
        | none => .ok (if isPunct c then .punct else .unknown, k.next)

/-- The tokens from a place on. -/
def tokensFrom : Nat → Place → Except Error (List Token)
  | 0, _ => .ok [.endOfFile []]
  | fuel + 1, p => do
    let (leading, p₁) := trivia false (fuel + 1) p
    if p₁.ahead.isEmpty then return [.endOfFile leading]
    let (kind, k) ← token (fuel + 1) p₁.ahead
    let (trailing, p₂) := trivia true (fuel + 1) ⟨k.taken ++ p₁.behind, k.ahead⟩
    let rest ← tokensFrom fuel p₂
    return ⟨kind, k.lexeme, leading, trailing⟩ :: rest

/-- The tokens of a file. The last one, and no other, is the end of the file. -/
def tokenize (source : String) : Except Error (List Token) :=
  let s := source.toList
  tokensFrom (s.length + 1) ⟨[], s⟩

/-- A text that is given by its characters is scanned as it stands, without taking it apart. -/
theorem tokenize_ofList (s : List Char) :
    tokenize (String.ofList s) = tokensFrom (s.length + 1) ⟨[], s⟩ := by
  rw [tokenize, String.toList_ofList]

end Lexer

end PluginLint
