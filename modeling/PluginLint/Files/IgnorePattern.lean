import PluginLint.Files.Path

/-!
# Patterns of ignore files

These patterns look at the bytes of a path. A star stays within one part of the path; two stars that
are a whole part stand for any number of parts; braces hold alternatives.
-/
namespace PluginLint.Files

/-- A piece of a pattern. -/
inductive IgnoreToken where
  | literal (c : Char)
  /-- One byte that is no slash. -/
  | anyByte
  /-- Bytes that are no slashes. -/
  | anyName
  /-- Nothing, or folders up to a slash. -/
  | leadingFolders
  /-- A slash and anything. -/
  | trailing
  /-- A slash, or a slash, folders and a slash. -/
  | betweenFolders
  /-- A byte of the characters in the ranges, or another one. -/
  | oneOf (negated : Bool) (ranges : List (Char × Char))
  /-- One of several patterns; nothing at all if there are none. -/
  | alternatives (branches : List (List IgnoreToken))
  deriving Repr

/-- Why a text is no pattern. -/
inductive IgnorePatternError where
  | badRange (low high : Char)
  | unopenedBrace
  | unclosedBrace
  | danglingEscape
  deriving DecidableEq, Repr

namespace IgnorePatternError

def message : IgnorePatternError → String
  | .badRange low high => "invalid range; " ++ low.toString ++ " > " ++ high.toString
  | .unopenedBrace =>
    "unopened alternate group; missing '\x7b' (maybe escape '\x7d' with '[\x7d]'?)"
  | .unclosedBrace =>
    "unclosed alternate group; missing '\x7d' (maybe escape '\x7b' with '[\x7b]'?)"
  | .danglingEscape => "dangling '\\'"

end IgnorePatternError

namespace IgnorePattern

/-! ### Reading -/

/-- The text in front of an opening brace and the alternatives that are complete, newest first. -/
structure OpenBrace where
  outer : List IgnoreToken
  branches : List (List IgnoreToken)

/-- What has been read. -/
structure State where
  /-- The tokens of the current alternative, newest first. -/
  current : List IgnoreToken := []
  /-- The open braces, innermost first. -/
  braces : List OpenBrace := []
  /-- The character before the current one. -/
  previous? : Option Char := none
  /-- A bracket without its partner was met; further brackets are plain characters. -/
  plainBrackets : Bool := false

namespace State

def push (s : State) (token : IgnoreToken) : State := { s with current := token :: s.current }

def openBrace (s : State) : State :=
  { s with current := [], braces := ⟨s.current, []⟩ :: s.braces }

/-- A comma separates alternatives; outside of braces it is a plain character. -/
def comma (s : State) : State :=
  match s.braces with
  | [] => s.push (.literal ',')
  | b :: braces => { s with current := [], braces := ⟨b.outer, s.current :: b.branches⟩ :: braces }

/-- Only nothing fits the tokens, since all of them are braces without alternatives. -/
def isVoid (tokens : List IgnoreToken) : Bool :=
  tokens.all fun
    | .alternatives [] => true
    | _ => false

/-- Alternatives that only nothing fits are dropped. -/
def closeBrace (s : State) : Except IgnorePatternError State :=
  match s.braces with
  | [] => .error .unopenedBrace
  | b :: braces =>
    let branches := ((s.current :: b.branches).reverse.map List.reverse).filter fun t => !isVoid t
    .ok { s with current := .alternatives branches :: b.outer, braces }

/-- Two stars. They are a whole part of the path if they follow a slash, or begin the pattern or an
alternative, and a slash or the end follows; otherwise they are two single stars. -/
def stars (s : State) (rest : List Char) : State × List Char :=
  let single := ((s.push .anyName).push .anyName, rest)
  match s.current with
  | [] =>
    match rest with
    | [] => (s.push .leadingFolders, [])
    | c :: after => if c == '/' then (s.push .leadingFolders, after) else single
  | last :: before =>
    let inBraces := !s.braces.isEmpty
    let whole := s.previous? == some '/' ||
      (inBraces && (s.previous? == some ',' || s.previous? == some '\x7b'))
    if !whole then single
    else
      let put (token : IgnoreToken) : State :=
        match last with
        | .leadingFolders | .trailing => s
        | _ => { s with current := token :: before }
      match rest with
      | [] => (put .trailing, [])
      | c :: after =>
        if inBraces && (c == ',' || c == '\x7d') then (put .trailing, rest)
        else if c == '/' then (put .betweenFolders, after)
        else single

end State

/-- The ranges of a class up to its closing bracket, newest first, and what follows. There is no
class without the closing bracket. A dash between two characters makes a range of them. -/
def classRanges (first inRange : Bool) (found : List (Char × Char)) :
    List Char → Except IgnorePatternError (Option (List (Char × Char) × List Char))
  | [] => .ok none
  | c :: s =>
    if c == ']' && !first then
      .ok (some (if inRange then ('-', '-') :: found else found, s))
    else if c == '-' && !first && !inRange then classRanges false true found s
    else
      match inRange, found with
      | true, (low, _) :: before =>
        if c < low then .error (.badRange low c)
        else classRanges false false ((low, c) :: before) s
      | _, _ => classRanges false false ((c, c) :: found) s

/-- A class behind its opening bracket, and what follows. -/
def charClass (s : List Char) : Except IgnorePatternError (Option (IgnoreToken × List Char)) := do
  let (negated, body) := match s with
    | '!' :: body | '^' :: body => (true, body)
    | _ => (false, s)
  match ← classRanges true false [] body with
  | none => return none
  | some (ranges, rest) => return some (.oneOf negated ranges.reverse, rest)

/-- The last character that was taken to get from one text to the rest of it. -/
def lastTaken (s rest : List Char) : Option Char := (s.take (s.length - rest.length)).getLast?

/-- One step: takes at least one character. -/
def step (state : State) (c : Char) (s : List Char) :
    Except IgnorePatternError (State × List Char) :=
  match c with
  | '?' => .ok (state.push .anyByte, s)
  | '*' =>
    match s with
    | '*' :: rest => .ok (state.stars rest)
    | _ => .ok (state.push .anyName, s)
  | '[' =>
    if state.plainBrackets then .ok (state.push (.literal '['), s)
    else do
      match ← charClass s with
      | some (token, rest) => return (state.push token, rest)
      | none => return ({ state.push (.literal '[') with plainBrackets := true }, s)
  | '\x7b' => .ok (state.openBrace, s)
  | '\x7d' => return (← state.closeBrace, s)
  | ',' => .ok (state.comma, s)
  | '\\' =>
    match s with
    | [] => .error .danglingEscape
    | d :: rest => .ok (state.push (.literal d), rest)
  | _ => .ok (state.push (.literal c), s)

/-- The tokens of a text of at most `fuel` characters. -/
def readTokens : Nat → State → List Char → Except IgnorePatternError (List IgnoreToken)
  | fuel + 1, state, c :: s => do
    let (next, rest) ← step state c s
    readTokens fuel { next with previous? := lastTaken (c :: s) rest } rest
  | _, state, _ =>
    if state.braces.isEmpty then .ok state.current.reverse else .error .unclosedBrace

/-- The tokens of a pattern. -/
def parse (text : String) : Except IgnorePatternError (List IgnoreToken) :=
  readTokens text.toList.length {} text.toList

/-! ### Comparing -/

def slash : UInt8 := '/'.toUInt8

/-- The texts after each slash. -/
def afterSlashes : List UInt8 → List (List UInt8)
  | [] => []
  | b :: s => if b == slash then s :: afterSlashes s else afterSlashes s

/-- The text and all its endings. -/
def endings : List UInt8 → List (List UInt8)
  | [] => [[]]
  | b :: s => (b :: s) :: endings s

/-- The endings up to and with the one that begins with the first slash. -/
def nameEndings : List UInt8 → List (List UInt8)
  | [] => [[]]
  | b :: s => if b == slash then [b :: s] else (b :: s) :: nameEndings s

/-- The bytes of a range of characters: those of its two ends, and those between the last byte of
the one and the first of the other. -/
def rangeHas (low high : Char) (b : UInt8) : Bool :=
  let lows := String.utf8EncodeChar low
  let highs := String.utf8EncodeChar high
  if low == high then lows.contains b
  else
    lows.contains b || highs.contains b ||
      (lows.getLast?.any (· ≤ b) && highs.head?.any (b ≤ ·))

mutual

/-- A token takes the beginning of a text and leaves a rest that `next` accepts. -/
def takes : IgnoreToken → (next : List UInt8 → Bool) → List UInt8 → Bool
  | .literal c, next, s =>
    let bytes := String.utf8EncodeChar c
    bytes.isPrefixOf s && next (s.drop bytes.length)
  | .anyByte, next, s =>
    match s with
    | [] => false
    | b :: rest => b != slash && next rest
  | .anyName, next, s => (nameEndings s).any next
  | .leadingFolders, next, s => next s || (afterSlashes s).any next
  | .trailing, next, s =>
    match s with
    | [] => false
    | b :: rest => b == slash && (endings rest).any next
  | .betweenFolders, next, s =>
    match s with
    | [] => false
    | b :: rest => b == slash && (next rest || (afterSlashes rest).any next)
  | .oneOf negated ranges, next, s =>
    match s with
    | [] => false
    | b :: rest => (ranges.any (fun (low, high) => rangeHas low high b) != negated) && next rest
  | .alternatives branches, next, s =>
    if branches.isEmpty then next s else takesOne branches next s

/-- Tokens take the beginning of a text, one after the other. -/
def takesAll : List IgnoreToken → (next : List UInt8 → Bool) → List UInt8 → Bool
  | [], next, s => next s
  | token :: tokens, next, s => takes token (fun rest => takesAll tokens next rest) s

/-- One of several patterns takes the beginning of a text. -/
def takesOne : List (List IgnoreToken) → (next : List UInt8 → Bool) → List UInt8 → Bool
  | [], _, _ => false
  | branch :: branches, next, s => takesAll branch next s || takesOne branches next s

end

/-- A path fits a pattern. Two stars alone fit everything. -/
def accepts (tokens : List IgnoreToken) (path : String) : Bool :=
  match tokens with
  | [.leadingFolders] => true
  | _ => takesAll tokens List.isEmpty path.toUTF8.toList

end IgnorePattern

end PluginLint.Files
