import PluginLint.Files.Path

/-!
# Patterns for paths

A question mark stands for any character and a star for any characters, slashes included. Two stars
stand for any number of folders, and have to be a whole part of the path.
-/
namespace PluginLint.Files

/-- A piece of a pattern. -/
inductive PatternToken where
  | char (c : Char)
  | anyChar
  | anySequence
  | anyFolders
  /-- A character from one of the ranges, or from none of them. -/
  | oneOf (negated : Bool) (ranges : List (Char × Char))
  deriving DecidableEq, Repr

/-- A pattern with its text. -/
structure Pattern where
  text : String
  tokens : List PatternToken
  deriving DecidableEq, Repr

/-- Why a text is no pattern, and at which character. -/
structure PatternError where
  position : Nat
  reason : String
  deriving DecidableEq, Repr

namespace PatternError

def message (e : PatternError) : String :=
  "Pattern syntax error near position " ++ toString e.position ++ ": " ++ e.reason

def tooManyStars (position : Nat) : PatternError :=
  ⟨position, "wildcards are either regular `*` or recursive `**`"⟩

def notWholePart (position : Nat) : PatternError :=
  ⟨position, "recursive wildcards must form a single path component"⟩

def badRange (position : Nat) : PatternError := ⟨position, "invalid range pattern"⟩

end PatternError

namespace Pattern

/-- The ranges of a class. A dash between two characters makes a range of them. -/
def ranges : List Char → List (Char × Char)
  | a :: '-' :: b :: rest => (a, b) :: ranges rest
  | a :: rest => (a, a) :: ranges rest
  | [] => []

/-- The characters up to a closing bracket, which is not the first of them, and what follows. -/
def untilBracket? : List Char → Option (List Char × List Char)
  | [] => none
  | first :: rest =>
    match rest.span (· != ']') with
    | (_, []) => none
    | (inner, _ :: after) => some (first :: inner, after)

/-- A class behind its opening bracket, and what follows. -/
def charClass? : List Char → Option (PatternToken × List Char)
  | '!' :: s => (untilBracket? s).map fun (inner, after) => (.oneOf true (ranges inner), after)
  | s => (untilBracket? s).map fun (inner, after) => (.oneOf false (ranges inner), after)

/-- The tokens of a pattern of at most `fuel` characters. `position` counts the characters behind
us, and a part of the path may begin here if `fresh`. -/
def readTokens : Nat → (position : Nat) → (fresh : Bool) → List Char →
    Except PatternError (List PatternToken)
  | 0, _, _, _ => .ok []
  | _ + 1, _, _, [] => .ok []
  | fuel + 1, position, fresh, c :: s =>
    if c == '?' then do
      return .anyChar :: (← readTokens fuel (position + 1) false s)
    else if c == '*' then
      let after := s.dropWhile (· == '*')
      let count := s.length + 1 - after.length
      if 2 < count then .error (.tooManyStars (position + 2))
      else if count == 1 then do
        return .anySequence :: (← readTokens fuel (position + 1) false s)
      else if !fresh then .error (.notWholePart (position - 1))
      else
        match after with
        | [] => .ok [.anyFolders]
        | '/' :: rest => do
          return .anyFolders :: (← readTokens fuel (position + 3) true rest)
        | _ :: _ => .error (.notWholePart (position + 2))
    else if c == '[' then
      match charClass? s with
      | none => .error (.badRange position)
      | some (token, rest) => do
        let width := s.length + 1 - rest.length
        return token :: (← readTokens fuel (position + width) false rest)
    else do
      return .char c :: (← readTokens fuel (position + 1) (c == '/') s)

/-- The pattern that a text describes. -/
def parse (text : String) : Except PatternError Pattern := do
  let s := text.toList
  return ⟨text, ← readTokens s.length 0 true s⟩

/-- The text and all its endings. -/
def endings : List Char → List (List Char)
  | [] => [[]]
  | c :: s => (c :: s) :: endings s

/-- The endings of a text that follow a slash. -/
def afterSlashes : List Char → List (List Char)
  | [] => []
  | c :: s => if c == '/' then s :: afterSlashes s else afterSlashes s

/-- A token that stands for one character fits it. -/
def fits (c : Char) : PatternToken → Bool
  | .char d => c == d
  | .anyChar => true
  | .oneOf negated ranges => ranges.any (fun (a, b) => a ≤ c && c ≤ b) != negated
  | .anySequence | .anyFolders => false

/-- A text fits tokens from its beginning to its end. -/
def accepts : List PatternToken → List Char → Bool
  | [], s => s.isEmpty
  | .anySequence :: tokens, s => (endings s).any fun rest => accepts tokens rest
  | .anyFolders :: tokens, s => (s :: afterSlashes s ++ [[]]).any fun rest => accepts tokens rest
  | _ :: _, [] => false
  | token :: tokens, c :: s => fits c token && accepts tokens s

/-- A path fits a pattern. -/
def matches? (p : Pattern) (path : String) : Bool := accepts p.tokens path.toList

end Pattern

end PluginLint.Files
