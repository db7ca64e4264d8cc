import PluginLint.Grammar.Builder

/-!
# Looking ahead

Casts, type arguments and declarations are told apart from other expressions before anything is
placed, by following a type over the tokens ahead. Each of these functions returns the tokens
behind what it followed. The number bounds both nesting and repetition: it has to be larger than the
number of tokens ahead.
-/
namespace PluginLint.Grammar

/-- Follows something over the tokens ahead, if it is there. -/
abbrev Skip := List Token → Except Panic (Option (List Token))

/-- The number of open brackets behind a token. -/
def depthBehind (opening closing : List String) (depth : Nat) (t : Token) : Except Panic Nat :=
  if opening.contains t.text then .ok (depth + 1)
  else if closing.contains t.text then
    match depth with
    | 0 => .error .belowZero
    | depth + 1 => .ok depth
  else .ok depth

def predefinedTypes : List String :=
  ["bool", "byte", "sbyte", "char", "decimal", "double", "float", "int", "uint", "long", "ulong",
   "short", "ushort", "object", "string", "void"]

def startsPredefined (ts : List Token) : Bool :=
  kindAt ts 0 == .keyword && predefinedTypes.contains (textAt ts 0)

/-- Skips tokens with a text. -/
def skipText (text : String) (ts : List Token) : List Token :=
  ts.dropWhile fun t => t.text == text

/-- The tokens behind an empty rank such as `[]` or `[,]`. -/
def skipEmptyRank? (ts : List Token) : Option (List Token) :=
  if startsText ts "[" then
    let rest := skipText "," (ts.drop 1)
    if startsText rest "]" then some (rest.drop 1) else none
  else none

/-- Skips question marks and empty ranks. -/
def skipTypeSuffixes : Nat → List Token → Except Panic (List Token)
  | 0, _ => .error .endless
  | n + 1, ts =>
    if startsText ts "?" then skipTypeSuffixes n (ts.drop 1)
    else
      match skipEmptyRank? ts with
      | some rest => skipTypeSuffixes n rest
      | none => .ok ts

/-- Follows types with commas between them up to a `>`. -/
def skipTypeItems (type : Skip) : Nat → Skip
  | 0, _ => .error .endless
  | n + 1, ts => do
    let some rest ← type ts | return none
    if startsText rest "," then skipTypeItems type n (rest.drop 1)
    else if startsText rest ">" then return some (rest.drop 1)
    else return none

/-- Follows type arguments between angle brackets; the first token is `<`. -/
def skipTypeArgumentsWith (type : Skip) (n : Nat) : Skip := fun ts =>
  let inner := ts.drop 1
  if startsText inner "," || startsText inner ">" then
    let rest := skipText "," inner
    .ok (if startsText rest ">" then some (rest.drop 1) else none)
  else skipTypeItems type n inner

/-- Follows an identifier and the type arguments behind it. -/
def skipSegment (type : Skip) (n : Nat) (ts : List Token) : Except Panic (List Token) := do
  let rest := ts.drop 1
  if startsText rest "<" then return (← skipTypeArgumentsWith type n rest).getD rest
  return rest

/-- A dot or a double colon with an identifier behind it. -/
def startsQualifier (ts : List Token) : Bool :=
  (startsText ts "." || startsText ts "::") && kindAt ts 1 == .identifier

/-- Follows further segments of a dotted name. -/
def skipSegments (type : Skip) : Nat → List Token → Except Panic (List Token)
  | 0, _ => .error .endless
  | n + 1, ts => do
    if startsQualifier ts then skipSegments type n (← skipSegment type n (ts.drop 1))
    else return ts

/-- Follows the elements of a tuple type, of which `count` came before. -/
def skipTupleItems (type : Skip) : Nat → Nat → Skip
  | 0, _, _ => .error .endless
  | n + 1, count, ts => do
    let some rest ← type ts | return none
    let rest := if startsIdentifier rest then rest.drop 1 else rest
    if startsText rest "," then skipTupleItems type n (count + 1) (rest.drop 1)
    else if startsText rest ")" && 2 ≤ count + 1 then return some (rest.drop 1)
    else return none

/-- Follows a type up to the question marks and ranks behind it. -/
def skipBareType (type : Skip) (n : Nat) : Skip := fun ts =>
  if startsPredefined ts then .ok (some (ts.drop 1))
  else if startsIdentifier ts then do return some (← skipSegments type n (← skipSegment type n ts))
  else if startsText ts "(" then skipTupleItems type n 0 (ts.drop 1)
  else .ok none

def skipTypeWith (type : Skip) (n : Nat) : Skip := fun ts => do
  let some rest ← skipBareType type n ts | return none
  return some (← skipTypeSuffixes n rest)

/-- Follows a type. -/
def skipType : Nat → Skip
  | 0, _ => .error .endless
  | n + 1, ts => skipTypeWith (skipType n) (n + 1) ts

/-- Follows type arguments; the first token is `<`. -/
def skipTypeArguments (n : Nat) : Skip := skipTypeArgumentsWith (skipType n) n

/-- A name and its type arguments. -/
def startsGenericType (n : Nat) (ts : List Token) : Except Panic Bool := do
  if textAt ts 1 == "<" then return (← skipTypeArguments n (ts.drop 1)).isSome
  return false

/-- A tuple type, as `skipType` follows it. -/
def startsTupleType : Nat → List Token → Except Panic Bool
  | 0, _ => .error .endless
  | n + 1, ts => do
    if startsText ts "(" then
      return (← skipTupleItems (skipType n) (n + 1) 0 (ts.drop 1)).isSome
    return false

/-- Follows brackets up to the one that closes the first. -/
def skipBrackets : Nat → Skip
  | _, [] => .ok none
  | depth, t :: ts =>
    if t.isEnd then .ok none
    else do
      let depth ← depthBehind ["["] ["]"] depth t
      if t.text == "]" && depth == 0 then return some ts
      skipBrackets depth ts

/-- The parentheses that open here close in front of an arrow, with no statement inside. -/
def closesAtArrow : Nat → List Token → Except Panic Bool
  | _, [] => .ok false
  | depth, t :: ts =>
    if t.isEnd || [";", "\x7b", "\x7d"].contains t.text then .ok false
    else do
      let depth ← depthBehind ["("] [")"] depth t
      if t.text == ")" && depth == 0 then return startsText ts "=>"
      closesAtArrow depth ts

/-- The parameters of a lambda in parentheses. -/
def startsLambdaHead (ts : List Token) : Except Panic Bool :=
  if startsText ts "(" then closesAtArrow 0 ts else .ok false

/-- A type and a name, with one of the given texts behind them. -/
def startsDeclaration (n : Nat) (follow : List String) (ts : List Token) : Except Panic Bool := do
  let some rest ← skipType n ts | return false
  return startsIdentifier rest && follow.contains (textAt rest 1)

/-! ### What can start an expression -/

def expressionKeywords : List String :=
  ["this", "base", "new", "typeof", "default", "true", "false", "null", "checked", "unchecked",
   "sizeof", "throw", "delegate", "ref", "stackalloc"]

def prefixOperators : List String := ["!", "-", "+", "~", "++", "--", "^", "&", "*"]

/-- A keyword that starts an expression. -/
def startsOperandKeyword (ts : List Token) : Bool :=
  kindAt ts 0 == .keyword && (expressionKeywords.contains (textAt ts 0) || startsPredefined ts)

def startsExpression (ts : List Token) : Bool :=
  (kindAt ts 0).startsOperand || startsOperandKeyword ts ||
    (kindAt ts 0 == .punct &&
      (["(", "[", ".."].contains (textAt ts 0) || prefixOperators.contains (textAt ts 0)))

/-- What may stand behind type arguments for them to be read as such in an expression. -/
def genericFollow : List String :=
  ["(", ")", "]", "\x7d", ":", ";", ",", ".", "?.", "?", "==", "!=", "|", "^", "&&", "||", "&",
   "["]

/-- An identifier whose angle bracket opens type arguments, not a comparison. -/
def startsGenericName (n : Nat) (ts : List Token) : Except Panic Bool := do
  if textAt ts 1 == "<" then
    let some rest ← skipTypeArguments n (ts.drop 1) | return false
    return startsEnd rest || genericFollow.contains (textAt rest 0)
  return false

/-- What may stand behind a type in parentheses for it to be a cast. -/
def startsCastOperand (predefined : Bool) (ts : List Token) : Bool :=
  if predefined then startsExpression ts
  else
    (kindAt ts 0).startsOperand || startsOperandKeyword ts ||
      (kindAt ts 0 == .punct && ["(", "!", "~"].contains (textAt ts 0))

/-- A type in parentheses with an operand behind it. -/
def startsCast (n : Nat) (ts : List Token) : Except Panic Bool := do
  let inner := ts.drop 1
  let some rest ← skipType n inner | return false
  return startsText rest ")" && startsCastOperand (startsPredefined inner) (rest.drop 1)

end PluginLint.Grammar
