import PluginLint.Grammar.Types

/-!
# Lists inside phrases

Attributes, arguments, parameters, type parameters and their constraints, initializers, array ranks
and patterns. Each is called after at least one token of the phrase around it has been placed.
-/
namespace PluginLint.Grammar

/-! ### Attributes and patterns: flat runs of tokens -/

/-- Places tokens up to the bracket that closes the first. -/
def attributeTokens : Nat → Nat → Parse Unit
  | 0, _ => throw .endless
  | n + 1, depth => do
    if ← atEnd then report "expected `]`"
    else
      let depth ← look fun ts => depthBehind ["["] ["]"] depth (nth ts 0)
      bump
      if depth != 0 then attributeTokens n depth

/-- Attributes in brackets. -/
def attributeList (n : Nat) : Parse Unit := node .attributeList (attributeTokens n 0)

/-- Any number of attributes in brackets. -/
def attributeLists (n : Nat) : Parse Unit :=
  repeatUpTo n do
    if ← atText "[" then
      attributeList n
      return true
    return false

/-- What ends a pattern outside all brackets. -/
def endsPattern (t : Token) : Bool :=
  match t.kind with
  | .punct =>
    [")", "]", "\x7d", ";", ",", ":", "=>", "&&", "||", "??", "==", "!=", "?", "="].contains t.text
  | .identifier => t.text == "when"
  | _ => false

/-- Places tokens up to the end of a pattern. -/
def patternTokens : Nat → Nat → Parse Unit
  | 0, _ => throw .endless
  | n + 1, depth => do
    let t := nth (← upcoming) 0
    if t.isEnd || (depth == 0 && endsPattern t) then return
    let depth ← orPanic (depthBehind ["(", "[", "\x7b"] [")", "]", "\x7d"] depth t)
    bump
    patternTokens n depth

/-- A pattern, kept as a run of tokens. -/
def pattern (n : Nat) : Parse Bool := nodeUnlessBlank .pattern (patternTokens n 0)

/-! ### Arguments -/

/-- A variable declared in place, as in `out var x`. Without `typed` only `var` declares one. -/
def declarationExpression (n : Nat) (g : Phrases) (typed : Bool) : Parse Bool := do
  if (← look (startsDeclaration n [",", ")"])) && (typed || (← atWord "var")) then
    node .declarationExpression do
      orGiveUp (fullType n g)
      bump
    return true
  return false

/-- A name in front of a value. -/
def nameColon : Parse Unit := do
  let ts ← ahead
  if startsIdentifier ts && textAt ts 1 == ":" then
    node .nameColon do
      bump
      bump

/-- One argument or element of a tuple. -/
def argument (n : Nat) (g : Phrases) (typed : Bool) : Parse Bool :=
  nodeUnlessBlank .argument do
    nameColon
    let ts ← upcoming
    let passing := kindAt ts 0 == .keyword && ["ref", "out", "in"].contains (textAt ts 0)
    let isOut := passing && startsText ts "out"
    if passing then bump
    if ← declarationExpression n g (isOut || typed) then return
    if ← g .expression then return
    if !(← isBlankNode) then report "expected expression"

/-- Arguments up to `close`; the opening bracket comes next. -/
def argumentsTo (n : Nat) (g : Phrases) (close : String) (kind : NodeKind) : Parse Unit :=
  node kind do
    bump
    if !(← atText close) then
      commaSeparated n (orReport (argument n g false) "expected argument")
    discard (expect close)

def argumentList (n : Nat) (g : Phrases) : Parse Unit := argumentsTo n g ")" .argumentList

def bracketedArgumentList (n : Nat) (g : Phrases) : Parse Unit :=
  argumentsTo n g "]" .bracketedArgumentList

/-! ### Values -/

/-- Expressions or nested initializers with commas between them, up to `close`. -/
def elementList (n : Nat) (g : Phrases) (close : String) : Parse Unit :=
  repeatUpTo n do
    if (← atEnd) || (← atText close) then return false
    let found ← if ← atText "\x7b" then g .initializer else g .expression
    if found then eat ","
    else
      skipToken "expected expression"
      return true

/-- Values in braces; the opening brace comes next. -/
def initializer (n : Nat) (g : Phrases) : Parse Unit :=
  node .initializerExpression do
    bump
    elementList n g "\x7d"
    discard (expect "\x7d")

/-- Values in braces, if there is a brace. -/
def optionalInitializer (n : Nat) (g : Phrases) : Parse Unit := do
  if ← atText "\x7b" then initializer n g

/-- A value or an initializer. -/
def initialValue (n : Nat) (g : Phrases) : Parse Unit := do
  if ← atText "\x7b" then initializer n g else discard (expectExpression g)

/-- An initial value behind `=`, which comes next. -/
def equalsValueClause (n : Nat) (g : Phrases) : Parse Unit :=
  node .equalsValueClause do
    bump
    initialValue n g

/-- Ranks with or without sizes. -/
def rankSpecifiers (n : Nat) (g : Phrases) : Parse Unit :=
  repeatUpTo n do
    if !(← atText "[") then return false
    node .arrayRankSpecifier do
      bump
      repeatUpTo n do
        if (← atEnd) || (← atText "]") then return false
        if ← eat "," then return true
        expectExpression g
      discard (expect "]")
    return true

/-! ### Parameters -/

def parameterModifiers : List String := ["this", "ref", "out", "in", "params", "readonly"]

/-- The kind of a word. -/
def isWordKind (kind : TokenKind) : Bool := kind == .identifier || kind == .keyword

def startsParameterModifier (ts : List Token) : Bool :=
  (startsWord ts "scoped" && isWordKind (kindAt ts 1)) ||
    (kindAt ts 0 == .keyword && parameterModifiers.contains (textAt ts 0))

/-- One parameter of a list that ends with `close`. -/
def parameter (n : Nat) (g : Phrases) (close : String) : Parse Bool :=
  nodeUnlessBlank .parameter do
    attributeLists n
    repeatUpTo n do
      if startsParameterModifier (← ahead) then
        bumpKeyword
        return true
      return false
    let ts ← ahead
    if startsIdentifier ts && [",", ")", "]"].contains (textAt ts 1) then bump
    else if ← fullType n g then discard expectIdentifier
    else if !startsText ts close && !startsText ts "," && !startsEnd ts && !(← isBlankNode) then
      skipToken "expected parameter type"
    if ← atText "=" then equalsValueClause n g

/-- Parameters up to `close`; the opening bracket comes next. -/
def parametersTo (n : Nat) (g : Phrases) (close : String) (kind : NodeKind) : Parse Unit :=
  node kind do
    bump
    if !(← atText close) then
      commaSeparated n (orReport (parameter n g close) "expected parameter")
    discard (expect close)

def parameterList (n : Nat) (g : Phrases) : Parse Unit := parametersTo n g ")" .parameterList

/-- Parameters in parentheses, which have to be there. -/
def expectParameterList (n : Nat) (g : Phrases) : Parse Unit := do
  if ← atText "(" then parameterList n g else report "expected `(`"

/-- Type parameters between angle brackets; the first token is `<`. -/
def typeParameterList (n : Nat) : Parse Unit :=
  node .typeParameterList do
    bump
    commaSeparated n do
      let _ ← nodeUnlessBlank .typeParameter do
        attributeLists n
        if (← atText "in") || (← atText "out") then bump
        discard expectIdentifier
      return true
    discard (expect ">")

/-- Type parameters, if there are any. -/
def optionalTypeParameters (n : Nat) : Parse Unit := do
  if ← atText "<" then typeParameterList n

/-- One constraint on a type parameter. -/
def constraint (n : Nat) (g : Phrases) : Parse Bool := do
  if (← atText "class") || (← atText "struct") then
    bump
    discard (eat "?")
    return true
  if ← atText "new" then
    bump
    discard (expect "(")
    discard (expect ")")
    return true
  expectType (fullType n g)

/-- Constraints on type parameters. -/
def constraintClauses (n : Nat) (g : Phrases) : Parse Unit :=
  repeatUpTo n do
    let ts ← ahead
    if !(startsWord ts "where" && kindAt ts 1 == .identifier) then return false
    node .typeParameterConstraintClause do
      bumpKeyword
      bump
      discard (expect ":")
      commaSeparated n (constraint n g)
    return true

/-! ### Variables and bodies -/

/-- Variables of the type placed last. -/
def declareVariables (n : Nat) (g : Phrases) : Parse Unit :=
  wrapLast .variableDeclaration do
    repeatUpTo n do
      if !(← atIdentifier) then
        report "expected identifier"
        return false
      node .variableDeclarator do
        bump
        if ← atText "[" then bracketedArgumentList n g
        if ← atText "=" then equalsValueClause n g
      let ts ← ahead
      if startsText ts "," && kindAt ts 1 == .identifier then
        bump
        return true
      return false

/-- A type and variables of it. -/
def variableDeclaration (n : Nat) (g : Phrases) : Parse Bool := do
  if ← fullType n g then
    declareVariables n g
    return true
  return false

/-- A value behind an arrow, which comes next. -/
def arrowClause (g : Phrases) : Parse Unit :=
  node .arrowExpressionClause do
    bump
    discard (expectExpression g)

/-- A block, a value behind an arrow, or nothing but a semicolon. -/
def memberBody (g : Phrases) : Parse Unit := do
  if ← atText "\x7b" then discard (g .block)
  else
    if ← atText "=>" then arrowClause g
    discard (expect ";")

end PluginLint.Grammar
