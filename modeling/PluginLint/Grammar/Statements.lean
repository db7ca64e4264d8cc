import PluginLint.Grammar.Expressions

/-!
# Statements

A statement either places at least one token, or nothing at all.
-/
namespace PluginLint.Grammar

/-- A statement inside a statement, which has to be there. -/
def embeddedStatement (g : Phrases) : Parse Unit :=
  discard (orReport (g .statement) "expected statement")

/-- Statements up to what `stop` recognises. -/
def statementsUntil (n : Nat) (g : Phrases) (stop : List Token → Bool) : Parse Unit :=
  repeatUpTo n do
    let ts ← ahead
    if startsEnd ts || stop ts then return false
    if !(← g .statement) then skipToken "expected statement"
    return true

/-- Statements in braces. -/
def block (n : Nat) (g : Phrases) : Parse Unit :=
  node .block do
    discard (expect "\x7b")
    statementsUntil n g fun ts => startsText ts "\x7d"
    discard (expect "\x7d")

/-- A block, which has to be there. -/
def expectBlock (g : Phrases) : Parse Unit := do
  if ← atText "\x7b" then discard (g .block) else report "expected `\x7b`"

/-- A keyword, a condition in parentheses and a statement. -/
def guardedStatement (g : Phrases) (kind : NodeKind) : Parse Unit :=
  node kind do
    bump
    parenthesizedValue g
    embeddedStatement g

def ifStatement (g : Phrases) : Parse Unit :=
  node .ifStatement do
    bump
    parenthesizedValue g
    embeddedStatement g
    if ← atText "else" then
      node .elseClause do
        bump
        embeddedStatement g

def doStatement (g : Phrases) : Parse Unit :=
  node .doStatement do
    bump
    embeddedStatement g
    discard (expect "while")
    parenthesizedValue g
    discard (expect ";")

/-- A keyword that leaves the place, with or without a value. -/
def jumpStatement (g : Phrases) (kind : NodeKind) : Parse Unit :=
  node kind do
    bump
    if !(← atText ";") then discard (g .expression)
    discard (expect ";")

def yieldStatement (g : Phrases) : Parse Unit :=
  nodeOf do
    bumpKeyword
    let returns ← atText "return"
    bump
    if returns then discard (expectExpression g)
    discard (expect ";")
    return if returns then .yieldReturnStatement else .yieldBreakStatement

def gotoStatement (g : Phrases) : Parse Unit :=
  node .gotoStatement do
    bump
    if ← eat "case" then discard (expectExpression g)
    else if !(← eat "default") then discard (expectExpression g)
    discard (expect ";")

def expressionList (n : Nat) (g : Phrases) : Parse Unit := commaSeparated n (expectExpression g)

def forStatement (n : Nat) (g : Phrases) : Parse Unit :=
  node .forStatement do
    bump
    discard (expect "(")
    if !(← atText ";") then
      if ← look (startsDeclaration n ["=", ";", ","]) then discard (variableDeclaration n g)
      else expressionList n g
    discard (expect ";")
    if !(← atText ";") then discard (expectExpression g)
    discard (expect ";")
    if !(← atText ")") then expressionList n g
    discard (expect ")")
    embeddedStatement g

/-- The rest of a `foreach`, from that word on. -/
def forEachRest (n : Nat) (g : Phrases) : Parse Unit := do
  bump
  discard (expect "(")
  discard (expectType (fullType n g))
  if ← atText "(" then discard (expectExpression g) else discard expectIdentifier
  discard (expect "in")
  discard (expectExpression g)
  discard (expect ")")
  embeddedStatement g

/-- The rest of a `using`, whose word may be placed already: a resource for a statement or for the
rest of a block. -/
def usingRest (n : Nat) (g : Phrases) : Parse NodeKind := do
  discard (eat "using")
  if ← eat "(" then
    if ← look (startsDeclaration n ["="]) then discard (variableDeclaration n g)
    else discard (expectExpression g)
    discard (expect ")")
    embeddedStatement g
    return .usingStatement
  discard (orReport (variableDeclaration n g) "expected declaration")
  discard (expect ";")
  return .localDeclarationStatement

def catchClause (n : Nat) (g : Phrases) : Parse Unit :=
  node .catchClause do
    bump
    if ← atText "(" then
      node .catchDeclaration do
        bump
        discard (expectType (fullType n g))
        if ← atIdentifier then bump
        discard (expect ")")
    if ← atWord "when" then
      node .catchFilterClause do
        bump
        parenthesizedValue g
    expectBlock g

def tryStatement (n : Nat) (g : Phrases) : Parse Unit :=
  node .tryStatement do
    bump
    expectBlock g
    repeatUpTo n do
      if ← atText "catch" then
        catchClause n g
        return true
      return false
    if ← atText "finally" then
      node .finallyClause do
        bump
        expectBlock g

def startsSwitchLabel (ts : List Token) : Bool :=
  startsText ts "case" || (startsText ts "default" && textAt ts 1 == ":")

def switchLabel (n : Nat) (g : Phrases) : Parse Unit := do
  if ← atText "default" then
    node .defaultSwitchLabel do
      bump
      bump
  else
    node .caseSwitchLabel do
      bump
      discard (orReport (pattern n) "expected pattern")
      if ← atWord "when" then
        bump
        discard (expectExpression g)
      discard (expect ":")

/-- Labels and the statements behind them. -/
def switchSection (n : Nat) (g : Phrases) : Parse Unit :=
  node .switchSection do
    repeatUpTo n do
      if startsSwitchLabel (← ahead) then
        switchLabel n g
        return true
      return false
    statementsUntil n g fun ts => startsText ts "\x7d" || startsSwitchLabel ts

def switchStatement (n : Nat) (g : Phrases) : Parse Unit :=
  node .switchStatement do
    bump
    discard (expectExpression g)
    if ← expect "\x7b" then
      repeatUpTo n do
        let ts ← ahead
        if startsEnd ts || startsText ts "\x7d" then return false
        if startsSwitchLabel ts then switchSection n g
        else skipToken "expected `case` or `default`"
        return true
      discard (expect "\x7d")

def fixedStatement (n : Nat) (g : Phrases) : Parse Unit :=
  node .fixedStatement do
    bump
    discard (expect "(")
    discard (orReport (variableDeclaration n g) "expected declaration")
    discard (expect ")")
    embeddedStatement g

/-- A keyword with a block behind it. -/
def blockStatement (g : Phrases) (kind : NodeKind) : Parse Unit :=
  node kind do
    bump
    discard (g .block)

/-- A statement that is known by its first keyword. -/
def keywordStatement (n : Nat) (g : Phrases) (ts : List Token) : Parse Bool := do
  let braced := textAt ts 1 == "\x7b"
  match textAt ts 0 with
  | "if" => ifStatement g
  | "while" => guardedStatement g .whileStatement
  | "do" => doStatement g
  | "for" => forStatement n g
  | "foreach" => node .forEachStatement (forEachRest n g)
  | "return" => jumpStatement g .returnStatement
  | "throw" => jumpStatement g .throwStatement
  | "break" => jumpStatement g .breakStatement
  | "continue" => jumpStatement g .continueStatement
  | "goto" => gotoStatement g
  | "try" => tryStatement n g
  | "lock" => guardedStatement g .lockStatement
  | "switch" => switchStatement n g
  | "checked" | "unchecked" =>
    if braced then blockStatement g .checkedStatement else return false
  | "unsafe" => if braced then blockStatement g .unsafeStatement else return false
  | "fixed" => fixedStatement n g
  | "using" => nodeOf (usingRest n g)
  | _ => return false
  return true

def localModifiers : List String := ["const", "static", "unsafe", "extern", "readonly", "ref"]

/-- The number of modifiers in front of a local declaration. -/
def localModifierCount : List Token → Nat
  | [] => 0
  | t :: ts =>
    let isModifier :=
      match t.kind with
      | .keyword => localModifiers.contains t.text
      | .identifier => ["async", "scoped"].contains t.text && isWordKind (kindAt ts 0)
      | _ => false
    if isModifier then localModifierCount ts + 1 else 0

/-- A local function from its return type on. -/
def localFunctionRest (n : Nat) (g : Phrases) : Parse Unit := do
  orGiveUp (fullType n g)
  bump
  optionalTypeParameters n
  expectParameterList n g
  constraintClauses n g
  memberBody g

/-- A declaration of local variables or of a local function. -/
def localDeclaration (n : Nat) (g : Phrases) : Parse Bool := do
  let ts ← ahead
  let modifiers := localModifierCount ts
  let head := ts.drop modifiers
  if startsWord head "await" then return false
  if ← orPanic (startsDeclaration n ["(", "<"] head) then
    node .localFunctionStatement do
      bumpKeywords modifiers
      localFunctionRest n g
    return true
  if ← orPanic (startsDeclaration n ["=", ";", ","] head) then
    node .localDeclarationStatement do
      bumpKeywords modifiers
      orGiveUp (variableDeclaration n g)
      discard (expect ";")
    return true
  return false

/-- An expression and a semicolon. -/
def expressionStatement (n : Nat) (g : Phrases) : Parse Bool := do
  if ← expression n g then
    wrapLast .expressionStatement (discard (expect ";"))
    return true
  return false

/-- A statement that is known by words that are reserved only in some places, or a label. -/
def wordStatement (n : Nat) (g : Phrases) (ts : List Token) : Parse Bool := do
  let next := textAt ts 1
  if startsText ts "yield" && (next == "return" || next == "break") then
    yieldStatement g
    return true
  if startsText ts "await" && next == "foreach" then
    node .forEachStatement do
      bumpKeyword
      forEachRest n g
    return true
  if startsText ts "await" && next == "using" then
    nodeOf do
      bumpKeyword
      bump
      usingRest n g
    return true
  if next == ":" then
    node .labeledStatement do
      bump
      bump
      embeddedStatement g
    return true
  return false

/-- A statement that is known by its first tokens. -/
def knownStatement (n : Nat) (g : Phrases) : Parse Bool := do
  let ts ← upcoming
  match kindAt ts 0 with
  | .punct =>
    if startsText ts "\x7b" then
      block n g
      return true
    if startsText ts ";" then
      node .emptyStatement bump
      return true
    return false
  | .keyword => keywordStatement n g ts
  | .identifier => wordStatement n g ts
  | _ => return false

/-- Any statement. -/
def statement (n : Nat) (g : Phrases) : Parse Bool := do
  if ← knownStatement n g then return true
  if ← localDeclaration n g then return true
  expressionStatement n g

end PluginLint.Grammar
