import PluginLint.Grammar.Lists

/-!
# Expressions

Operators are parsed by precedence climbing: an operand, then operators that bind tightly enough,
each of which takes what came before as its left operand.
-/
namespace PluginLint.Grammar

/-! ### Operators -/

/-- What stands to the right of a binary operator. -/
inductive BinaryForm where
  | plain
  | isPattern
  | asType
  | switchArms
  | withValues
  | range
  deriving DecidableEq, Repr

namespace BinaryForm

def kind : BinaryForm → NodeKind
  | .plain => .binaryExpression
  | .isPattern => .isPatternExpression
  | .asType => .asExpression
  | .switchArms => .switchExpression
  | .withValues => .withExpression
  | .range => .rangeExpression

end BinaryForm

/-- A binary operator. A larger precedence binds more tightly. -/
structure BinaryOperator where
  precedence : Nat
  /-- The number of tokens that spell the operator. -/
  tokens : Nat
  form : BinaryForm
  deriving DecidableEq, Repr

namespace BinaryOperator

/-- The least precedence on the right; `??` groups to the right and all others to the left. -/
def rightLeast (op : BinaryOperator) : Nat :=
  if op.precedence == 1 then 1 else op.precedence + 1

end BinaryOperator

/-- Precedences of the operators of one token. -/
def plainPrecedence? : String → Option Nat
  | "??" => some 1
  | "||" => some 2
  | "&&" => some 3
  | "|" => some 4
  | "^" => some 5
  | "&" => some 6
  | "==" | "!=" => some 7
  | "<" | "<=" | ">=" => some 8
  | "<<" => some 9
  | "+" | "-" => some 10
  | "*" | "/" | "%" => some 11
  | _ => none

/-- The operator spelled by `>` and the tokens that touch it. -/
def greaterOperator? (ts : List Token) : Option BinaryOperator :=
  let second := textAt ts 1
  let third := textAt ts 2
  if !joined ts 0 then some ⟨8, 1, .plain⟩
  else if second == ">=" then none
  else if second == ">" then
    if joined ts 1 && third == ">=" then none
    else if joined ts 1 && third == ">" then some ⟨9, 3, .plain⟩
    else some ⟨9, 2, .plain⟩
  else some ⟨8, 1, .plain⟩

/-- The binary operator that comes next. -/
def binaryOperator? (ts : List Token) : Option BinaryOperator :=
  let text := textAt ts 0
  match kindAt ts 0 with
  | .punct =>
    if text == ">" then greaterOperator? ts
    else if text == ".." then some ⟨13, 1, .range⟩
    else (plainPrecedence? text).map fun p => ⟨p, 1, .plain⟩
  | .keyword =>
    if text == "is" then some ⟨8, 1, .isPattern⟩
    else if text == "as" then some ⟨8, 1, .asType⟩
    else if text == "switch" && textAt ts 1 == "\x7b" then some ⟨12, 1, .switchArms⟩
    else none
  | .identifier =>
    if text == "with" && textAt ts 1 == "\x7b" then some ⟨12, 1, .withValues⟩ else none
  | _ => none

def compoundAssignments : List String :=
  ["+=", "-=", "*=", "/=", "%=", "&=", "|=", "^=", "<<=", "??="]

/-- The assignment that comes next, and the number of tokens that spell it. -/
def assignmentOperator? (ts : List Token) : Option (NodeKind × Nat) :=
  let text := textAt ts 0
  if text == "=" then some (.simpleAssignmentExpression, 1)
  else if compoundAssignments.contains text then some (.compoundAssignmentExpression, 1)
  else if text == ">" && joined ts 0 then
    if textAt ts 1 == ">=" then some (.compoundAssignmentExpression, 2)
    else if textAt ts 1 == ">" && joined ts 1 && textAt ts 2 == ">=" then
      some (.compoundAssignmentExpression, 3)
    else none
  else none

/-! ### Operands -/

/-- A name and its type arguments in an expression; an identifier comes next. -/
def simpleNameExpression (n : Nat) (g : Phrases) : Parse Unit := do
  if ← look (startsGenericName n) then
    node .genericName do
      bump
      typeArgumentList n g
  else node .identifierName bump

/-- An anonymous method; `delegate` comes after `modifiers` words. -/
def anonymousMethod (n : Nat) (g : Phrases) (modifiers : Nat) : Parse Unit :=
  node .parenthesizedLambdaExpression do
    bumpKeywords modifiers
    bump
    if ← atText "(" then parameterList n g
    if ← atText "\x7b" then discard (g .block) else report "expected `\x7b`"

/-- The number of words in front of the parameters of a lambda. -/
def lambdaModifiers (ts : List Token) : Nat :=
  let k := if kindAt ts 0 == .keyword && startsText ts "static" then 1 else 0
  let rest := ts.drop k
  if startsWord rest "async" &&
      (kindAt rest 1 == .identifier || ["(", "delegate"].contains (textAt rest 1)) then k + 1
  else k

/-- An arrow and the body of a lambda. -/
def lambdaBody (g : Phrases) : Parse Unit := do
  discard (expect "=>")
  if ← atText "\x7b" then discard (g .block) else discard (expectExpression g)

/-- A lambda or an anonymous method behind modifiers. -/
def lambda (n : Nat) (g : Phrases) : Parse Bool := do
  let ts ← ahead
  let modifiers := lambdaModifiers ts
  let head := ts.drop modifiers
  if startsIdentifier head && textAt head 1 == "=>" then
    node .simpleLambdaExpression do
      bumpKeywords modifiers
      node .parameter bump
      lambdaBody g
    return true
  if ← orPanic (startsLambdaHead head) then
    node .parenthesizedLambdaExpression do
      bumpKeywords modifiers
      parameterList n g
      lambdaBody g
    return true
  if startsText head "delegate" && 0 < modifiers then
    anonymousMethod n g modifiers
    return true
  return false

/-- What `new` creates. -/
def creation (n : Nat) (g : Phrases) : Parse Unit :=
  nodeOf do
    bump
    if ← atText "\x7b" then
      initializer n g
      return .anonymousObjectCreationExpression
    if ← atText "(" then
      argumentList n g
      optionalInitializer n g
      return .implicitObjectCreationExpression
    if ← atText "[" then
      node .arrayRankSpecifier do
        bump
        bumpWhile n ","
        discard (expect "]")
      optionalInitializer n g
      return .implicitArrayCreationExpression
    if !(← expectType (typePhrase n g true false)) then return .objectCreationExpression
    if ← atText "[" then
      wrapLast .arrayType (rankSpecifiers n g)
      optionalInitializer n g
      return .arrayCreationExpression
    if ← atText "(" then argumentList n g
    optionalInitializer n g
    return .objectCreationExpression

/-- An array on the stack; `stackalloc` comes next. -/
def stackArray (n : Nat) (g : Phrases) : Parse Unit :=
  node .arrayCreationExpression do
    bump
    if ← typePhrase n g false false then wrapLast .arrayType (rankSpecifiers n g)
    else rankSpecifiers n g
    optionalInitializer n g

/-- A keyword with a type in parentheses behind it. -/
def parenthesizedType (n : Nat) (g : Phrases) (kind : NodeKind) : Parse Unit :=
  node kind do
    bump
    discard (expect "(")
    discard (expectType (fullType n g))
    discard (expect ")")

/-- A value in parentheses. -/
def parenthesizedValue (g : Phrases) : Parse Unit := do
  discard (expect "(")
  discard (expectExpression g)
  discard (expect ")")

/-- A value in parentheses or a tuple; the parenthesis comes next. -/
def parenthesizedOrTuple (n : Nat) (g : Phrases) : Parse Unit :=
  nodeOf do
    bump
    let ts ← ahead
    let named := startsIdentifier ts && textAt ts 1 == ":"
    let declared ← declarationExpression n g true
    let found ← if declared then pure true else if named then pure false else g .expression
    if !(named || declared || (← atText ",")) then
      if !found then report "expected expression"
      discard (expect ")")
      return .parenthesizedExpression
    if found then wrapLast .argument (pure ()) else discard (argument n g true)
    repeatUpTo n do
      if ← eat "," then orReport (argument n g true) "expected expression" else return false
    discard (expect ")")
    return .tupleExpression

/-- Values in brackets; the bracket comes next. -/
def collectionExpression (n : Nat) (g : Phrases) : Parse Unit :=
  node .collectionExpression do
    bump
    elementList n g "]"
    discard (expect "]")

/-- Operands of one token. -/
def literalKind? (ts : List Token) : Option NodeKind :=
  match kindAt ts 0 with
  | .numericLiteral => some .numericLiteralExpression
  | .stringLiteral => some .stringLiteralExpression
  | .charLiteral => some .characterLiteralExpression
  | .interpolatedString => some .interpolatedStringExpression
  | .keyword =>
    match textAt ts 0 with
    | "true" => some .trueLiteralExpression
    | "false" => some .falseLiteralExpression
    | "null" => some .nullLiteralExpression
    | "this" => some .thisExpression
    | "base" => some .baseExpression
    | "default" => if textAt ts 1 == "(" then none else some .defaultLiteralExpression
    | _ => none
  | _ => none

/-- An operand that starts with a keyword. -/
def keywordOperand (n : Nat) (g : Phrases) (ts : List Token) : Parse Bool := do
  match textAt ts 0 with
  | "new" => creation n g
  | "typeof" => parenthesizedType n g .typeOfExpression
  | "default" => parenthesizedType n g .defaultExpression
  | "sizeof" => parenthesizedType n g .sizeOfExpression
  | "checked" | "unchecked" =>
    node .checkedExpression do
      bump
      parenthesizedValue g
  | "delegate" => anonymousMethod n g 0
  | "stackalloc" => stackArray n g
  | _ => if startsPredefined ts then node .predefinedType bump else return false
  return true

/-- An operand without what may follow it. -/
def primary (n : Nat) (g : Phrases) : Parse Bool := do
  let ts ← upcoming
  if let some kind := literalKind? ts then
    node kind bump
    return true
  match kindAt ts 0 with
  | .identifier => simpleNameExpression n g
  | .keyword => return ← keywordOperand n g ts
  | .punct =>
    if startsText ts "(" then parenthesizedOrTuple n g
    else if startsText ts "[" then collectionExpression n g
    else return false
  | _ => return false
  return true

/-- One call, access or operator behind an operand. -/
def postfixStep (n : Nat) (g : Phrases) : Parse Bool := do
  let ts ← upcoming
  if kindAt ts 0 != .punct then return false
  match textAt ts 0 with
  | "." | "::" | "->" =>
    wrapLast .simpleMemberAccessExpression do
      bump
      if ← atIdentifier then
        simpleNameExpression n g
        return true
      report "expected identifier"
      return false
  | "?." =>
    wrapLast .conditionalAccessExpression do
      bump
      if ← atIdentifier then
        simpleNameExpression n g
        return true
      if ← atText "[" then
        bracketedArgumentList n g
        return true
      report "expected identifier"
      return false
  | "(" =>
    wrapLast .invocationExpression (argumentList n g)
    return true
  | "[" =>
    wrapLast .elementAccessExpression (bracketedArgumentList n g)
    return true
  | "?" =>
    if joined ts 0 && textAt ts 1 == "[" then
      wrapLast .elementAccessExpression do
        bump
        bracketedArgumentList n g
      return true
    return false
  | "++" | "--" | "!" =>
    wrapLast .postfixUnaryExpression bump
    return true
  | _ => return false

/-- An operand with the calls, accesses and operators behind it. -/
def operand (n : Nat) (g : Phrases) : Parse Bool := do
  if ← primary n g then
    repeatUpTo n (postfixStep n g)
    return true
  return false

/-- An operand of an operator, which has to be there. -/
def expectUnary (g : Phrases) : Parse Unit :=
  discard (orReport (g .unary) "expected expression")

/-- A cast, if there is one. -/
def castExpression (n : Nat) (g : Phrases) : Parse Bool := do
  if ← look (startsCast n) then
    node .castExpression do
      bump
      orGiveUp (fullType n g)
      discard (expect ")")
      expectUnary g
    return true
  return false

/-- `await` stands here as an operator, not as a name. -/
def startsAwait (ts : List Token) : Bool :=
  startsWord ts "await" && startsExpression (ts.drop 1) &&
    (textAt ts 1 ∉ ["-", "+", "*", "&", "^", ".."])

/-- An operand with the operators in front of it. -/
def unary (n : Nat) (g : Phrases) : Parse Bool := do
  let ts ← upcoming
  let text := textAt ts 0
  match kindAt ts 0 with
  | .punct =>
    if prefixOperators.contains text then
      node .prefixUnaryExpression do
        bump
        expectUnary g
      return true
    if text == ".." then
      node .rangeExpression do
        bump
        if startsExpression (← ahead) then discard (g .unary)
      return true
    if text == "(" then
      if ← castExpression n g then return true
    operand n g
  | .keyword =>
    if text == "ref" then
      node .prefixUnaryExpression do
        bump
        discard (eat "readonly")
        expectUnary g
      return true
    if text == "throw" then
      node .throwExpression do
        bump
        discard (expectExpression g)
      return true
    operand n g
  | .identifier =>
    if startsAwait ts then
      node .awaitExpression do
        bumpKeyword
        expectUnary g
      return true
    operand n g
  | _ => operand n g

/-! ### Binary operators, conditions and assignments -/

/-- The arms of a switch expression. -/
def switchArms (n : Nat) (g : Phrases) : Parse Unit := do
  if ← expect "\x7b" then
    repeatUpTo n do
      if (← atEnd) || (← atText "\x7d") then return false
      if ← pattern n then
        wrapLast .switchExpressionArm do
          if ← atWord "when" then
            bump
            discard (expectExpression g)
          discard (expect "=>")
          discard (expectExpression g)
        eat ","
      else
        skipToken "expected pattern"
        return true
    discard (expect "\x7d")

/-- The right side of a binary operator. -/
def rightSide (n : Nat) (g : Phrases) (op : BinaryOperator) : Parse Unit := do
  match op.form with
  | .plain => discard (orReport (g (.binary op.rightLeast)) "expected expression")
  | .isPattern => discard (orReport (pattern n) "expected pattern")
  | .asType =>
    if ← expectType (typePhrase n g false true) then
      let ts ← ahead
      if startsText ts "?" && !startsExpression (ts.drop 1) then wrapLast .nullableType bump
  | .switchArms => switchArms n g
  | .withValues => initializer n g
  | .range => if startsExpression (← ahead) then discard (g (.binary (op.precedence + 1)))

/-- An operand and the operators behind it that bind at least as tightly as `least`. -/
def binary (n : Nat) (g : Phrases) (least : Nat) : Parse Bool := do
  if !(← unary n g) then return false
  repeatUpTo n do
    match binaryOperator? (← ahead) with
    | none => return false
    | some op =>
      if op.precedence < least then return false
      wrapLast op.form.kind do
        bumpMany op.tokens
        rightSide n g op
      return true
  return true

/-- A condition with its two outcomes, or only what could be one. -/
def conditional (n : Nat) (g : Phrases) : Parse Bool := do
  if !(← binary n g 0) then return false
  if ← atText "?" then
    wrapLast .conditionalExpression do
      bump
      discard (expectExpression g)
      if ← expect ":" then discard (expectExpression g)
  return true

/-- Any expression. -/
def expression (n : Nat) (g : Phrases) : Parse Bool := do
  if ← lambda n g then return true
  if !(← conditional n g) then return false
  if let some (kind, tokens) := assignmentOperator? (← ahead) then
    wrapLast kind do
      bumpMany tokens
      if kind == .simpleAssignmentExpression then initialValue n g
      else discard (expectExpression g)
  return true

end PluginLint.Grammar
