import PluginLint.Grammar.Statements

/-!
# Members and type declarations

A member always places at least one token, unless the file is at its end.
-/
namespace PluginLint.Grammar

def memberModifiers : List String :=
  ["public", "private", "protected", "internal", "static", "abstract", "sealed", "virtual",
   "override", "readonly", "extern", "unsafe", "new", "const", "volatile"]

/-- Modifiers only when a word follows them. -/
def contextualModifiers : List String := ["async", "partial", "required", "file"]

def startsModifier (ts : List Token) : Bool :=
  match kindAt ts 0 with
  | .keyword => memberModifiers.contains (textAt ts 0)
  | .identifier => contextualModifiers.contains (textAt ts 0) && isWordKind (kindAt ts 1)
  | _ => false

/-- A word that declares a type. -/
def startsTypeKeyword (ts : List Token) : Bool :=
  let text := textAt ts 0
  if ["class", "struct", "interface", "enum", "delegate"].contains text then
    kindAt ts 0 == .keyword
  else
    startsWord ts "record" &&
      (kindAt ts 1 == .identifier || ["class", "struct"].contains (textAt ts 1))

/-- Behind attributes and modifiers, a type is declared. -/
def startsTypeDeclaration : Nat → List Token → Except Panic Bool
  | 0, _ => .error .endless
  | n + 1, ts => do
    if startsText ts "[" then
      let some rest ← skipBrackets 0 ts | return false
      startsTypeDeclaration n rest
    else if startsModifier ts then startsTypeDeclaration n (ts.drop 1)
    else return startsTypeKeyword ts

/-- Places modifiers. -/
def modifiers (n : Nat) : Parse Unit :=
  repeatUpTo n do
    if startsModifier (← ahead) then
      bumpKeyword
      return true
    return false

/-! ### Accessors -/

def accessorKeywords : List String := ["get", "set", "init", "add", "remove"]

/-- One accessor, with its attributes and modifiers. -/
def accessor (n : Nat) (g : Phrases) : Parse Bool :=
  nodeWhen .accessorDeclaration do
    attributeLists n
    repeatUpTo n do
      if ["private", "protected", "internal", "readonly"].contains (textAt (← upcoming) 0) then
        bump
        return true
      return false
    let ts ← ahead
    if startsIdentifier ts && accessorKeywords.contains (textAt ts 0) then
      bumpKeyword
      memberBody g
      return true
    return false

/-- Accessors in braces; the brace comes next. -/
def accessorList (n : Nat) (g : Phrases) : Parse Unit :=
  node .accessorList do
    bump
    repeatUpTo n do
      if (← atEnd) || (← atText "\x7d") then return false
      if !(← accessor n g) then skipToken "expected accessor"
      return true
    discard (expect "\x7d")

def accessorsOrSemicolon (n : Nat) (g : Phrases) : Parse Unit := do
  if ← atText "\x7b" then accessorList n g else discard (expect ";")

def accessorsOrArrow (n : Nat) (g : Phrases) : Parse Unit := do
  if ← atText "=>" then
    arrowClause g
    discard (expect ";")
  else
    accessorsOrSemicolon n g
    if ← atText "=" then
      equalsValueClause n g
      discard (expect ";")

/-! ### Names of members -/

/-- A segment of the name of an interface in front of the name of a member. -/
def startsInterfaceSegment (n : Nat) (ts : List Token) : Except Panic Bool := do
  if !startsIdentifier ts then return false
  if textAt ts 1 == "<" then
    let some rest ← skipTypeArguments n (ts.drop 1) | return false
    return startsText rest "."
  return textAt ts 1 == "."

/-- The interface that a member implements by name. -/
def interfaceSpecifier (n : Nat) (g : Phrases) : Parse Bool := do
  if ← look (startsInterfaceSegment n) then
    node .explicitInterfaceSpecifier do
      simpleTypeName n g
      bump
      repeatUpTo n do
        if ← look (startsInterfaceSegment n) then
          simpleTypeName n g
          wrapAll .qualifiedName
          bump
          return true
        return false
    return true
  return false

/-- The operator that is declared. -/
def operatorToken : Parse Unit := do
  if ← atEnd then report "expected operator"
  else
    let ts ← ahead
    if startsText ts ">" && joined ts 0 && textAt ts 1 == ">" then
      bump
      let ts ← ahead
      if joined ts 0 && textAt ts 1 == ">" then bump
    bump

/-! ### Members -/

/-- Fields or events: variables of the type placed last. -/
def fields (n : Nat) (g : Phrases) : Parse Unit := do
  declareVariables n g
  discard (expect ";")

def constructor (n : Nat) (g : Phrases) : Parse NodeKind := do
  bump
  parameterList n g
  let ts ← ahead
  if startsText ts ":" && ["base", "this"].contains (textAt ts 1) then
    node .constructorInitializer do
      bump
      bump
      if ← atText "(" then argumentList n g else report "expected `(`"
  memberBody g
  return .constructorDeclaration

def destructor (n : Nat) (g : Phrases) : Parse NodeKind := do
  bump
  discard expectIdentifier
  expectParameterList n g
  memberBody g
  return .destructorDeclaration

def conversion (n : Nat) (g : Phrases) : Parse NodeKind := do
  bump
  discard (expect "operator")
  discard (eat "checked")
  discard (expectType (fullType n g))
  expectParameterList n g
  memberBody g
  return .operatorDeclaration

def event (n : Nat) (g : Phrases) : Parse NodeKind := do
  bump
  if ← expectType (fullType n g) then
    if ← interfaceSpecifier n g then
      discard expectIdentifier
      accessorsOrSemicolon n g
    else
      let ts ← ahead
      if startsIdentifier ts && textAt ts 1 == "\x7b" then
        bump
        accessorList n g
      else fields n g
  return .eventDeclaration

def operatorRest (n : Nat) (g : Phrases) : Parse NodeKind := do
  bump
  discard (eat "checked")
  operatorToken
  expectParameterList n g
  memberBody g
  return .operatorDeclaration

def indexerRest (n : Nat) (g : Phrases) : Parse NodeKind := do
  bump
  if ← atText "[" then parametersTo n g "]" .bracketedParameterList else report "expected `[`"
  accessorsOrArrow n g
  return .indexerDeclaration

/-- A method or a property from behind its name on. -/
def namedRest (n : Nat) (g : Phrases) : Parse NodeKind := do
  let ts ← ahead
  if startsText ts "<" || startsText ts "(" then
    optionalTypeParameters n
    expectParameterList n g
    constraintClauses n g
    memberBody g
    return .methodDeclaration
  if startsText ts "\x7b" || startsText ts "=>" then
    accessorsOrArrow n g
    return .propertyDeclaration
  report "expected `(`, `\x7b` or `=>`"
  return .error

/-- A member whose type has been placed. -/
def typedMember (n : Nat) (g : Phrases) : Parse NodeKind := do
  let ts ← ahead
  if startsIdentifier ts && ["=", ";", ","].contains (textAt ts 1) then
    fields n g
    return .fieldDeclaration
  if startsText ts "operator" then return ← operatorRest n g
  discard (interfaceSpecifier n g)
  if ← atText "this" then return ← indexerRest n g
  if ← expectIdentifier then namedRest n g else return .error

/-! ### Types -/

/-- The types that a type is based on; a colon comes next. -/
def baseList (n : Nat) (g : Phrases) : Parse Unit :=
  node .baseList do
    bump
    commaSeparated n do
      if ← orReport (fullType n g) "expected base type" then
        wrapLast .simpleBaseType do
          if ← atText "(" then argumentList n g
        return true
      return false

def optionalBaseList (n : Nat) (g : Phrases) : Parse Unit := do
  if ← atText ":" then baseList n g

def enumMember (n : Nat) (g : Phrases) : Parse Bool :=
  nodeWhen .enumMemberDeclaration do
    attributeLists n
    if ← expectIdentifier then
      if ← atText "=" then equalsValueClause n g
      return true
    return false

def enumRest (n : Nat) (g : Phrases) : Parse NodeKind := do
  bump
  discard expectIdentifier
  optionalBaseList n g
  if ← expect "\x7b" then
    repeatUpTo n do
      if (← atEnd) || (← atText "\x7d") then return false
      if ← enumMember n g then eat ","
      else
        skipToken "expected enum member"
        return true
    discard (expect "\x7d")
    discard (eat ";")
  return .enumDeclaration

def delegateRest (n : Nat) (g : Phrases) : Parse NodeKind := do
  bump
  discard (expectType (fullType n g))
  discard expectIdentifier
  optionalTypeParameters n
  expectParameterList n g
  constraintClauses n g
  discard (expect ";")
  return .delegateDeclaration

/-- A type from behind its first words on. -/
def typeRest (n : Nat) (g : Phrases) : Parse Unit := do
  discard expectIdentifier
  optionalTypeParameters n
  if ← atText "(" then parameterList n g
  optionalBaseList n g
  constraintClauses n g
  if ← eat "\x7b" then
    repeatUpTo n do
      if (← atEnd) || (← atText "\x7d") then return false
      g .member
    discard (expect "\x7d")
    discard (eat ";")
  else discard (expect ";")

/-- A type behind its modifiers. -/
def typeDeclaration (n : Nat) (g : Phrases) : Parse NodeKind := do
  match textAt (← upcoming) 0 with
  | "enum" => enumRest n g
  | "delegate" => delegateRest n g
  | "class" =>
    bump
    typeRest n g
    return .classDeclaration
  | "struct" =>
    bump
    typeRest n g
    return .structDeclaration
  | "interface" =>
    bump
    typeRest n g
    return .interfaceDeclaration
  | _ =>
    bumpKeyword
    if ← eat "struct" then
      typeRest n g
      return .recordStructDeclaration
    discard (eat "class")
    typeRest n g
    return .recordDeclaration

/-- A member of a type, or a type in a namespace. -/
def member (n : Nat) (g : Phrases) : Parse Unit :=
  nodeOf do
    attributeLists n
    modifiers n
    let ts ← upcoming
    if startsTypeKeyword ts then return ← typeDeclaration n g
    match textAt ts 0 with
    | "event" => event n g
    | "~" => destructor n g
    | "implicit" | "explicit" => conversion n g
    | _ =>
      if startsIdentifier ts && textAt ts 1 == "(" then return ← constructor n g
      if ← fullType n g then return ← typedMember n g
      report "expected member declaration"
      if ← isBlankNode then bump
      return .error

end PluginLint.Grammar
