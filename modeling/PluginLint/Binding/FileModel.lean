import PluginLint.Binding.Bodies
import PluginLint.Binding.Compilation
import PluginLint.Model.SemanticModel

/-!
# Types of expressions

The type of an expression is found from the types of its parts and of the variables and members it
names. The rules for one expression are given once, with a function for the types of other
expressions; following them at most so many times gives the answer.
-/
namespace PluginLint.Binding

/-- What is known about one file. -/
structure FileModel where
  compilation : Compilation
  scopes : FileScopes
  /-- The first one is the file itself. -/
  bodies : List Body
  /-- The names set while an object is made, each with the object. -/
  initialized : List (Span × Node)
  localFunctions : List Node

/-- The type is left to be found out. -/
def isVar (type : Node) : Bool := type.kind == .identifierName && type.text == "var"

/-- The type of a number, from the form of its text. -/
def numberType (text : String) : SpecialType :=
  let lower := Text.toLowerAscii text
  let ends := Text.endsWith lower
  let plain := !(Text.startsWith lower "0x" || Text.startsWith lower "0b")
  if ends "ul" || ends "lu" then .uint64
  else if ends "l" then .int64
  else if ends "u" then .uint32
  else if ends "m" then .decimal
  else if plain && ends "f" then .single
  else if plain && (ends "d" || Text.contains lower "." || Text.contains lower "e") then .double
  else .int32

namespace FileModel

/-- What is known about a file of a compilation. -/
def make (c : Compilation) (scopes : FileScopes) (file : SourceFile) : FileModel :=
  let nodes := file.nodes
  { compilation := c
    scopes
    bodies := Body.ofFile scopes file
    initialized := nodes.flatMap initializedBy
    localFunctions := nodes.filter fun n => n.kind == .localFunctionStatement }

/-- The scope at an offset. -/
def scopeAt (m : FileModel) (offset : Nat) : Scope :=
  match Body.innermost m.bodies offset with
  | 0 => m.scopes.scopeAt offset
  | i => ((m.bodies[i]?).map Body.scope).getD {}

/-- The type around an offset. -/
def enclosingType? (m : FileModel) (offset : Nat) : Option TypeSymbol :=
  (m.scopes.typeAt? offset).map fun c => m.compilation.symbol c.declaration

/-- The type that a node stands for, in the scope at an offset. -/
def resolveAt (m : FileModel) (offset : Nat) (type : Node) : TypeSymbol :=
  m.compilation.resolve (m.scopeAt offset) (TypeExpr.ofNode type)

/-- The type that a node stands for where it is written. -/
def resolve (m : FileModel) (type : Node) : TypeSymbol := m.resolveAt type.span.start type

/-- The type of the first part that is a type. -/
def writtenType? (m : FileModel) (n : Node) : Option TypeSymbol :=
  (n.findChild? NodeKind.isType).map (m.resolveAt n.span.start)

/-- The object that is being made where a name is set. -/
def initializedObject? (m : FileModel) (name : Span) : Option Node :=
  (m.initialized.reverse.find? fun (s, _) => s == name).map Prod.snd

/-- The variable that a name stands for at an offset. -/
def findVariable? (m : FileModel) (name : String) (offset : Nat) : Option Variable :=
  (Body.around m.bodies offset).findSome? fun b => b.find? name offset

/-- The local function that can be called with so many arguments. -/
def localFunction? (m : FileModel) (name : String) (count : Nat)
    (typeArguments : List TypeSymbol) : Option MethodSymbol :=
  m.localFunctions.findSome? fun f => do
    guard (identifierName? f == some name)
    let list ← f.childOfKind? .parameterList
    let parameters := parameterDecls list
    guard (accepts parameters count)
    let scope := m.scopeAt list.span.start
    let known := (typeParameterNames f).zip typeArguments
    let resolve := fun t => substitute known (m.compilation.resolve scope t)
    return ⟨name, none, parameters.map (Compilation.parameterSymbol resolve),
      (childType? f).map resolve⟩

section

/- The rules, given the types of other expressions. -/
variable (m : FileModel) (infer : Node → Option TypeSymbol)

/-- The type of a variable. -/
def variableType? (v : Variable) : Option TypeSymbol :=
  match v.type with
  | .declared type value? => if isVar type then value?.bind infer else m.resolve type
  | .element type collection =>
    if isVar type then (infer collection).bind m.compilation.elementType? else m.resolve type
  | .unknown => none

/-- The value that a type around an offset has under a name. -/
def enclosingMember? (name : String) (offset : Nat) : Option TypeSymbol :=
  (m.scopeAt offset).types.reverse.findSome? fun i =>
    m.compilation.memberType? (m.compilation.symbol i) name

/-- A name that is no variable: a member of a type around it, or else a type. -/
def outerNameType (n : Node) (name : String) : TypeSymbol :=
  let offset := n.span.start
  let scope := m.scopeAt offset
  let named := m.compilation.resolveName scope name (m.compilation.argumentTypes scope n)
  if n.kind = .identifierName then (m.enclosingMember? name offset).getD named else named

/-- The type of a name: a member of an object being made, a variable, a member of a type around
it, or a type. -/
def nameType? (n : Node) : Option TypeSymbol := do
  let name ← identifierName? n
  match m.initializedObject? n.span with
  | some object => m.compilation.memberType? (← infer object) name
  | none =>
    let found? :=
      if n.kind = .identifierName then m.findVariable? name n.span.start else none
    match found? with
    | some v => m.variableType? infer v
    | none => return m.outerNameType n name

/-- The type of a member of an object, or of a type named with its namespace. -/
def memberAccessType? (n : Node) : Option TypeSymbol :=
  match n.childNodes with
  | receiver :: member :: _ => do
    let receiverType? := infer receiver
    if member.kind = .bracketedArgumentList then m.compilation.indexerType? (← receiverType?)
    else
      let name ← identifierName? member
      match receiverType?.bind fun t => m.compilation.memberType? t name with
      | some t => return t
      | none => m.compilation.resolveDotted? (m.scopeAt n.span.start) (← dottedName? n)
  | _ => none

/-- The method that a call calls. -/
def calledMethod? (call : Node) : Option MethodSymbol := do
  let callee ← call.childNodes.head?
  let count := ((call.childOfKind? .argumentList).map fun list =>
    (list.childrenOfKind .argument).length).getD 0
  let scope := m.scopeAt call.span.start
  match callee.kind with
  | .identifierName | .genericName =>
    let name ← identifierName? callee
    let typeArguments := m.compilation.argumentTypes scope callee
    (m.localFunction? name count typeArguments).or
      (scope.types.reverse.findSome? fun i =>
        m.compilation.findMethod? (m.compilation.symbol i) name count typeArguments)
  | .simpleMemberAccessExpression | .conditionalAccessExpression =>
    match callee.childNodes with
    | receiver :: member :: _ =>
      guard member.kind.isSimpleName
      let name ← identifierName? member
      let typeArguments := m.compilation.argumentTypes scope member
      ((infer receiver).bind fun t => m.compilation.findMethod? t name count typeArguments).or
        (m.compilation.findExtension? name count typeArguments)
    | _ => none
  | _ => none

/-- The type of the value of a call. -/
def callType? (n : Node) : Option TypeSymbol := do
  let callee ← n.childNodes.head?
  if callee.kind = .identifierName && identifierName? callee == some "nameof" then
    return .ofSpecial .string
  (← m.calledMethod? infer n).returns?

end

/-- The operators whose value is a truth value. -/
def testOperators : List String := ["==", "!=", "<", ">", "<=", ">=", "&&", "||"]

/-- The type of two operands joined by an operator. -/
def binaryType? (infer : Node → Option TypeSymbol) (n : Node) : Option TypeSymbol :=
  match n.childNodes with
  | left :: right :: _ =>
    let operator := Text.join "" (n.childTokens.map PlacedToken.text)
    if testOperators.contains operator then some (.ofSpecial .boolean)
    else if operator = "??" then
      match infer left with
      | some t => if t.isNullable then t.arguments.head? else some t
      | none => infer right
    else if operator = "+" then
      let types := (infer left).toList ++ (infer right).toList
      if types.any fun t => t.special == .string then some (.ofSpecial .string) else types.head?
    else (infer left).or (infer right)
  | _ => none

/-- The type of the value that a task leads to. -/
def awaitedType (t : TypeSymbol) : TypeSymbol :=
  if (t.name == "Task" || t.name == "ValueTask") && t.space == some "System.Threading.Tasks" then
    t.arguments.head?.getD (.ofSpecial .void)
  else t

/-- The type of an expression, given the types of other expressions. -/
def typeFrom (m : FileModel) (infer : Node → Option TypeSymbol) (n : Node) : Option TypeSymbol :=
  let first := n.childNodes.head?
  match n.kind with
  | .identifierName | .genericName => m.nameType? infer n
  | .qualifiedName | .predefinedType | .nullableType | .arrayType | .tupleType => m.resolve n
  | .numericLiteralExpression => some (.ofSpecial (numberType n.text))
  | .stringLiteralExpression | .interpolatedStringExpression => some (.ofSpecial .string)
  | .characterLiteralExpression => some (.ofSpecial .char)
  | .trueLiteralExpression | .falseLiteralExpression | .isPatternExpression =>
    some (.ofSpecial .boolean)
  | .sizeOfExpression => some (.ofSpecial .int32)
  | .thisExpression => m.enclosingType? n.span.start
  | .baseExpression => (m.enclosingType? n.span.start).bind TypeSymbol.base
  | .parenthesizedExpression | .checkedExpression | .simpleAssignmentExpression
  | .compoundAssignmentExpression | .postfixUnaryExpression | .equalsValueClause
  | .arrowExpressionClause => first.bind infer
  | .castExpression | .defaultExpression | .objectCreationExpression | .arrayCreationExpression
  | .parameter | .propertyDeclaration => m.writtenType? n
  | .declarationExpression =>
    if (n.findChild? NodeKind.isType).any isVar then none else m.writtenType? n
  | .asExpression => n.childNodes[1]?.map fun t => orMissing (m.resolveAt n.span.start t)
  | .typeOfExpression => m.compilation.resolveDotted? (m.scopeAt n.span.start) "System.Type"
  | .simpleMemberAccessExpression => m.memberAccessType? infer n
  | .conditionalAccessExpression => (m.memberAccessType? infer n).map orMissing
  | .elementAccessExpression => (first.bind infer).bind m.compilation.indexerType?
  | .invocationExpression => m.callType? infer n
  | .awaitExpression => (first.bind infer).map awaitedType
  | .conditionalExpression =>
    match n.childNodes with
    | _ :: whenTrue :: whenFalse :: _ => (infer whenTrue).or (infer whenFalse)
    | _ => none
  | .prefixUnaryExpression =>
    if n.firstToken?.any fun t => t.text == "!" then some (.ofSpecial .boolean)
    else first.bind infer
  | .binaryExpression => binaryType? infer n
  | kind =>
    if kind.isTypeDeclaration then
      (m.scopes.types.find? fun c => c.span == n.span).map fun c =>
        m.compilation.symbol c.declaration
    else none

/-- The type of an expression, found by following the rules at most `steps` deep. -/
def typeWithin (m : FileModel) : Nat → Node → Option TypeSymbol
  | 0, _ => none
  | steps + 1, n => m.typeFrom (m.typeWithin steps) n

/-- The depth to which the rules are followed; what needs more, such as a variable that is its own
start value, has no known type. -/
def depthLimit : Nat := 33

/-- The answers about the nodes of the file. -/
def toSemanticModel (m : FileModel) : SemanticModel where
  typeOf n := m.typeWithin depthLimit n
  methodOf n :=
    if n.kind = .invocationExpression then m.calledMethod? (m.typeWithin (depthLimit - 1)) n
    else none

end FileModel

/-- Binds files together: the answers about each, in order. -/
def bind (files : List SourceFile) : List SemanticModel :=
  let c := Compilation.ofFiles files
  (files.zip c.files).map fun (file, scopes) => (FileModel.make c scopes file).toSemanticModel

end PluginLint.Binding
