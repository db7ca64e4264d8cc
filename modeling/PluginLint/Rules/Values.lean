import PluginLint.Rules.Rule
import PluginLint.Syntax.Chain

/-!
# Values and new objects

Rules on the values that members are set to, on the way objects are made, and on the test for an
attribute of an entity.
-/
namespace PluginLint.Rules

/-! ### Numbers for enumerations -/

/-- The number that an expression is, in casts and parentheses or not. -/
def numericLiteral? (n : Node) : Option Node :=
  match n.kind with
  | .numericLiteralExpression => some n
  | .castExpression | .parenthesizedExpression =>
    match _h : n.innerExpression? with
    | some c => numericLiteral? c
    | none => none
  | _ => none
termination_by n.size
decreasing_by exact Node.size_innerExpression _h

/-- What a node sets, and the value. -/
def assignment? (n : Node) : Option (Node × Node) :=
  if n.kind = .simpleAssignmentExpression then
    match n.childNodes with
    | left :: right :: _ => some (left, right)
    | _ => none
  else
    ((n.childOfKind? .equalsValueClause).bind fun c => c.childNodes.head?).map fun v => (n, v)

/-- The name of what is set. -/
def targetName (n : Node) : String :=
  let name? :=
    match n.kind with
    | .propertyDeclaration | .identifierName => n.identifier?
    | .simpleMemberAccessExpression => n.memberName?.bind Node.identifier?
    | _ => none
  (name?.map PlacedToken.text).getD "property"

/-- A number where a member of an enumeration is meant. -/
def numberForEnum (model : SemanticModel) (n : Node) : List Violation :=
  match assignment? n with
  | none => []
  | some (target, value) =>
    match numericLiteral? value, model.typeOf target with
    | some literal, some t =>
      if t.unwrapNullable.isEnum then [⟨value.span, [targetName target, literal.text]⟩] else []
    | _, _ => []

def enumAssignment : Rule where
  code := "CT0002"
  name := "enum-assignment"
  description := "Enum-typed targets must be assigned enum members, not numeric literals"
  category := .usage
  message := "Assign an enum member to '\x7b0\x7d' instead of the literal \x7b1\x7d"
  triggers := [.simpleAssignmentExpression, .propertyDeclaration]
  check context n := .ok (numberForEnum context.model n)

/-! ### Empty parentheses -/

/-- Empty parentheses between a type and the members that are set. -/
def emptyParentheses (n : Node) : List Violation :=
  match n.childOfKind? .initializerExpression, n.argumentList? with
  | some _, some arguments =>
    if arguments.argumentExpressions.isEmpty then
      let type := ((n.findChild? NodeKind.isType).map Node.text).getD "object"
      [⟨arguments.span, [type]⟩]
    else []
  | _, _ => []

def objectInitialization : Rule where
  code := "CT0003"
  name := "object-initialization"
  description := "Object creations with an initializer should omit an empty argument list"
  category := .style
  message := "Remove the empty parentheses from the creation of '\x7b0\x7d'"
  triggers := [.objectCreationExpression]
  check _ n := .ok (emptyParentheses n)

/-! ### Attributes of entities -/

/-- What is between the quotes of a literal. As many bytes are cut off at the end as there are
quotes at the start; a doubled quote after `@` stands for one. -/
def stringValue (text : String) : String :=
  let body := text.toList.dropWhile (· == '@')
  let quotes := (body.takeWhile (· == '"')).length
  let inner :=
    (Text.slice? (String.ofList body) quotes (Text.byteLength body - quotes)).getD ""
  if Text.startsWith text "@" then
    String.ofList (Text.replaceAll ['"', '"'] ['"'] inner.toList)
  else inner

/-- The attribute that a call asks for, if it is written out. -/
def attributeName (call : Node) : String :=
  match (call.argumentList?.map Node.argumentExpressions).getD [] with
  | [argument] =>
    if argument.kind == .stringLiteralExpression then stringValue argument.text
    else if argument.kind.isLiteral && argument.kind != .interpolatedStringExpression then
      argument.text
    else "attribute"
  | _ => "attribute"

/-- A call of `Contains` with a text on an entity. -/
def entityContainsCall (model : SemanticModel) (n : Node) : List Violation :=
  match n.callee? with
  | none => []
  | some callee =>
    if callee.kind == .simpleMemberAccessExpression && n.invokedName? == some "Contains" &&
        (model.methodOf n).any (·.takesOnly .string) &&
        (callee.receiver?.bind model.typeOf).any
          (·.baseChainContains "Microsoft.Xrm.Sdk" "Entity") then
      [⟨n.span, [attributeName n]⟩]
    else []

def entityContains : Rule where
  code := "CT0007"
  name := "entity-contains"
  description := "Entity.Contains checks presence only; read attributes with GetAttributeValue"
  category := .usage
  message := "Do not use Entity.Contains for '\x7b0\x7d'; use GetAttributeValue instead"
  triggers := [.invocationExpression]
  check context n := .ok (entityContainsCall context.model n)

end PluginLint.Rules
