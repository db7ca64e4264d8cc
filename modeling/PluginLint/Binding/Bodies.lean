import PluginLint.Binding.Declarations

/-!
# Bodies and their variables

A body is a part of a file with parameters and variables of its own: a method, a local function, an
accessor, a type with parameters, or the file itself.
-/
namespace PluginLint.Binding

/-- Where the type of a variable comes from. -/
inductive VariableType where
  /-- A written type; `var` stands for the type of the value given at the start. -/
  | declared (type : Node) (value? : Option Node)
  /-- The variable of a loop; `var` stands for the type of the elements. -/
  | element (type collection : Node)
  | unknown
  deriving Repr

/-- A variable or a parameter. -/
structure Variable where
  name : String
  /-- The variable can be used from here on. -/
  offset : Nat
  type : VariableType
  deriving Repr

/-- A part of a file with parameters and variables of its own. -/
structure Body where
  span : Span
  scope : Scope
  parameters : List Variable := []
  declared : List Variable := []
  deriving Repr

namespace Variable

/-- The parameters in a list. -/
def parameters (list : Node) : List Variable :=
  (list.childrenOfKind .parameter).filterMap fun p =>
    (identifierName? p).map fun name =>
      { name
        offset := list.span.start
        type :=
          match p.findChild? NodeKind.isType with
          | some type => .declared type none
          | none => .unknown }

/-- The parameters in the list of a kind below a node. -/
def parametersOf (n : Node) (kind : NodeKind) : List Variable :=
  ((n.childOfKind? kind).map parameters).getD []

/-- The variables of a declaration. -/
def ofDeclaration (declaration : Node) : List Variable :=
  match declaration.findChild? NodeKind.isType with
  | none => []
  | some type =>
    (declaration.childrenOfKind .variableDeclarator).filterMap fun v =>
      (identifierName? v).map fun name =>
        let value? := (v.childOfKind? .equalsValueClause).bind fun c => c.childNodes.head?
        { name, offset := v.span.start, type := .declared type value? }

/-- The variable of a loop over a collection. -/
def ofLoop? (n : Node) : Option Variable := do
  let name ← n.identifier?
  match n.childNodes with
  | type :: collection :: _ =>
    return { name := nameText name.text
             offset := name.span.start
             type := .element type collection }
  | _ => none

/-- The variables that a node declares in the body around it. -/
def ofNode (n : Node) : List Variable :=
  match n.kind with
  | .localDeclarationStatement | .forStatement | .usingStatement | .fixedStatement =>
    ((n.childOfKind? .variableDeclaration).map ofDeclaration).getD []
  | .forEachStatement => (ofLoop? n).toList
  | .catchDeclaration | .declarationExpression =>
    match identifierName? n, n.findChild? NodeKind.isType with
    | some name, some type => [{ name, offset := n.span.start, type := .declared type none }]
    | _, _ => []
  | .simpleLambdaExpression =>
    match (n.childOfKind? .parameter).bind identifierName? with
    | some name => [{ name, offset := n.span.start, type := .unknown }]
    | none => []
  | .parenthesizedLambdaExpression =>
    (parametersOf n .parameterList).map fun v => { v with offset := n.span.start }
  | _ => []

end Variable

namespace Body

/-- A body that starts where the span does, with type parameters and parameters of its own. -/
def make (scopes : FileScopes) (span : Span) (typeParameters : List String)
    (parameters : List Variable) : Body :=
  let scope := scopes.scopeAt span.start
  { span
    scope := { scope with typeParameters := scope.typeParameters ++ typeParameters }
    parameters }

/-- The accessors of a member that are given a value, which has the type of the member. -/
def settersOf (scopes : FileScopes) (member : Node) : List Body :=
  match member.findChild? NodeKind.isType, member.childOfKind? .accessorList with
  | some type, some list =>
    ((list.childrenOfKind .accessorDeclaration).filter fun a =>
      a.childTokens.any fun t => ["set", "init", "add", "remove"].contains t.text).map fun a =>
        make scopes a.span []
          [{ name := "value", offset := a.span.start, type := .declared type none }]
  | _, _ => []

/-- The bodies that a node begins. -/
def ofNode (scopes : FileScopes) (n : Node) : List Body :=
  match n.kind with
  | .methodDeclaration | .constructorDeclaration | .operatorDeclaration | .destructorDeclaration
  | .localFunctionStatement =>
    [make scopes n.span (typeParameterNames n) (Variable.parametersOf n .parameterList)]
  | .indexerDeclaration =>
    make scopes n.span [] (Variable.parametersOf n .bracketedParameterList) :: settersOf scopes n
  | .propertyDeclaration | .eventDeclaration => settersOf scopes n
  | kind =>
    if kind.isTypeDeclaration then
      match n.childOfKind? .parameterList with
      | some list => [make scopes n.span [] (Variable.parameters list)]
      | none => []
    else []

/-- The place of the innermost body around an offset; the first one is around all. -/
def innermost (bodies : List Body) (offset : Nat) : Nat :=
  ((leastBy? (fun p => p.1.span.length)
    (bodies.zipIdx.filter fun p => reaches p.1.span offset)).map Prod.snd).getD 0

/-- The bodies around an offset, innermost first. -/
def around (bodies : List Body) (offset : Nat) : List Body :=
  (bodies.filter fun b => reaches b.span offset).mergeSort fun a b =>
    a.span.length ≤ b.span.length

/-- Each variable put into the innermost body around it. -/
def addVariables (bodies : List Body) (found : List Variable) : List Body :=
  let placed := found.map fun v => (innermost bodies v.offset, v)
  bodies.zipIdx.map fun (b, i) =>
    { b with declared := placed.filterMap fun (j, v) => if j == i then some v else none }

/-- All bodies of a file with their variables. The first one is the file. -/
def ofFile (scopes : FileScopes) (file : SourceFile) : List Body :=
  let nodes := file.nodes
  addVariables
    (make scopes file.root.fullSpan [] [] :: nodes.flatMap (ofNode scopes))
    (nodes.flatMap Variable.ofNode)

/-- The variable or parameter of a body that a name stands for at an offset. Of variables with one
name the last counts, of parameters the first. -/
def find? (b : Body) (name : String) (offset : Nat) : Option Variable :=
  (b.declared.reverse.find? fun v => v.name == name && v.offset ≤ offset).or
    (b.parameters.find? fun p => p.name == name)

end Body

/-! ### Members set while an object is made -/

/-- The names set in braces after an object, each with the object. -/
def initializedNames (object initializer : Node) : List (Span × Node) :=
  (initializer.childrenOfKind .simpleAssignmentExpression).filterMap fun a =>
    (a.childNodes.head?.filter fun name => name.kind == .identifierName).map fun name =>
      (name.span, object)

/-- The names that a node sets on an object, each with the object. -/
def initializedBy (n : Node) : List (Span × Node) :=
  match n.kind with
  | .objectCreationExpression =>
    ((n.childOfKind? .initializerExpression).map (initializedNames n)).getD []
  | .withExpression =>
    match n.childNodes.head?, n.childOfKind? .initializerExpression with
    | some object, some initializer => initializedNames object initializer
    | _, _ => []
  | .simpleAssignmentExpression =>
    match n.childNodes with
    | member :: value :: _ =>
      if member.kind = .identifierName && value.kind = .initializerExpression then
        initializedNames member value
      else []
    | _ => []
  | _ => []

end PluginLint.Binding
