import PluginLint.Docs.Comment
import PluginLint.Rules.Rule

/-!
# Constructors and plugin classes
-/
namespace PluginLint.Rules

/-! ### Services asked for twice -/

/-- The ends of the names of services. -/
def serviceEndings : List String :=
  ["Service", "Repository", "Handler", "Provider", "Factory", "Manager", "Client"]

/-- The type is that of a service, by its name. -/
def isService (t : TypeSymbol) : Bool := serviceEndings.any (Text.endsWith t.name)

/-- Names under the types they have, types in the order of their first name. -/
abbrev Groups := List (TypeSymbol × List String)

/-- Adds a name to those of its type. -/
def Groups.add (t : TypeSymbol) (name : String) : Groups → Groups
  | [] => [(t, [name])]
  | (u, names) :: rest =>
    if u == t then (u, names ++ [name]) :: rest else (u, names) :: Groups.add t name rest

/-- The type and the name of a parameter that is a service. -/
def serviceParameter? (model : SemanticModel) (p : Node) : Option (TypeSymbol × String) := do
  let _ ← p.findChild? NodeKind.isType
  let t ← model.typeOf p
  let name ← p.identifier?
  if isService t then some (t, name.text) else none

/-- The names of the services in a list of parameters, by type. -/
def serviceGroups (model : SemanticModel) (list : Node) : Groups :=
  ((list.childrenOfKind .parameter).filterMap (serviceParameter? model)).foldl
    (fun groups (t, name) => groups.add t name) []

/-- A service that a constructor takes more than once. -/
def repeatedServices (model : SemanticModel) (n : Node) : List Violation :=
  match n.childOfKind? .parameterList with
  | none => []
  | some list =>
    ((serviceGroups model list).filter fun (_, names) => 2 ≤ names.length).map fun (t, names) =>
      ⟨list.span, [t.displayName, Text.join ", " names]⟩

def duplicateConstructorParameterType : Rule where
  code := "CT0005"
  name := "duplicate-constructor-parameter-type"
  description := "Constructors should not take several parameters of the same service type"
  category := .usage
  message := "Constructor takes '\x7b0\x7d' more than once: \x7b1\x7d"
  triggers :=
    [.constructorDeclaration, .classDeclaration, .structDeclaration, .recordDeclaration,
     .recordStructDeclaration]
  check context n := .ok (repeatedServices context.model n)

/-! ### Documentation of plugins -/

/-- The names of what makes a class a plugin. -/
def pluginBases : List String := ["Plugin", "IPlugin"]

/-- The last name of a dotted name. -/
def rightmostName? (n : Node) : Option String :=
  match n.kind with
  | .identifierName | .genericName => n.identifier?.map PlacedToken.text
  | .qualifiedName =>
    match _h : n.childNodes.getLast? with
    | some c => rightmostName? c
    | none => none
  | _ => none
termination_by n.size
decreasing_by exact Node.size_lt_of_mem_childNodes (List.mem_of_getLast? _h)

/-- The class is written as based on a plugin, whether that is known or not. -/
def namesPluginBase (n : Node) : Bool :=
  match n.childOfKind? .baseList with
  | none => false
  | some list =>
    (list.childrenOfKind .simpleBaseType).any fun b =>
      ((b.findChild? NodeKind.isType).bind rightmostName?).any pluginBases.contains

/-- What the class is based on is a plugin. The class itself does not count. -/
def derivesFromPlugin (model : SemanticModel) (n : Node) : Bool :=
  (model.typeOf n).any fun t =>
    (t.base.toList ++ t.interfaces).any fun parent => pluginBases.any parent.implements

/-- A plugin without documentation. -/
def undocumentedPlugin (model : SemanticModel) (n : Node) : List Violation :=
  match n.identifier? with
  | none => []
  | some name =>
    if (namesPluginBase n || derivesFromPlugin model n) && !(Docs.Comment.ofNode n).isDocumented
    then [⟨name.span, [name.text]⟩]
    else []

def pluginDocumentation : Rule where
  code := "CT0006"
  name := "plugin-documentation"
  description := "Plugin classes must have a non-empty summary or inheritdoc"
  category := .documentation
  message := "Plugin class '\x7b0\x7d' must be documented with a <summary> or <inheritdoc/>"
  triggers := [.classDeclaration]
  check context n := .ok (undocumentedPlugin context.model n)

end PluginLint.Rules
