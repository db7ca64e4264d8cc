import PluginLint.Binding.Framework

/-!
# Compilations

All declarations of a run with the type of each. Members are looked for in a type itself and then in
what it extends and implements, nearest first.
-/
namespace PluginLint.Binding

/-- All declarations of a run, the type of each, and the scopes of each file. -/
structure Compilation where
  declarations : Declarations := {}
  /-- The types, in the order of the declarations. -/
  symbols : Array TypeSymbol := #[]
  files : List FileScopes := []
  deriving Inhabited

/-- A type that another one is or is based on. -/
structure Ancestor where
  /-- The place of the declaration. -/
  index : Nat
  declaration : TypeDecl
  /-- What the type parameters of the declaration stand for. -/
  arguments : Substitution
  type : TypeSymbol
  deriving Inhabited

namespace Compilation

/-- Adds the declarations of files in order. -/
def collectAll (everywhere : Imports) : Declarations → List SourceFile →
    Declarations × List FileScopes
  | d, [] => (d, [])
  | d, f :: fs =>
    let (d, scopes) := d.collect f everywhere
    let (d, rest) := collectAll everywhere d fs
    (d, scopes :: rest)

/-- The declarations of files and of the framework. -/
def ofFiles (files : List SourceFile) : Compilation :=
  let (own, scopes) := collectAll (.ofFiles files) {} files
  let declarations := own.addFramework
  { declarations, symbols := declarations.buildSymbols.toArray, files := scopes }

/-- The type of a declaration. -/
def symbol (c : Compilation) (i : Nat) : TypeSymbol := c.symbols[i]?.getD default

/-- The type that a written type stands for in a scope. -/
def resolve (c : Compilation) (scope : Scope) (t : TypeExpr) : TypeSymbol :=
  Id.run (c.declarations.resolve (fun i => pure (c.symbol i)) scope t)

/-- The type that a name with type arguments stands for in a scope. -/
def resolveName (c : Compilation) (scope : Scope) (name : String) (arguments : List TypeSymbol) :
    TypeSymbol :=
  Id.run (c.declarations.resolveName (fun i => pure (c.symbol i)) scope name arguments)

/-- The declared type that a dotted name stands for. -/
def resolveDotted? (c : Compilation) (scope : Scope) (dotted : String) : Option TypeSymbol :=
  (c.declarations.lookupDotted? dotted 0 scope).map c.symbol

/-- The types that the type arguments of a name stand for. -/
def argumentTypes (c : Compilation) (scope : Scope) (name : Node) : List TypeSymbol :=
  (TypeExpr.argumentsOf name).map (c.resolve scope)

/-- The place of the declaration of a type. -/
def declarationOf? (c : Compilation) (t : TypeSymbol) : Option Nat :=
  match t.kind with
  | .typeParameter | .unresolved => none
  | .arrayType => c.declarations.findQualified? "System.Array" 0
  | _ => c.declarations.findQualified? (joinNames (t.space.getD "") t.name) t.arguments.length

/-- The declaration of a type, with what its type parameters stand for. -/
def ancestor? (c : Compilation) (t : TypeSymbol) : Option Ancestor := do
  let index ← c.declarationOf? t
  let declaration ← c.declarations.types[index]?
  return { index, declaration, arguments := declaration.typeParameters.zip t.arguments, type := t }

/-- The types directly above one: its base type, then its interfaces. -/
def parents (c : Compilation) (a : Ancestor) : List TypeSymbol :=
  let declared := c.symbol a.index
  (declared.base.toList ++ declared.interfaces).map (substitute a.arguments)

/-- The pending types and all above them in the order of their distance, each name once and at most
`room` of them. -/
def ancestorsUpTo (c : Compilation) (room : Nat) (seen : List String) (pending : List TypeSymbol) :
    List Ancestor :=
  match room, pending with
  | 0, _ => []
  | _ + 1, [] => []
  | room + 1, t :: pending =>
    if seen.contains t.fullName then ancestorsUpTo c (room + 1) seen pending
    else
      match c.ancestor? t with
      | none => ancestorsUpTo c (room + 1) (t.fullName :: seen) pending
      | some a => a :: ancestorsUpTo c room (t.fullName :: seen) (pending ++ c.parents a)
termination_by (room, pending.length)

/-- The most types that are looked at above one type. -/
def ancestorLimit : Nat := 64

/-- The type and all above it, in the order of their distance. -/
def ancestors (c : Compilation) (t : TypeSymbol) : List Ancestor :=
  c.ancestorsUpTo ancestorLimit [] [t]

/-- The type of a member, seen from a type that has it. -/
def typeOfMember? (c : Compilation) (a : Ancestor) (m : Member) : Option TypeSymbol :=
  m.type?.map fun t => substitute a.arguments (c.resolve m.scope t)

/-- The type of the value that a type has under a name. The nearest member of that name decides,
whether its type is known or not. -/
def memberType? (c : Compilation) (t : TypeSymbol) (name : String) : Option TypeSymbol := do
  let (a, m) ← (c.ancestors t).findSome? fun a =>
    (a.declaration.members.find? fun m => m.name == name && m.kind.hasValue).map fun m => (a, m)
  if m.kind = .enumMember then return c.symbol a.index
  c.typeOfMember? a m

/-- The type of an element picked by an index. -/
def indexerType? (c : Compilation) (t : TypeSymbol) : Option TypeSymbol :=
  if t.kind = .arrayType then t.arguments.head?
  else
    (c.ancestors t).findSome? fun a =>
      (a.declaration.members.find? fun m => m.kind == .indexer).bind (c.typeOfMember? a)

/-- The type of the elements that a loop runs over. -/
def elementType? (c : Compilation) (t : TypeSymbol) : Option TypeSymbol :=
  if t.kind = .arrayType then t.arguments.head?
  else
    let enumerated := (c.ancestors t).findSome? fun a =>
      match a.type.arguments with
      | [element] =>
        if a.type.isNamed "System.Collections.Generic" "IEnumerable" then some element else none
      | _ => none
    enumerated.or
      (match t.arguments with
      | [element] => some element
      | _ => none)

/-- The parameter of a method with its type resolved. -/
def parameterSymbol (resolve : TypeExpr → TypeSymbol) (p : ParameterDecl) : ParameterSymbol :=
  ⟨p.name, p.type?.map resolve, p.isParams, p.isOptional⟩

/-- A method with its types resolved. -/
def methodSymbol (c : Compilation) (owner : TypeSymbol) (m : Member) (known : Substitution)
    (typeArguments : List TypeSymbol) (parameters : List ParameterDecl) : MethodSymbol :=
  let all := known ++ m.typeParameters.zip typeArguments
  let resolve := fun t => substitute all (c.resolve m.scope t)
  ⟨m.name, some owner, parameters.map (parameterSymbol resolve), m.type?.map resolve⟩

/-- The nearest method of a type that can be called with so many arguments. -/
def findMethod? (c : Compilation) (t : TypeSymbol) (name : String) (count : Nat)
    (typeArguments : List TypeSymbol) : Option MethodSymbol :=
  (c.ancestors t).findSome? fun a =>
    (a.declaration.members.find? fun m =>
      m.kind == .method && m.name == name && accepts m.parameters count &&
        (typeArguments.isEmpty || m.typeParameters.length == typeArguments.length)).map
      fun m => c.methodSymbol a.type m a.arguments typeArguments m.parameters

/-- The first method that can be called as a member of another type with so many arguments. -/
def findExtension? (c : Compilation) (name : String) (count : Nat)
    (typeArguments : List TypeSymbol) : Option MethodSymbol :=
  (c.declarations.extensions.toList.find? fun (_, m) =>
    m.name == name && accepts m.parameters (count + 1)).map
    fun (i, m) => c.methodSymbol (c.symbol i) m [] typeArguments (m.parameters.drop 1)

end Compilation

end PluginLint.Binding
