import PluginLint.Binding.Declarations

/-!
# Looking names up

A simple name is looked for in the types around, then in the namespaces around, then among aliases
and imported namespaces, and last among all types. A type with the right number of type parameters
is preferred, and otherwise the one declared first is taken.
-/
namespace PluginLint.Binding.Declarations

/-- Of some types, the first with a number of type parameters, or else the first. -/
def prefer (d : Declarations) (arity : Nat) (candidates : List Nat) : Option Nat :=
  (candidates.find? fun i => d.arityAt i == arity).or candidates.head?

/-- The type with a full name. -/
def findQualified? (d : Declarations) (full : String) (arity : Nat) : Option Nat :=
  d.prefer arity (d.indicesWhere fun t => t.fullName == full)

/-- The type whose full name `complete` makes of what an alias in scope stands for. -/
def findAlias? (d : Declarations) (scope : Scope) (word : String) (complete : String → String)
    (arity : Nat) : Option Nat :=
  match scope.imports.aliases.find? fun (a, _) => a == word with
  | some (_, target) => d.findQualified? (complete target) arity
  | none => none

/-- The type that a simple name stands for. -/
def lookup? (d : Declarations) (name : String) (arity : Nat) (scope : Scope) : Option Nat :=
  let inside := fun space => d.findQualified? (joinNames space name) arity
  (scope.types.reverse.findSome? fun i => inside (d.fullNameAt i))
    |>.or ((enclosingNames scope.space).findSome? inside)
    |>.or (d.findAlias? scope name id arity)
    |>.or (scope.imports.spaces.findSome? inside)
    |>.or (d.prefer arity (d.indicesWhere fun t => t.name == name))

/-- The first piece of a dotted name, and what is behind its first dot. -/
def splitHead? (dotted : String) : Option (String × String) :=
  match Text.splitOn '.' dotted with
  | head :: next :: rest => some (head, Text.join "." (next :: rest))
  | _ => none

/-- The type that a dotted name stands for: as written, inside the namespaces around, inside
imported namespaces, or inside what its first piece stands for. -/
def lookupDotted? (d : Declarations) (dotted : String) (arity : Nat) (scope : Scope) :
    Option Nat :=
  let inside := fun space => d.findQualified? (joinNames space dotted) arity
  (d.findQualified? dotted arity)
    |>.or (((enclosingNames scope.space).filter fun s => !s.isEmpty).findSome? inside)
    |>.or (scope.imports.spaces.findSome? inside)
    |>.or (do
      let (head, rest) ← splitHead? dotted
      (d.findAlias? scope head (joinNames · rest) arity).or do
        let outer ← d.lookup? head 0 scope
        d.findQualified? (joinNames (d.fullNameAt outer) rest) arity)

/-- The name is a type parameter of the method or of a type around. -/
def isTypeParameter (d : Declarations) (name : String) (scope : Scope) : Bool :=
  scope.typeParameters.contains name ||
    scope.types.any fun i => (d.types[i]?).any fun t => t.typeParameters.contains name

end PluginLint.Binding.Declarations
