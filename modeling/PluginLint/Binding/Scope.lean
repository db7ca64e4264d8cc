import PluginLint.Binding.TypeExpr
import PluginLint.Syntax.File

/-!
# Scopes

Where a name stands decides what it can mean: the namespace, what is imported there, and the types
around it.
-/
namespace PluginLint.Binding

/-- A name inside a namespace or a type; no name is outside of all. -/
def joinNames (space name : String) : String :=
  if space.isEmpty then name else space ++ "." ++ name

/-- A dotted name and the names around it, longest first; the last one is empty. -/
def enclosingNames (space : String) : List String :=
  let pieces := Text.splitOn '.' space
  let count := if space.isEmpty then 0 else pieces.length
  ((List.range (count + 1)).map fun k => Text.join "." (pieces.take k)).reverse

/-- Namespaces and other names for types that a file brings in. -/
structure Imports where
  spaces : List String := []
  /-- Each name with what it stands for. -/
  aliases : List (String × String) := []
  deriving DecidableEq, Repr, Inhabited

namespace Imports

/-- Adds what a `using` brings in. -/
def add (i : Imports) (n : Node) : Imports :=
  if n.hasToken "static" then i
  else
    match (n.findChild? NodeKind.isType).bind dottedName? with
    | none => i
    | some target =>
      if n.hasToken "=" then
        match n.identifier? with
        | some t => { i with aliases := i.aliases ++ [(nameText t.text, target)] }
        | none => i
      else { i with spaces := i.spaces ++ [target] }

/-- Adds what a file or a namespace brings in for itself. -/
def extended (i : Imports) (container : Node) : Imports :=
  ((container.childrenOfKind .usingDirective).filter fun n => !n.hasToken "global").foldl add i

/-- What files bring in for all files. -/
def ofFiles (files : List SourceFile) : Imports :=
  (files.flatMap fun f =>
    (f.root.childrenOfKind .usingDirective).filter fun n => n.hasToken "global").foldl add {}

end Imports

/-- Where a piece of a file stands. -/
structure Scope where
  space : String := ""
  imports : Imports := {}
  /-- The declarations of the types around, outermost first. -/
  types : List Nat := []
  /-- The type parameters of the method around. -/
  typeParameters : List String := []
  deriving DecidableEq, Repr, Inhabited

/-- The span reaches to or over the offset. -/
def reaches (s : Span) (offset : Nat) : Bool := s.start ≤ offset && offset ≤ s.stop

/-- The first of the elements with the least measure. -/
def leastBy? (measure : α → Nat) : List α → Option α
  | [] => none
  | a :: rest =>
    match leastBy? measure rest with
    | some b => if measure b < measure a then some b else some a
    | none => some a

/-- The place of a type declaration in a file. -/
structure TypeContext where
  span : Span
  declaration : Nat
  scope : Scope
  deriving Repr

/-- The scopes of a file. -/
structure FileScopes where
  spaces : List (Span × Scope) := []
  types : List TypeContext := []
  deriving Repr, Inhabited

namespace FileScopes

/-- The innermost type around an offset. -/
def typeAt? (f : FileScopes) (offset : Nat) : Option TypeContext :=
  leastBy? (fun c => c.span.length) (f.types.filter fun c => reaches c.span offset)

/-- The scope of the innermost type or else of the innermost namespace around an offset. -/
def scopeAt (f : FileScopes) (offset : Nat) : Scope :=
  match f.typeAt? offset with
  | some c => c.scope
  | none =>
    ((leastBy? (fun p => p.1.length)
      (f.spaces.filter fun p => reaches p.1 offset)).map Prod.snd).getD {}

end FileScopes

end PluginLint.Binding
