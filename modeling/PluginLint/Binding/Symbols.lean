import PluginLint.Binding.Lookup
import PluginLint.Text.Capital

/-!
# From declarations to types

Written types are resolved with the help of a function that gives the type of a declaration. While
the types are being built this function is the building itself; a declaration that is met again
while its own bases are being resolved is given without bases.
-/
namespace PluginLint.Binding

/-- A value that can be stored without a reference. -/
def isValueLike (t : TypeSymbol) : Bool :=
  (t.kind == .structType || t.kind == .enumType) && !t.isNullable

/-- The type of values that may be missing, where values are not references. -/
def orMissing (t : TypeSymbol) : TypeSymbol := if isValueLike t then .nullableOf t else t

/-- A declared type with type arguments, if there are any. -/
def instantiate (t : TypeSymbol) (arguments : List TypeSymbol) : TypeSymbol :=
  if arguments.isEmpty then t else { t with arguments }

/-- Arrays inside arrays. -/
def nestArrays : Nat → TypeSymbol → TypeSymbol
  | 0, t => t
  | n + 1, t => nestArrays n (.arrayOf t)

namespace Declarations

variable {m : Type → Type} [Monad m]

/-- Resolves a simple name with its type arguments. -/
def resolveName (d : Declarations) (symbol : Nat → m TypeSymbol) (scope : Scope) (name : String)
    (arguments : List TypeSymbol) : m TypeSymbol :=
  if arguments.isEmpty && d.isTypeParameter name scope then
    pure { name, kind := .typeParameter }
  else if arguments.isEmpty && name == "dynamic" then pure (.ofSpecial .object)
  else
    match d.lookup? name arguments.length scope with
    | some i => do return instantiate (← symbol i) arguments
    | none => pure { TypeSymbol.unresolved name with arguments }

/- Resolving written types. -/
mutual

/-- Resolves a written type. -/
def resolve (d : Declarations) (symbol : Nat → m TypeSymbol) (scope : Scope) :
    TypeExpr → m TypeSymbol
  | .special s => pure (.ofSpecial s)
  | .nullable inner => do return orMissing (← resolve d symbol scope inner)
  | .array element ranks => do return nestArrays ranks (← resolve d symbol scope element)
  | .tuple elements => do
    return { name := "ValueTuple"
             space := some "System"
             kind := .structType
             arguments := ← resolveAll d symbol scope elements }
  | .name name arguments => do
    d.resolveName symbol scope name (← resolveAll d symbol scope arguments)
  | .qualified dotted arguments => do
    let arguments ← resolveAll d symbol scope arguments
    match d.lookupDotted? dotted arguments.length scope with
    | some i => return instantiate (← symbol i) arguments
    | none =>
      let last := ((Text.splitOn '.' dotted).getLast?).getD dotted
      return { TypeSymbol.unresolved last with arguments }
  | .broken text => pure (.unresolved text)

/-- Resolves written types in order. -/
def resolveAll (d : Declarations) (symbol : Nat → m TypeSymbol) (scope : Scope) :
    List TypeExpr → m (List TypeSymbol)
  | [] => pure []
  | t :: ts => do
    let t ← resolve d symbol scope t
    return t :: (← resolveAll d symbol scope ts)

end

/-- The type of a declaration without what it is based on. -/
def shell (t : TypeDecl) : TypeSymbol :=
  let special? :=
    if t.space == "System" && t.typeParameters.isEmpty then
      SpecialType.all.find? fun s => s.keyword?.isSome && s.metadataName? == some t.name
    else none
  match special? with
  | some s => .ofSpecial s
  | none =>
    ({ name := t.name
       kind := t.kind
       arguments := t.typeParameters.map fun p => { name := p, kind := .typeParameter } } :
      TypeSymbol).inSpace t.space

/-- Can be extended by a class. A name without a known type can, unless it reads like that of an
interface. -/
def isBaseClass (t : TypeSymbol) : Bool :=
  match t.kind with
  | .classType | .recordType => true
  | .unresolved =>
    match t.name.toList with
    | 'I' :: c :: _ => !Text.isCapital c
    | _ => true
  | _ => false

/-- Building in progress: the types finished, and the declarations begun. -/
structure Workshop where
  finished : List (Nat × TypeSymbol) := []
  begun : List Nat := []

/-- Sorts the bases of a declaration into a base type and interfaces. Only the first of a list can
be a base type, and only of a class or a record. -/
def splitBases (isClass : Bool) : List (BaseDecl × TypeSymbol) →
    Option TypeSymbol × List TypeSymbol
  | [] => (none, [])
  | all => all.foldl
      (fun (base, interfaces) (b, t) =>
        if isClass && b.isFirst && base.isNone && isBaseClass t then (some t, interfaces)
        else (base, interfaces ++ [t]))
      (none, [])

/-- The type of a declaration, given its bases. -/
def assemble (t : TypeDecl) (bases : List (BaseDecl × TypeSymbol)) : TypeSymbol :=
  let isClass := t.kind == .classType || t.kind == .recordType
  let (base, interfaces) := splitBases isClass bases
  let plain := shell t
  let base :=
    match base with
    | some b => some b
    | none => if isClass && plain.special != .object then some (.ofSpecial .object) else none
  { plain with base, interfaces }

/-- Resolves the bases of a declaration in order. -/
def resolveBases (d : Declarations) (symbol : Nat → m TypeSymbol) :
    List BaseDecl → m (List (BaseDecl × TypeSymbol))
  | [] => pure []
  | b :: bs => do
    let t ← resolve d symbol b.scope b.type
    return (b, t) :: (← resolveBases d symbol bs)

/-- The type of a declaration; declarations are begun inside one another at most `fuel` deep. -/
def buildSymbol (d : Declarations) : Nat → Nat → StateM Workshop TypeSymbol
  | 0, i => pure (((d.types[i]?).map shell).getD default)
  | fuel + 1, i => do
    let w ← get
    match w.finished.find? fun (j, _) => j == i with
    | some (_, t) => return t
    | none =>
      match d.types[i]? with
      | none => return default
      | some t =>
        if w.begun.contains i then return shell t
        set { w with begun := i :: w.begun }
        let bases ←
          if t.kind == .enumType then pure [] else resolveBases d (d.buildSymbol fuel) t.bases
        let symbol := assemble t bases
        modify fun w => { finished := (i, symbol) :: w.finished, begun := w.begun.erase i }
        return symbol

/-- The types of declarations, in the given order. -/
def buildAll (d : Declarations) (fuel : Nat) : List Nat → StateM Workshop (List TypeSymbol)
  | [] => pure []
  | i :: rest => do
    let t ← d.buildSymbol fuel i
    return t :: (← d.buildAll fuel rest)

/-- The type of every declaration, in order. Only declarations not yet begun are begun, so they are
never more than all inside one another. -/
def buildSymbols (d : Declarations) : List TypeSymbol :=
  ((d.buildAll (d.types.size + 1) (List.range d.types.size)).run {}).1

end Declarations

/-! ### Type arguments -/

/-- What type parameters stand for; the first entry of a name counts. -/
abbrev Substitution := List (String × TypeSymbol)

/- Putting types in place of type parameters. -/
mutual

/-- The type with its type parameters replaced. -/
def substitute (s : Substitution) : TypeSymbol → TypeSymbol
  | ⟨name, space, kind, special, base, interfaces, arguments⟩ =>
    let replaced := ⟨name, space, kind, special, base, interfaces, substituteAll s arguments⟩
    if kind = .typeParameter then
      match s.find? fun (p, _) => p == name with
      | some (_, t) => t
      | none => replaced
    else replaced

/-- Types with their type parameters replaced. -/
def substituteAll (s : Substitution) : List TypeSymbol → List TypeSymbol
  | [] => []
  | t :: ts => substitute s t :: substituteAll s ts

end

end PluginLint.Binding
