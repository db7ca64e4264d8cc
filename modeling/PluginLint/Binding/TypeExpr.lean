import PluginLint.Model.TypeSymbol
import PluginLint.Syntax.Node
import PluginLint.Text.Blank

/-!
# Written types

A type as it is written, before any name in it is resolved.
-/
namespace PluginLint.Binding

/-- A written type. -/
inductive TypeExpr where
  | special (s : SpecialType)
  | nullable (inner : TypeExpr)
  /-- An array of arrays, `ranks` deep. -/
  | array (element : TypeExpr) (ranks : Nat)
  | tuple (elements : List TypeExpr)
  | name (name : String) (arguments : List TypeExpr)
  | qualified (dotted : String) (arguments : List TypeExpr)
  /-- Text that is no type. -/
  | broken (text : String)
  deriving Repr, Inhabited

namespace TypeExpr

mutual

/-- Whether two written types are the same. -/
def decEq (a b : TypeExpr) : Decidable (a = b) :=
  match a with
  | .special s =>
    match b with
    | .special t => decidable_of_iff (s = t) (by simp)
    | .nullable _ | .array .. | .tuple _ | .name .. | .qualified .. | .broken _ => isFalse nofun
  | .nullable s =>
    match b with
    | .nullable t =>
      have := decEq s t
      decidable_of_iff (s = t) (by simp)
    | .special _ | .array .. | .tuple _ | .name .. | .qualified .. | .broken _ => isFalse nofun
  | .array s m =>
    match b with
    | .array t n =>
      have := decEq s t
      decidable_of_iff (s = t ∧ m = n) (by simp)
    | .special _ | .nullable _ | .tuple _ | .name .. | .qualified .. | .broken _ => isFalse nofun
  | .tuple ss =>
    match b with
    | .tuple ts =>
      have := decEqAll ss ts
      decidable_of_iff (ss = ts) (by simp)
    | .special _ | .nullable _ | .array .. | .name .. | .qualified .. | .broken _ => isFalse nofun
  | .name m ss =>
    match b with
    | .name n ts =>
      have := decEqAll ss ts
      decidable_of_iff (m = n ∧ ss = ts) (by simp)
    | .special _ | .nullable _ | .array .. | .tuple _ | .qualified .. | .broken _ => isFalse nofun
  | .qualified m ss =>
    match b with
    | .qualified n ts =>
      have := decEqAll ss ts
      decidable_of_iff (m = n ∧ ss = ts) (by simp)
    | .special _ | .nullable _ | .array .. | .tuple _ | .name .. | .broken _ => isFalse nofun
  | .broken m =>
    match b with
    | .broken n => decidable_of_iff (m = n) (by simp)
    | .special _ | .nullable _ | .array .. | .tuple _ | .name .. | .qualified .. => isFalse nofun

def decEqAll (as bs : List TypeExpr) : Decidable (as = bs) :=
  match as, bs with
  | [], [] => isTrue rfl
  | [], _ :: _ | _ :: _, [] => isFalse nofun
  | a :: as, b :: bs =>
    have := decEq a b
    have := decEqAll as bs
    decidable_of_iff (a = b ∧ as = bs) (by simp)

end

instance : DecidableEq TypeExpr := decEq

end TypeExpr

/-- The text of an identifier without the mark that lets it be a keyword. -/
def nameText (s : String) : String :=
  match s.toList with
  | '@' :: rest => String.ofList rest
  | _ => s

/-- The name that a node declares or is. -/
def identifierName? (n : Node) : Option String :=
  n.identifier?.map fun t => nameText t.text

/-- The text of a dotted name or of a chain of members. What stands before `::` is left out. -/
def dottedName? (n : Node) : Option String :=
  match n.kind with
  | .identifierName | .genericName => identifierName? n
  | .qualifiedName | .simpleMemberAccessExpression =>
    match _h : n.childNodes with
    | left :: right :: _ => do
      let right ← dottedName? right
      if n.hasToken "::" then return right
      return (← dottedName? left) ++ "." ++ right
    | _ => none
  | _ => none
termination_by n.size
decreasing_by
  · exact Node.size_lt_of_mem_childNodes (by simp [_h])
  · exact Node.size_lt_of_mem_childNodes (by simp [_h])

namespace TypeExpr

/-- The nodes of the type arguments of a name. -/
def argumentNodes (n : Node) : List Node :=
  ((n.childOfKind? .typeArgumentList).map Node.childNodes).getD []

/-- Text that is no type. -/
def brokenNode (n : Node) : TypeExpr := .broken (nameText (Text.trim n.text))

/-- Reads a type, nested at most `fuel` deep. -/
def ofNodeUpTo : Nat → Node → TypeExpr
  | 0, n => brokenNode n
  | fuel + 1, n =>
    match n.kind with
    | .predefinedType =>
      match n.firstToken?.bind fun t => SpecialType.ofKeyword? t.text with
      | some s => .special s
      | none => brokenNode n
    | .nullableType =>
      match n.childNodes with
      | inner :: _ => .nullable (ofNodeUpTo fuel inner)
      | [] => brokenNode n
    | .arrayType =>
      match n.childNodes with
      | element :: rest =>
        .array (ofNodeUpTo fuel element)
          (rest.filter fun c => c.kind == .arrayRankSpecifier).length
      | [] => brokenNode n
    | .tupleType => .tuple (n.childNodes.map (ofNodeUpTo fuel))
    | .identifierName | .genericName =>
      match identifierName? n with
      | some word => .name word ((argumentNodes n).map (ofNodeUpTo fuel))
      | none => brokenNode n
    | .qualifiedName =>
      match dottedName? n with
      | some dotted =>
        .qualified dotted
          (((n.childNodes.getLast?.map argumentNodes).getD []).map (ofNodeUpTo fuel))
      | none => brokenNode n
    | _ => brokenNode n

/-- Reads a type. -/
def ofNode (n : Node) : TypeExpr := ofNodeUpTo n.size n

/-- Reads the type arguments of a name. -/
def argumentsOf (n : Node) : List TypeExpr := (argumentNodes n).map ofNode

end TypeExpr

/-- The first child that is a type, read as one. -/
def childType? (n : Node) : Option TypeExpr :=
  (n.findChild? NodeKind.isType).map TypeExpr.ofNode

end PluginLint.Binding
