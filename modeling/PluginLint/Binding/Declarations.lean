import PluginLint.Binding.Scope

/-!
# Declarations

The types of all files of a run with their members. Parts of one type share one declaration, which
keeps its place in the list; the first part says what kind of type it is.
-/
namespace PluginLint.Binding

/-- What a member is. -/
inductive MemberKind where
  | field
  | property
  | event
  | method
  | constructor
  | indexer
  | enumMember
  deriving DecidableEq, Repr, Inhabited

namespace MemberKind

/-- Members that have a value. -/
def hasValue : MemberKind → Bool
  | .field | .property | .event | .enumMember => true
  | _ => false

end MemberKind

/-- A declared parameter. -/
structure ParameterDecl where
  name : String
  type? : Option TypeExpr := none
  isParams : Bool := false
  isOptional : Bool := false
  isThis : Bool := false
  deriving DecidableEq, Repr, Inhabited

/-- A declared member. -/
structure Member where
  name : String
  kind : MemberKind
  /-- The type; constructors and the members of an enumeration have none. -/
  type? : Option TypeExpr := none
  parameters : List ParameterDecl := []
  typeParameters : List String := []
  /-- Where the member stands. -/
  scope : Scope := {}
  deriving DecidableEq, Repr, Inhabited

namespace Member

/-- A method that is called as if it were a member of its first argument. -/
def isExtension (m : Member) : Bool := m.kind == .method && m.parameters.head?.any (·.isThis)

end Member

/-- A type that a declaration names as its base. -/
structure BaseDecl where
  type : TypeExpr
  scope : Scope
  /-- The first of its list; no other can be a base class. -/
  isFirst : Bool
  deriving Repr, Inhabited

/-- A declared type. -/
structure TypeDecl where
  name : String
  /-- The namespace, or the full name of the type around. -/
  space : String
  kind : TypeKind
  typeParameters : List String
  bases : List BaseDecl := []
  members : List Member := []
  deriving Repr, Inhabited

namespace TypeDecl

def fullName (d : TypeDecl) : String := joinNames d.space d.name

def arity (d : TypeDecl) : Nat := d.typeParameters.length

end TypeDecl

/-- All declared types of a run. -/
structure Declarations where
  types : Array TypeDecl := #[]
  /-- Methods called as members of other types: each with the place of its type. -/
  extensions : Array (Nat × Member) := #[]
  deriving Repr, Inhabited

namespace Declarations

/-- The places of the types that a test accepts. -/
def indicesWhere (d : Declarations) (p : TypeDecl → Bool) : List Nat :=
  (List.range d.types.size).filter fun i => (d.types[i]?).any p

def arityAt (d : Declarations) (i : Nat) : Nat := ((d.types[i]?).map TypeDecl.arity).getD 0

def fullNameAt (d : Declarations) (i : Nat) : String :=
  ((d.types[i]?).map TypeDecl.fullName).getD ""

/-- The type with a full name and a number of type parameters. -/
def findExact? (d : Declarations) (full : String) (arity : Nat) : Option Nat :=
  d.types.findIdx? fun t => t.fullName == full && t.arity == arity

/-- Declares a type, unless a part of it is declared already. -/
def declare (d : Declarations) (t : TypeDecl) : Nat × Declarations :=
  match d.findExact? t.fullName t.arity with
  | some i => (i, d)
  | none => (d.types.size, { d with types := d.types.push t })

def addBase (d : Declarations) (i : Nat) (b : BaseDecl) : Declarations :=
  { d with types := d.types.modify i fun t => { t with bases := t.bases ++ [b] } }

def addMember (d : Declarations) (i : Nat) (m : Member) : Declarations :=
  { types := d.types.modify i fun t => { t with members := t.members ++ [m] }
    extensions := if m.isExtension then d.extensions.push (i, m) else d.extensions }

end Declarations

/-! ### Reading declarations -/

/-- The parameters in a list. -/
def parameterDecls (list : Node) : List ParameterDecl :=
  (list.childrenOfKind .parameter).filterMap fun p =>
    (identifierName? p).map fun name =>
      { name
        type? := childType? p
        isParams := p.hasToken "params"
        isOptional := (p.childOfKind? .equalsValueClause).isSome
        isThis := p.hasToken "this" }

/-- The names of the type parameters of a declaration. -/
def typeParameterNames (n : Node) : List String :=
  match n.childOfKind? .typeParameterList with
  | some list => (list.childrenOfKind .typeParameter).filterMap identifierName?
  | none => []

/-- Can be called with this many arguments. -/
def accepts (parameters : List ParameterDecl) (count : Nat) : Bool :=
  let required := (parameters.filter fun p => !p.isOptional && !p.isParams).length
  required ≤ count && (parameters.any (·.isParams) || count ≤ parameters.length)

/-- The fields or events that a member declares. -/
def variableMembers (kind : MemberKind) (n : Node) : List Member :=
  match n.childOfKind? .variableDeclaration with
  | some declaration =>
    (declaration.childrenOfKind .variableDeclarator).filterMap fun v =>
      (identifierName? v).map fun name => { name, kind, type? := childType? declaration }
  | none => ((identifierName? n).map fun name => { name, kind, type? := childType? n }).toList

/-- A method or a constructor. -/
def methodMember? (n : Node) : Option Member := do
  let name ← identifierName? n
  let parameters := ((n.childOfKind? .parameterList).map parameterDecls).getD []
  let typeParameters := typeParameterNames n
  if n.kind = .methodDeclaration then
    return { name, kind := .method, type? := childType? n, parameters, typeParameters }
  return { name := ".ctor", kind := .constructor, parameters, typeParameters }

/-- The members that a part of a type declares. -/
def membersOf (n : Node) : List Member :=
  match n.kind with
  | .fieldDeclaration => variableMembers .field n
  | .eventDeclaration => variableMembers .event n
  | .propertyDeclaration =>
    ((identifierName? n).map fun name =>
      ({ name, kind := .property, type? := childType? n } : Member)).toList
  | .indexerDeclaration =>
    [{ name := "this"
       kind := .indexer
       type? := childType? n
       parameters := ((n.childOfKind? .bracketedParameterList).map parameterDecls).getD [] }]
  | .methodDeclaration | .constructorDeclaration => (methodMember? n).toList
  | .enumMemberDeclaration =>
    ((identifierName? n).map fun name => ({ name, kind := .enumMember } : Member)).toList
  | _ => []

/-- The members that the parameters of a type declare: a constructor, and for records also
properties. -/
def primaryMembers (kind : TypeKind) (n : Node) : List Member :=
  match n.childOfKind? .parameterList with
  | none => []
  | some list =>
    let parameters := parameterDecls list
    let properties : List Member :=
      if kind = .recordType then
        parameters.map fun p => { name := p.name, kind := .property, type? := p.type? }
      else []
    properties ++ [{ name := ".ctor", kind := .constructor, parameters }]

/-- A member in its place; a method's own type parameters are in scope there. -/
def Member.inScope (m : Member) (scope : Scope) : Member :=
  { m with
    scope :=
      if m.typeParameters.isEmpty then scope
      else { scope with typeParameters := m.typeParameters } }

def typeKindOf : NodeKind → TypeKind
  | .structDeclaration => .structType
  | .interfaceDeclaration => .interfaceType
  | .enumDeclaration => .enumType
  | .recordDeclaration | .recordStructDeclaration => .recordType
  | _ => .classType

/-- The types of a list of bases. -/
def baseTypes (n : Node) : List (TypeExpr × Bool) :=
  match n.childOfKind? .baseList with
  | none => []
  | some list =>
    (list.childrenOfKind .simpleBaseType).zipIdx.filterMap fun (b, i) =>
      (childType? b).map fun type => (type, i == 0)

/-- Declarations and the scopes of the file that is being read. -/
structure Collector where
  declarations : Declarations
  scopes : FileScopes := {}

namespace Collector

/-- Adds a type, its bases and its own members, and says where it stands. -/
def addType (c : Collector) (t : TypeDecl) (outer : Scope) (bases : List (TypeExpr × Bool))
    (members : List Member) : Collector × Nat × Scope :=
  let (i, d) := c.declarations.declare t
  let scope : Scope := { outer with types := outer.types ++ [i], typeParameters := [] }
  let d := bases.foldl (fun d (type, isFirst) => d.addBase i ⟨type, scope, isFirst⟩) d
  let d := members.foldl (fun d m => d.addMember i (m.inScope scope)) d
  ({ c with declarations := d }, i, scope)

/-- Collects a type and the types inside it, nested at most `fuel` deep. -/
def collectType : Nat → Collector → String → Scope → Node → Collector
  | 0, c, _, _, _ => c
  | fuel + 1, c, space, outer, n =>
    match identifierName? n with
    | none => c
    | some name =>
      let kind := typeKindOf n.kind
      let t : TypeDecl := { name, space, kind, typeParameters := typeParameterNames n }
      let (c, i, scope) := c.addType t outer (baseTypes n) (primaryMembers kind n)
      let context : TypeContext := ⟨n.span, i, scope⟩
      let c := { c with scopes := { c.scopes with types := c.scopes.types ++ [context] } }
      n.childNodes.foldl
        (fun c child =>
          if child.kind.isTypeDeclaration then collectType fuel c t.fullName scope child
          else
            { c with
              declarations :=
                (membersOf child).foldl (fun d m => d.addMember i (m.inScope scope))
                  c.declarations })
        c

/-- Collects what a file or a namespace holds, nested at most `fuel` deep. -/
def collectContainer : Nat → Collector → Scope → Node → Collector
  | 0, c, _, _ => c
  | fuel + 1, c, scope, n =>
    let c := { c with scopes := { c.scopes with spaces := c.scopes.spaces ++ [(n.span, scope)] } }
    n.childNodes.foldl
      (fun c child =>
        match child.kind with
        | .namespaceDeclaration | .fileScopedNamespaceDeclaration =>
          match (child.findChild? NodeKind.isType).bind dottedName? with
          | none => c
          | some name =>
            collectContainer fuel c
              { space := joinNames scope.space name, imports := scope.imports.extended child }
              child
        | kind =>
          if kind.isTypeDeclaration then collectType (fuel + 1) c scope.space scope child else c)
      c

end Collector

namespace Declarations

/-- Adds the declarations of a file, and returns the file's scopes. -/
def collect (d : Declarations) (file : SourceFile) (everywhere : Imports) :
    Declarations × FileScopes :=
  let root := file.root
  let c := Collector.collectContainer root.size { declarations := d }
    { imports := everywhere.extended root } root
  (c.declarations, c.scopes)

end Declarations

end PluginLint.Binding
