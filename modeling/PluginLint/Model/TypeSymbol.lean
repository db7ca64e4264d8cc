import PluginLint.Text.Search

/-!
# Types

A type as it is known after names have been resolved: its name, what it is based on, and its type
arguments. Types are the same if their full names are.
-/
namespace PluginLint

/-- What a type is. -/
inductive TypeKind where
  | classType
  | structType
  | interfaceType
  | enumType
  | recordType
  /-- The element is the only type argument. -/
  | arrayType
  | typeParameter
  /-- A written name that stands for no known type. -/
  | unresolved
  deriving DecidableEq, Repr, Inhabited

namespace TypeKind

def all : List TypeKind :=
  [.classType, .structType, .interfaceType, .enumType, .recordType, .arrayType, .typeParameter,
   .unresolved]

def name : TypeKind → String
  | .classType => "Class"
  | .structType => "Struct"
  | .interfaceType => "Interface"
  | .enumType => "Enum"
  | .recordType => "Record"
  | .arrayType => "Array"
  | .typeParameter => "TypeParameter"
  | .unresolved => "Error"

def ofName? (text : String) : Option TypeKind := all.find? fun k => k.name == text

end TypeKind

/-- Types that the language gives a meaning of their own. -/
inductive SpecialType where
  | ordinary
  | object | void | string | boolean | char
  | sbyte | byte | int16 | uint16 | int32 | uint32 | int64 | uint64
  | single | double | decimal
  /-- The type of values that may be missing. -/
  | nullable
  deriving DecidableEq, Repr, Inhabited

namespace SpecialType

def all : List SpecialType :=
  [.ordinary, .object, .void, .string, .boolean, .char, .sbyte, .byte, .int16, .uint16, .int32,
   .uint32, .int64, .uint64, .single, .double, .decimal, .nullable]

def name : SpecialType → String
  | .ordinary => "None"
  | .object => "Object"
  | .void => "Void"
  | .string => "String"
  | .boolean => "Boolean"
  | .char => "Char"
  | .sbyte => "SByte"
  | .byte => "Byte"
  | .int16 => "Int16"
  | .uint16 => "UInt16"
  | .int32 => "Int32"
  | .uint32 => "UInt32"
  | .int64 => "Int64"
  | .uint64 => "UInt64"
  | .single => "Single"
  | .double => "Double"
  | .decimal => "Decimal"
  | .nullable => "Nullable"

def ofName? (text : String) : Option SpecialType := all.find? fun s => s.name == text

/-- The keyword for the type. -/
def keyword? : SpecialType → Option String
  | .object => some "object"
  | .void => some "void"
  | .string => some "string"
  | .boolean => some "bool"
  | .char => some "char"
  | .sbyte => some "sbyte"
  | .byte => some "byte"
  | .int16 => some "short"
  | .uint16 => some "ushort"
  | .int32 => some "int"
  | .uint32 => some "uint"
  | .int64 => some "long"
  | .uint64 => some "ulong"
  | .single => some "float"
  | .double => some "double"
  | .decimal => some "decimal"
  | .ordinary | .nullable => none

/-- The name in the `System` namespace. -/
def metadataName? (s : SpecialType) : Option String :=
  if s = .ordinary then none else some s.name

/-- The type that a keyword stands for. -/
def ofKeyword? (word : String) : Option SpecialType := all.find? fun s => s.keyword? == some word

def isValueType : SpecialType → Bool
  | .ordinary | .object | .string | .void => false
  | _ => true

end SpecialType

/-- A resolved type. -/
structure TypeSymbol where
  /-- The name without namespace and type arguments. -/
  name : String
  /-- The namespace, if there is one. -/
  space : Option String := none
  kind : TypeKind
  special : SpecialType := .ordinary
  /-- The type that this one extends. -/
  base : Option TypeSymbol := none
  /-- The interfaces that this one names itself. -/
  interfaces : List TypeSymbol := []
  arguments : List TypeSymbol := []
  deriving Repr, Inhabited

namespace TypeSymbol

/-- A namespace without a name is none. -/
def inSpace (t : TypeSymbol) (space : String) : TypeSymbol :=
  { t with space := if space.isEmpty then none else some space }

/-- A type with a meaning of its own. -/
def ofSpecial (s : SpecialType) : TypeSymbol :=
  { name := s.metadataName?.getD "Object"
    space := some "System"
    kind := if s.isValueType then .structType else .classType
    special := s }

/-- The type of values of `inner` that may be missing. -/
def nullableOf (inner : TypeSymbol) : TypeSymbol :=
  { name := "Nullable"
    space := some "System"
    kind := .structType
    special := .nullable
    arguments := [inner] }

def arrayOf (element : TypeSymbol) : TypeSymbol :=
  { name := "Array", kind := .arrayType, arguments := [element] }

/-- A written name that stands for no known type. -/
def unresolved (name : String) : TypeSymbol := { name, kind := .unresolved }

def isEnum (t : TypeSymbol) : Bool := t.kind == .enumType

def isSpecial (t : TypeSymbol) : Bool := t.special != .ordinary

/-- Values of this type are those of one other type, or missing. -/
def isNullable (t : TypeSymbol) : Bool := t.special == .nullable && t.arguments.length == 1

/-- A name with the texts of its type arguments. -/
def withArguments (name : String) (arguments : List String) : String :=
  if arguments.isEmpty then name else name ++ "<" ++ Text.join ", " arguments ++ ">"

/- Names for people. -/
mutual

/-- The name for people: keywords where there are any, and no namespaces. -/
def displayName : TypeSymbol → String
  | ⟨name, _, kind, special, _, _, arguments⟩ =>
    let shown := displayNames arguments
    match special.keyword? with
    | some word => word
    | none =>
      match shown with
      | [inner] =>
        if special = .nullable then inner ++ "?"
        else if kind = .arrayType then inner ++ "[]"
        else withArguments name shown
      | _ => withArguments name shown

/-- The names for people of a list of types. -/
def displayNames : List TypeSymbol → List String
  | [] => []
  | t :: ts => displayName t :: displayNames ts

end

/- Names with namespaces. -/
mutual

/-- The name with namespace and type arguments, which tells types apart. -/
def fullName : TypeSymbol → String
  | ⟨name, space, kind, _, _, _, arguments⟩ =>
    let names := fullNames arguments
    let plain := withArguments ((space.map (· ++ ".")).getD "" ++ name) names
    match names with
    | [element] => if kind = .arrayType then element ++ "[]" else plain
    | _ => plain

/-- The full names of a list of types. -/
def fullNames : List TypeSymbol → List String
  | [] => []
  | t :: ts => fullName t :: fullNames ts

end

instance : BEq TypeSymbol := ⟨fun t u => t.fullName == u.fullName⟩

/-- The type has this name in this namespace. -/
def isNamed (t : TypeSymbol) (space name : String) : Bool :=
  t.name == name && t.space.getD "" == space

/-- The type of the values that may be missing; any other type stays. -/
def unwrapNullable (t : TypeSymbol) : TypeSymbol :=
  if t.special == .nullable then
    match t.arguments with
    | [inner] => inner
    | _ => t
  else t

end TypeSymbol

/-- A parameter of a method. -/
structure ParameterSymbol where
  name : String
  type? : Option TypeSymbol
  isParams : Bool
  isOptional : Bool
  deriving Repr

/-- A resolved method. -/
structure MethodSymbol where
  name : String
  /-- The type that declares the method. -/
  owner? : Option TypeSymbol
  parameters : List ParameterSymbol
  returns? : Option TypeSymbol
  deriving Repr

namespace MethodSymbol

/-- The method takes one parameter, of this special type. -/
def takesOnly (m : MethodSymbol) (s : SpecialType) : Bool :=
  match m.parameters with
  | [p] => p.type?.any fun t => t.special == s
  | _ => false

end MethodSymbol

end PluginLint
