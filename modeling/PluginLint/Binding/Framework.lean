import PluginLint.Binding.Symbols

/-!
# Types of the framework

The types that plugins are written against, as far as their names, bases and members matter. They
are declared after those of the files, so a file's own types are found first.

They are given as a table, which spares reading their text. The text itself is in
`PluginLint.Binding.FrameworkText`, and collecting it declares what the table declares
(`Declarations.addFramework_eq_collect`).
-/
namespace PluginLint.Binding

/-- A type of the framework. -/
structure TypeStub where
  name : String
  kind : TypeKind := .classType
  typeParameters : List String := []
  bases : List TypeExpr := []
  members : List Member := []
  deriving DecidableEq, Repr, Inhabited

namespace Framework

/-! ### Building blocks -/

def object : TypeExpr := .special .object
def void : TypeExpr := .special .void
def string : TypeExpr := .special .string
def bool : TypeExpr := .special .boolean
def char : TypeExpr := .special .char
def int : TypeExpr := .special .int32
def long : TypeExpr := .special .int64
def double : TypeExpr := .special .double
def decimal : TypeExpr := .special .decimal
def named (name : String) : TypeExpr := .name name []
def arrayOf (element : TypeExpr) : TypeExpr := .array element 1

def param (type : TypeExpr) (name : String) : ParameterDecl := { name, type? := type }

/-- A parameter that takes all arguments left. -/
def rest (type : TypeExpr) (name : String) : ParameterDecl :=
  { name, type? := type, isParams := true }

/-- A parameter that needs no argument. -/
def optional (type : TypeExpr) (name : String) : ParameterDecl :=
  { name, type? := type, isOptional := true }

def field (type : TypeExpr) (name : String) : Member := { name, kind := .field, type? := type }

def property (type : TypeExpr) (name : String) : Member :=
  { name, kind := .property, type? := type }

def indexer (type : TypeExpr) (parameters : List ParameterDecl) : Member :=
  { name := "this", kind := .indexer, type? := type, parameters }

def method (returns : TypeExpr) (name : String) (parameters : List ParameterDecl)
    (typeParameters : List String := []) : Member :=
  { name, kind := .method, type? := returns, parameters, typeParameters }

def constructor (parameters : List ParameterDecl) : Member :=
  { name := ".ctor", kind := .constructor, parameters }

def case (name : String) : Member := { name, kind := .enumMember }

/-! ### The types -/

/-- Types of the language and of everyday code. -/
def systemTypes : List TypeStub :=
  [ { name := "Object"
      members :=
        [ method string "ToString" [],
          method bool "Equals" [param object "obj"],
          method int "GetHashCode" [],
          method (named "Type") "GetType" [] ] },
    { name := "String"
      members :=
        [ field string "Empty",
          property int "Length",
          indexer char [param int "index"],
          method bool "Contains" [param string "value"],
          method bool "StartsWith" [param string "value"],
          method bool "EndsWith" [param string "value"],
          method bool "Equals"
            [param string "value", param (named "StringComparison") "comparisonType"],
          method string "ToLower" [],
          method string "ToLowerInvariant" [],
          method string "ToUpper" [],
          method string "Trim" [],
          method string "Substring" [param int "startIndex", optional int "length"],
          method string "Replace" [param string "oldValue", param string "newValue"],
          method (arrayOf string) "Split" [rest (arrayOf char) "separator"],
          method bool "IsNullOrEmpty" [param string "value"],
          method bool "IsNullOrWhiteSpace" [param string "value"],
          method string "Format" [param string "format", rest (arrayOf object) "args"],
          method string "Join" [param string "separator", rest (arrayOf object) "values"] ] },
    { name := "StringComparison", kind := .enumType
      members :=
        ["CurrentCulture", "CurrentCultureIgnoreCase", "InvariantCulture",
         "InvariantCultureIgnoreCase", "Ordinal", "OrdinalIgnoreCase"].map case },
    { name := "Boolean", kind := .structType
      members := [method bool "Parse" [param string "value"]] },
    { name := "Int32", kind := .structType
      members :=
        [ method int "Parse" [param string "s"],
          method bool "TryParse" [param string "s", param int "result"] ] },
    { name := "Int64", kind := .structType
      members := [method long "Parse" [param string "s"]] },
    { name := "Decimal", kind := .structType
      members := [method decimal "Parse" [param string "s"]] },
    { name := "Double", kind := .structType
      members := [method double "Parse" [param string "s"]] },
    { name := "Nullable", kind := .structType, typeParameters := ["T"]
      members :=
        [ property bool "HasValue",
          property (named "T") "Value",
          method (named "T") "GetValueOrDefault" [] ] },
    { name := "Array"
      members := [property int "Length"] },
    { name := "Type"
      members :=
        [ property string "Name",
          property string "FullName" ] },
    { name := "Exception"
      members :=
        [ constructor [],
          constructor [param string "message"],
          constructor [param string "message", param (named "Exception") "innerException"],
          property string "Message",
          property (named "Exception") "InnerException" ] },
    { name := "ArgumentNullException", bases := [named "Exception"]
      members := [constructor [param string "paramName"]] },
    { name := "InvalidOperationException", bases := [named "Exception"]
      members := [constructor [param string "message"]] },
    { name := "IServiceProvider", kind := .interfaceType
      members := [method object "GetService" [param (named "Type") "serviceType"]] },
    { name := "IDisposable", kind := .interfaceType
      members := [method void "Dispose" []] },
    { name := "Guid", kind := .structType
      members :=
        [ field (named "Guid") "Empty",
          method (named "Guid") "NewGuid" [],
          method (named "Guid") "Parse" [param string "input"],
          method string "ToString" [] ] },
    { name := "DateTime", kind := .structType
      members :=
        [ property (named "DateTime") "Now",
          property (named "DateTime") "UtcNow",
          property (named "DateTime") "Today",
          method (named "DateTime") "AddDays" [param double "value"],
          method (named "DateTime") "ToUniversalTime" [] ] } ]

/-- Collections. -/
def collectionTypes : List TypeStub :=
  [ { name := "IEnumerable", kind := .interfaceType, typeParameters := ["T"] },
    { name := "ICollection", kind := .interfaceType, typeParameters := ["T"]
      bases := [.name "IEnumerable" [named "T"]]
      members :=
        [ property int "Count",
          method void "Add" [param (named "T") "item"],
          method bool "Contains" [param (named "T") "item"] ] },
    { name := "IList", kind := .interfaceType, typeParameters := ["T"]
      bases := [.name "ICollection" [named "T"]]
      members := [indexer (named "T") [param int "index"]] },
    { name := "KeyValuePair", kind := .structType, typeParameters := ["TKey", "TValue"]
      members :=
        [ property (named "TKey") "Key",
          property (named "TValue") "Value" ] },
    { name := "List", typeParameters := ["T"], bases := [.name "IList" [named "T"]]
      members :=
        [ constructor [],
          constructor [param (.name "IEnumerable" [named "T"]) "collection"],
          property int "Count",
          indexer (named "T") [param int "index"],
          method void "Add" [param (named "T") "item"],
          method void "AddRange" [param (.name "IEnumerable" [named "T"]) "collection"],
          method bool "Contains" [param (named "T") "item"],
          method (arrayOf (named "T")) "ToArray" [] ] },
    { name := "Dictionary", typeParameters := ["TKey", "TValue"]
      bases := [.name "ICollection" [.name "KeyValuePair" [named "TKey", named "TValue"]]]
      members :=
        [ constructor [],
          property int "Count",
          indexer (named "TValue") [param (named "TKey") "key"],
          method void "Add" [param (named "TKey") "key", param (named "TValue") "value"],
          method bool "ContainsKey" [param (named "TKey") "key"],
          method bool "TryGetValue" [param (named "TKey") "key", param (named "TValue") "value"],
          method bool "Remove" [param (named "TKey") "key"] ] } ]

/-- Results that are awaited. -/
def taskTypes : List TypeStub :=
  [ { name := "Task"
      members :=
        [ property (named "Task") "CompletedTask",
          method (named "Task") "Delay" [param int "millisecondsDelay"],
          method void "Wait" [] ] },
    { name := "Task", typeParameters := ["TResult"], bases := [named "Task"]
      members := [property (named "TResult") "Result"] } ]

/-- Entities, plugins and the services they use. -/
def sdkTypes : List TypeStub :=
  [ { name := "AttributeCollection"
      members :=
        [ property int "Count",
          indexer object [param string "attributeName"],
          method bool "Contains" [param string "key"],
          method bool "ContainsKey" [param string "key"],
          method void "Add" [param string "key", param object "value"],
          method bool "Remove" [param string "key"] ] },
    { name := "Entity"
      members :=
        [ constructor [],
          constructor [param string "entityName"],
          constructor [param string "entityName", param (named "Guid") "id"],
          property (named "Guid") "Id",
          property string "LogicalName",
          property (named "AttributeCollection") "Attributes",
          indexer object [param string "attributeName"],
          method bool "Contains" [param string "attributeName"],
          method (named "T") "GetAttributeValue" [param string "attributeLogicalName"] ["T"],
          method (named "T") "ToEntity" [] ["T"],
          method (named "EntityReference") "ToEntityReference" [] ] },
    { name := "EntityReference"
      members :=
        [ constructor [],
          constructor [param string "logicalName", param (named "Guid") "id"],
          property (named "Guid") "Id",
          property string "LogicalName",
          property string "Name" ] },
    { name := "OptionSetValue"
      members :=
        [ constructor [],
          constructor [param int "value"],
          property int "Value" ] },
    { name := "Money"
      members :=
        [ constructor [],
          constructor [param decimal "value"],
          property decimal "Value" ] },
    { name := "EntityCollection"
      members :=
        [ property (.name "List" [named "Entity"]) "Entities",
          property string "EntityName" ] },
    { name := "ParameterCollection"
      members :=
        [ property int "Count",
          indexer object [param string "key"],
          method bool "Contains" [param string "key"],
          method bool "ContainsKey" [param string "key"],
          method bool "TryGetValue" [param string "key", param (named "T") "value"] ["T"] ] },
    { name := "EntityImageCollection"
      members :=
        [ indexer (named "Entity") [param string "key"],
          method bool "Contains" [param string "key"],
          method bool "ContainsKey" [param string "key"] ] },
    { name := "IPlugin", kind := .interfaceType
      members := [method void "Execute" [param (named "IServiceProvider") "serviceProvider"]] },
    { name := "IExecutionContext", kind := .interfaceType
      members :=
        [ property string "MessageName",
          property string "PrimaryEntityName",
          property (named "Guid") "PrimaryEntityId",
          property (named "Guid") "UserId",
          property (named "Guid") "InitiatingUserId",
          property int "Depth",
          property int "Mode",
          property (named "ParameterCollection") "InputParameters",
          property (named "ParameterCollection") "OutputParameters",
          property (named "ParameterCollection") "SharedVariables",
          property (named "EntityImageCollection") "PreEntityImages",
          property (named "EntityImageCollection") "PostEntityImages" ] },
    { name := "IPluginExecutionContext", kind := .interfaceType
      bases := [named "IExecutionContext"]
      members :=
        [ property int "Stage",
          property (named "IPluginExecutionContext") "ParentContext" ] },
    { name := "OrganizationRequest"
      members :=
        [ property string "RequestName",
          property (named "ParameterCollection") "Parameters" ] },
    { name := "OrganizationResponse"
      members := [property (named "ParameterCollection") "Results"] },
    { name := "IOrganizationService", kind := .interfaceType
      members :=
        [ method (named "Guid") "Create" [param (named "Entity") "entity"],
          method void "Update" [param (named "Entity") "entity"],
          method void "Delete" [param string "entityName", param (named "Guid") "id"],
          method (named "Entity") "Retrieve"
            [param string "entityName", param (named "Guid") "id",
             param (named "ColumnSet") "columnSet"],
          method (named "EntityCollection") "RetrieveMultiple"
            [param (named "QueryBase") "query"],
          method (named "OrganizationResponse") "Execute"
            [param (named "OrganizationRequest") "request"] ] },
    { name := "IOrganizationServiceFactory", kind := .interfaceType
      members :=
        [ method (named "IOrganizationService") "CreateOrganizationService"
            [param (.nullable (named "Guid")) "userId"] ] },
    { name := "ITracingService", kind := .interfaceType
      members := [method void "Trace" [param string "format", rest (arrayOf object) "args"]] },
    { name := "InvalidPluginExecutionException", bases := [named "Exception"]
      members :=
        [ constructor [param string "message"],
          constructor [param string "message", param (named "Exception") "inner"] ] } ]

/-- Queries for entities. -/
def queryTypes : List TypeStub :=
  [ { name := "ConditionOperator", kind := .enumType
      members :=
        ["Equal", "NotEqual", "GreaterThan", "LessThan", "Null", "NotNull", "In",
         "Like"].map case },
    { name := "ColumnSet"
      members :=
        [ constructor [],
          constructor [param bool "allColumns"],
          constructor [rest (arrayOf string) "columns"],
          method void "AddColumns" [rest (arrayOf string) "columns"] ] },
    { name := "QueryBase" },
    { name := "FilterExpression"
      members :=
        [ method void "AddCondition"
            [param string "attributeName", param (named "ConditionOperator") "conditionOperator",
             rest (arrayOf object) "values"] ] },
    { name := "QueryExpression", bases := [named "QueryBase"]
      members :=
        [ constructor [],
          constructor [param string "entityName"],
          property string "EntityName",
          property (named "ColumnSet") "ColumnSet",
          property (named "FilterExpression") "Criteria" ] } ]

/-- All types of the framework, by namespace. -/
def spaces : List (String × List TypeStub) :=
  [ ("System", systemTypes),
    ("System.Collections.Generic", collectionTypes),
    ("System.Threading.Tasks", taskTypes),
    ("Microsoft.Xrm.Sdk", sdkTypes),
    ("Microsoft.Xrm.Sdk.Query", queryTypes) ]

/-- The namespaces that the types of the framework see. -/
def imports : Imports :=
  { spaces := ["System", "System.Collections.Generic", "Microsoft.Xrm.Sdk.Query"] }

end Framework

namespace Declarations

/-- Declares a type of the framework in a namespace. -/
def addStub (d : Declarations) (space : String) (t : TypeStub) : Declarations :=
  let declaration : TypeDecl :=
    { name := t.name, space, kind := t.kind, typeParameters := t.typeParameters }
  let bases := t.bases.zipIdx.map fun (b, i) => (b, i == 0)
  (Collector.addType { declarations := d } declaration { space, imports := Framework.imports }
    bases t.members).1.declarations

/-- Declares all types of the framework. -/
def addFramework (d : Declarations) : Declarations :=
  Framework.spaces.foldl (fun d (space, types) => types.foldl (addStub · space) d) d

end Declarations

end PluginLint.Binding
