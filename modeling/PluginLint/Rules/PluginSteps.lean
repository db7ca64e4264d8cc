import PluginLint.Rules.Rule
import PluginLint.Syntax.Chain

/-!
# Registrations of plugin steps

A step is registered by a chain of calls that starts with the operation. What an argument means is
read off its text, so any word that has `Create` in it counts as that operation.
-/
namespace PluginLint.Rules

/-- A call that configures a step: the operation of the step, and the image asked for. -/
structure StepCall where
  operation? : Option String
  image? : Option String
  deriving DecidableEq, Repr

/-- The call that a registration starts with. -/
def registration : String := "RegisterPluginStep"

def operations : List String := ["Create", "Delete", "Update"]

def imageTypes : List String := ["PreImage", "PostImage", "Both"]

/-- Reads a call of a method that configures a step. -/
def stepCall? (method : String) (n : Node) : Option StepCall := do
  let callee ← n.callee?
  if callee.kind == .simpleMemberAccessExpression && n.invokedName? == some method then
    return {
      operation? :=
        (callee.receiver?.bind (·.findAnchor? registration)).bind (·.scanArguments? operations)
      image? :=
        (n.argumentList?.bind fun list => list.argumentTexts.head?).bind fun first =>
          imageTypes.find? (Text.contains first) }
  else none

/-- A filter for attributes on a step for new records. -/
def filterOnCreate (n : Node) : List Violation :=
  match stepCall? "AddFilteredAttributes" n with
  | some call => if call.operation? = some "Create" then [⟨n.span, []⟩] else []
  | none => []

/-- An image on a step for an operation that does not have it. -/
def missingImage (operation image : String) (n : Node) : List Violation :=
  match stepCall? "AddImage" n with
  | some ⟨some op, some type⟩ =>
    if op = operation && (type = image || type = "Both") then [⟨n.span, [type]⟩] else []
  | _ => []

def filteredAttributesOnCreate : Rule where
  code := "CT0008"
  name := "filtered-attributes-on-create"
  description := "Create steps fire for every new record; attribute filters have no effect on them"
  category := .usage
  severity := .error
  message := "Filtered attributes are not supported on Create steps"
  triggers := [.invocationExpression]
  check _ n := .ok (filterOnCreate n)

def preImageOnCreate : Rule where
  code := "CT0009"
  name := "pre-image-on-create"
  description := "A record being created has no prior state to capture in a pre-image"
  category := .usage
  severity := .error
  message := "Image type '\x7b0\x7d' includes a pre-image, which Create steps do not have"
  triggers := [.invocationExpression]
  check _ n := .ok (missingImage "Create" "PreImage" n)

def postImageOnDelete : Rule where
  code := "CT0010"
  name := "post-image-on-delete"
  description := "A deleted record has no state left to capture in a post-image"
  category := .usage
  severity := .error
  message := "Image type '\x7b0\x7d' includes a post-image, which Delete steps do not have"
  triggers := [.invocationExpression]
  check _ n := .ok (missingImage "Delete" "PostImage" n)

end PluginLint.Rules
