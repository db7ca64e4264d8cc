import PluginLint.Rules.Rule
import PluginLint.Syntax.Chain

/-!
# Names for the record at hand

The record that a plugin works on is called `target`, and `merged` once it holds what it was before
as well.
-/
namespace PluginLint.Rules

/-- The name of the member that is called for the value of a variable. -/
def sourceMethod? (declarator : Node) : Option String := do
  let value ← (← declarator.childOfKind? .equalsValueClause).childNodes.head?
  let call := value.unwrapValue
  if (← call.callee?).kind == .simpleMemberAccessExpression then call.invokedName? else none

/-- The variables of a statement that hold the result of a method and have another name than the
expected one. -/
def misnamed (method expected : String) (n : Node) : List Violation :=
  match n.childOfKind? .variableDeclaration with
  | none => []
  | some declaration =>
    (declaration.childrenOfKind .variableDeclarator).filterMap fun v =>
      if sourceMethod? v == some method then
        (v.identifier?.filter fun name => name.text != expected).map fun name =>
          ⟨name.span, [name.text]⟩
      else none

def getTargetNaming : Rule where
  code := "CT0011"
  name := "get-target-naming"
  description := "The result of GetTarget should be named 'target'"
  category := .naming
  message := "Rename '\x7b0\x7d' to 'target'"
  triggers := [.localDeclarationStatement]
  check _ n := .ok (misnamed "GetTarget" "target" n)

def mergedTargetNaming : Rule where
  code := "CT0012"
  name := "merged-target-naming"
  description := "The result of GetTargetMergedWithPreImage should be named 'merged'"
  category := .naming
  message := "Rename '\x7b0\x7d' to 'merged'"
  triggers := [.localDeclarationStatement]
  check _ n := .ok (misnamed "GetTargetMergedWithPreImage" "merged" n)

end PluginLint.Rules
