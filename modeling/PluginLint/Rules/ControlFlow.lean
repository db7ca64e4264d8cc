import PluginLint.Edit.Braces
import PluginLint.Rules.Rule

/-!
# Braces in control flow

A body that goes on after its statement needs braces. A body that only jumps away needs none after
`if` and `else`.
-/
namespace PluginLint.Rules

/-- The words for a statement that jumps away. To yield a value is no jump, since the code goes
on. -/
def jumpWords? : NodeKind → Option String
  | .returnStatement => some "return"
  | .throwStatement => some "throw"
  | .continueStatement => some "continue"
  | .breakStatement => some "break"
  | .yieldBreakStatement => some "yield break"
  | _ => none

/-- A statement that jumps away. -/
def isJump (kind : NodeKind) : Bool := (jumpWords? kind).isSome

/-- The nodes with a statement for a body. -/
def controlKinds : List NodeKind :=
  [.ifStatement, .elseClause, .forStatement, .forEachStatement, .whileStatement, .doStatement]

/-- The statement under an `if`, an `else` or a loop. What is under the `else` of an `if` belongs to
the `else`. -/
def controlBody? (n : Node) : Option Node :=
  if controlKinds.contains n.kind then n.findChild? NodeKind.isStatement else none

/-- The same, except for the second `if` in `else if`. -/
def checkedBody? (n : Node) : Option Node :=
  (controlBody? n).filter fun body => !(n.kind == .elseClause && body.kind == .ifStatement)

/-- The keyword that begins a node. -/
def controlKeyword (n : Node) : String :=
  ((n.childTokens.find? fun t => t.text != "await").map PlacedToken.text).getD ""

/-- A body without braces that does more than jump away. -/
def bareBody (n : Node) : List Violation :=
  match checkedBody? n with
  | some body =>
    if body.kind == .block || isJump body.kind then [] else [⟨body.span, [controlKeyword n]⟩]
  | none => []

/-- A block with nothing but a jump. -/
def bracedJump (n : Node) : List Violation :=
  match checkedBody? n with
  | some block =>
    match (block.singleStatement?).bind fun s => jumpWords? s.kind with
    | some word => [⟨block.span, [word]⟩]
    | none => []
  | none => []

def bracesForControlFlow : Rule where
  code := "CT0001"
  name := "braces-for-control-flow"
  description := "Control-flow bodies other than a single jump statement must be blocks"
  category := .style
  severity := .error
  message := "Use braces around the body of this '\x7b0\x7d'"
  triggers := controlKinds
  fix? := some .addBraces
  check _ n := .ok (bareBody n)

def noBracesForControlFlow : Rule where
  code := "CT0004"
  name := "no-braces-for-control-flow"
  description :=
    "A block holding a single return, throw, break, continue or yield break should be unbraced"
  category := .style
  severity := .error
  message := "Remove the braces around the single '\x7b0\x7d' statement"
  triggers := [.ifStatement, .elseClause]
  fix? := some .removeBraces
  check _ n := .ok (bracedJump n)

end PluginLint.Rules
