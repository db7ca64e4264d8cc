import PluginLint.Findings.LintResult
import PluginLint.Model.SemanticModel
import PluginLint.Text.Message

/-!
# Rules

A rule looks at one node at a time, of the kinds that it names, and reports findings. What they say
is up to the rule. Most rules only say where something is wrong, and then each finding bears the
rule's own code, name, severity and message.
-/
namespace PluginLint

/-- What a rule may look at. -/
structure RuleContext where
  file : SourceFile
  model : SemanticModel

/-- A place that breaks a rule, and the arguments of the message. -/
structure Violation where
  span : Span
  arguments : List String := []
  deriving DecidableEq, Repr

/-- The finding for a violation of a rule with these values. -/
def Violation.diagnostic (v : Violation) (file : SourceFile) (code name : String)
    (severity : Severity) (message : String) (fix? : Option Fix) : Diagnostic :=
  { code := code
    rule := name
    severity := severity
    location := file.location v.span
    message := Text.formatMessage message v.arguments
    arguments := v.arguments
    suggestion? := fix?.map Suggestion.ofFix }

/-- A rule. -/
structure Rule where
  code : String
  name : String
  description : String := ""
  category : Category
  severity : Severity := .warning
  /-- The template of the message. -/
  message : String
  /-- The kinds of node that the rule looks at. -/
  triggers : List NodeKind
  fix? : Option Fix := none
  /-- The violations at a node, or the message with which the rule breaks down. -/
  check : RuleContext → Node → Except String (List Violation) := fun _ _ => .ok []
  /-- The findings at a node, or the message with which the rule breaks down: one for each violation,
  unless the rule has something else to report. -/
  report : RuleContext → Node → Except String (List Diagnostic) := fun context n =>
    (check context n).map fun violations =>
      violations.map fun v => v.diagnostic context.file code name severity message fix?

namespace Rule

/-- The rule looks at nodes of this kind. -/
def triggeredBy (r : Rule) (kind : NodeKind) : Bool := r.triggers.contains kind

/-- The finding for a violation of the rule. -/
def diagnostic (r : Rule) (file : SourceFile) (v : Violation) : Diagnostic :=
  v.diagnostic file r.code r.name r.severity r.message r.fix?

/-- What comes of a rule at a node. -/
def evaluate (r : Rule) (context : RuleContext) (n : Node) :
    Except RuleFailure (List Diagnostic) :=
  match r.report context n with
  | .ok found => .ok found
  | .error message => .error ⟨r.code, context.file.location n.span, message⟩

end Rule

end PluginLint
