import PluginLint.Rules.Catalog

/-!
# Running rules over a file

Every rule is evaluated once at every node of a kind that it looks at. A rule that breaks down at a
node loses its findings there and nothing else.
-/
namespace PluginLint

/-- Why a file was not looked at. -/
inductive DispatchError where
  | cancelled
  /-- The root of a file has to be a compilation unit. -/
  | badRoot (kind : NodeKind) (path : String)
  deriving DecidableEq, Repr

namespace DispatchError

def message : DispatchError → String
  | .cancelled => "analysis cancelled"
  | .badRoot kind path =>
    "dispatch requires a compilation unit root, got " ++ kind.name ++ " for " ++ path

end DispatchError

/-- What a run over one file did and found. -/
structure DispatchReport where
  diagnostics : List Diagnostic := []
  nodesVisited : Nat := 0
  evaluations : Nat := 0
  failures : List RuleFailure := []
  deriving DecidableEq, Repr

/-- One evaluation: a rule at a node. -/
structure Task where
  node : Node
  rule : Rule

namespace DispatchReport

/-- Evaluates a rule at a node and notes what comes of it. -/
def perform (context : RuleContext) (r : DispatchReport) (t : Task) : DispatchReport :=
  match t.rule.evaluate context t.node with
  | .ok found =>
    { r with diagnostics := r.diagnostics ++ found, evaluations := r.evaluations + 1 }
  | .error failure =>
    { r with failures := r.failures ++ [failure], evaluations := r.evaluations + 1 }

/-- The report in an order that does not depend on which worker came first: findings by message,
failures by offset and code. -/
def settled (r : DispatchReport) : DispatchReport :=
  { r with
    diagnostics := r.diagnostics.mergeSort fun a b => a.message ≤ b.message
    failures := r.failures.mergeSort fun a b =>
      ((compare a.location.offset b.location.offset).then (compare a.code b.code)).isLE }

end DispatchReport

/-- What was found in files that were looked at one by one. -/
def LintResult.ofReports (reports : List DispatchReport) : LintResult :=
  { diagnostics := reports.flatMap DispatchReport.diagnostics
    filesChecked := reports.length
    failures := reports.flatMap DispatchReport.failures }

namespace Dispatch

/-- Evaluates the rules for a node, in order. -/
def visit (c : Catalog) (context : RuleContext) (r : DispatchReport) (n : Node) : DispatchReport :=
  (c.rulesFor n.kind).foldl (fun r rule => r.perform context ⟨n, rule⟩)
    { r with nodesVisited := r.nodesVisited + 1 }

/-- Visits the nodes of a stack and all nodes below them, each before those below it. -/
def walk (c : Catalog) (context : RuleContext) (r : DispatchReport) : List Node → DispatchReport
  | [] => r
  | n :: stack => walk c context (visit c context r n) (n.childNodes ++ stack)
termination_by stack => total Node.size stack
decreasing_by
  have := Node.total_size_childNodes n
  simp only [total_append, total_cons]
  omega

/-- Runs a catalog over a file, from the top down. -/
def run (c : Catalog) (file : SourceFile) (model : SemanticModel) (cancelled : Bool) :
    Except DispatchError DispatchReport :=
  if !file.isCompilationUnit then .error (.badRoot file.kind file.path)
  else if cancelled then .error .cancelled
  else .ok (walk c ⟨file, model⟩ {} [file.root])

/-! ### Several workers -/

/-- The nodes that some rule looks at. -/
def workNodes (c : Catalog) (file : SourceFile) : List Node :=
  file.nodes.filter fun n => !(c.rulesFor n.kind).isEmpty

/-- All evaluations to be carried out. -/
def tasks (c : Catalog) (file : SourceFile) : List Task :=
  (workNodes c file).flatMap fun n => (c.rulesFor n.kind).map fun r => ⟨n, r⟩

/-- An order in which workers get round to the evaluations. -/
structure Schedule (c : Catalog) (file : SourceFile) where
  order : List Task
  perm : order.Perm (tasks c file)

/-- The order of a single worker. -/
def Schedule.single (c : Catalog) (file : SourceFile) : Schedule c file :=
  ⟨tasks c file, .refl _⟩

/-- Runs a catalog over a file with several workers. Each evaluation adds its findings in one
piece. -/
def runParallel (c : Catalog) (file : SourceFile) (model : SemanticModel) (cancelled : Bool)
    (s : Schedule c file) : Except DispatchError DispatchReport :=
  if !file.isCompilationUnit then .error (.badRoot file.kind file.path)
  else if cancelled then .error .cancelled
  else
    .ok (s.order.foldl (DispatchReport.perform ⟨file, model⟩)
      { nodesVisited := file.nodes.length })

end Dispatch

end PluginLint
