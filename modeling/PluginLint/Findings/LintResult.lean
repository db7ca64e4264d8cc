import PluginLint.Files.Path
import PluginLint.Findings.Diagnostic

/-!
# Results of a run
-/
namespace PluginLint

/-- What a run has found. -/
structure LintResult where
  diagnostics : List Diagnostic := []
  filesChecked : Nat := 0
  failures : List RuleFailure := []
  deriving DecidableEq, Repr, Inhabited

namespace LintResult

/-- Some finding is at least this serious. -/
def hasAtLeast (r : LintResult) (threshold : Severity) : Bool :=
  r.diagnostics.any fun d => d.severity.atLeast threshold

def hasErrors (r : LintResult) : Bool := r.hasAtLeast .error

def hasWarnings (r : LintResult) : Bool := r.hasAtLeast .warning

/-- The findings of one severity. -/
def bySeverity (r : LintResult) (s : Severity) : List Diagnostic :=
  r.diagnostics.filter fun d => d.severity == s

def errorCount (r : LintResult) : Nat := (r.bySeverity .error).length

def warningCount (r : LintResult) : Nat := r.diagnostics.length - r.errorCount

/-- Findings are ordered by file, line, column and code. -/
def compare (a b : Diagnostic) : Ordering :=
  (Files.Path.compare a.location.file b.location.file).then <|
    (Ord.compare a.location.line b.location.line).then <|
      (Ord.compare a.location.column b.location.column).then (Ord.compare a.code b.code)

/-- The result with its findings in order; equals keep their order. -/
def sort (r : LintResult) : LintResult :=
  { r with diagnostics := r.diagnostics.mergeSort fun a b => (compare a b).isLE }

/-- One result after another. The number of files is a word. -/
def extend (r other : LintResult) : Except Overflow LintResult :=
  let filesChecked := r.filesChecked + other.filesChecked
  if filesChecked < Text.wordLimit then
    .ok { diagnostics := r.diagnostics ++ other.diagnostics
          filesChecked
          failures := r.failures ++ other.failures }
  else .error ⟨⟩

/-- Failures are left out if there are none. -/
def toJson (r : LintResult) : Json :=
  .obj (
    [("diagnostics", .arr (r.diagnostics.map Diagnostic.toJson)),
      ("files_checked", .num r.filesChecked)] ++
    (if r.failures.isEmpty then [] else [("failures", .arr (r.failures.map RuleFailure.toJson))]))

end LintResult

end PluginLint
