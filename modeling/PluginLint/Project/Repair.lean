import PluginLint.Edit.Batch
import PluginLint.Findings.LintResult

/-!
# Repairing files

The fixes of all findings are made at once, as far as they do not overlap; then the files are checked
again, so that those left out get their turn.
-/
namespace PluginLint

/-- A fix that was made, with the line on which it begins. -/
structure LineChange where
  line : Nat
  fix : Fix
  deriving DecidableEq, Repr

namespace LineChange

/-- Changes are ordered by line, then by title. -/
def compare (a b : LineChange) : Ordering :=
  (Ord.compare a.line b.line).then (Ord.compare a.fix.title b.fix.title)

end LineChange

/-- A file and what was changed in it so far. -/
structure RepairedFile where
  file : SourceFile
  changes : List LineChange := []
  deriving Repr

namespace RepairedFile

def isChanged (r : RepairedFile) : Bool := !r.changes.isEmpty

/-- The changes in the order of their lines. -/
def sortedChanges (r : RepairedFile) : List LineChange :=
  r.changes.mergeSort fun a b => (a.compare b).isLE

/-- Takes what comes out of a batch. The lines of the edits are those of the file as it was. -/
def take (r : RepairedFile) (outcome : BatchOutcome) : RepairedFile :=
  if outcome.applied.isEmpty then r
  else
    { file := outcome.file
      changes := r.changes ++ outcome.applied.map fun e =>
        ⟨(r.file.lineCol e.span.start).1, e.fix⟩ }

/-- Makes edits. Only a batch that is cancelled fails. -/
def apply (r : RepairedFile) (edits : List Edit) : RepairedFile :=
  match r.file.applyBatch edits false with
  | .error _ => r
  | .ok outcome => r.take outcome

theorem apply_of_ok {r : RepairedFile} {edits : List Edit} {o : BatchOutcome}
    (ho : r.file.applyBatch edits false = .ok o) : r.apply edits = r.take o := by
  rw [apply, ho]

/-- No failure is hidden by `apply`: its batch is not cancelled, so something always comes out. -/
theorem exists_apply_eq (r : RepairedFile) (edits : List Edit) :
    ∃ o, r.file.applyBatch edits false = .ok o ∧ r.apply edits = r.take o :=
  ⟨_, rfl, apply_of_ok rfl⟩

end RepairedFile

namespace Repair

/-- So often are the files checked. -/
def passes : Nat := 8

/-- The edits that findings ask for in one file. -/
def editsFor (path : String) (diagnostics : List Diagnostic) : List Edit :=
  (diagnostics.filter fun d => Files.Path.same d.location.file path).filterMap fun d =>
    d.edit?.toOption.join

/-- The number of changes made. -/
def changeCount (files : List RepairedFile) : Nat := total (fun r => r.changes.length) files

/-- Checks and repairs, at most `n` times, as long as there is something to change. -/
def run (check : List SourceFile → Except ε LintResult) :
    Nat → List RepairedFile → Except ε (List RepairedFile)
  | 0, files => .ok files
  | n + 1, files => do
    let found ← check (files.map RepairedFile.file)
    let next := files.map fun r => r.apply (editsFor r.file.path found.diagnostics)
    if changeCount next == changeCount files then return files else run check n next

end Repair

end PluginLint
