import PluginLint.Edit.Braces

/-!
# Many edits at once

Edits are taken in the order of their starts. One that overlaps an edit taken before is left out.
All edits are checked on the file as it was; they are made from the last to the first, so that the
offsets of those still to be made stay right.
-/
namespace PluginLint

/-- Why an edit was left out. -/
inductive SkipReason where
  | overlap (other : Span)
  | notFound
  | invalid (why : EditError)
  deriving DecidableEq, Repr

namespace SkipReason

def message : SkipReason → String
  | .overlap other => "overlaps edit at " ++ other.render
  | .notFound => "node not found"
  | .invalid why => why.message

end SkipReason

/-- An edit that was left out. -/
structure SkippedEdit where
  edit : Edit
  reason : SkipReason
  deriving DecidableEq, Repr

/-- What came of a batch of edits. -/
structure BatchOutcome where
  file : SourceFile
  /-- The edits made, in the order of their starts. -/
  applied : List Edit
  skipped : List SkippedEdit
  /-- The nodes changed, each as it was just before, in the order of the changes. -/
  changes : List Change := []
  deriving Repr

namespace Batch

/-- Edits in the order of their starts; equals keep their order. -/
def ordered (edits : List Edit) : List Edit :=
  edits.mergeSort fun a b => a.span.start ≤ b.span.start

/-- The edits taken so far, newest first, each with the tree that it puts in place, and those left
out, newest first. -/
structure Selection where
  accepted : List (Edit × Tree) := []
  skipped : List SkippedEdit := []

/-- Takes an edit or leaves it out. -/
def Selection.add (f : SourceFile) (s : Selection) (edit : Edit) : Selection :=
  let skip := fun reason => { s with skipped := ⟨edit, reason⟩ :: s.skipped }
  match s.accepted.reverse.find? fun (a, _) => a.span.overlaps edit.span with
  | some (prior, _) => skip (.overlap prior.span)
  | none =>
    match f.locate edit with
    | .error _ => skip .notFound
    | .ok n =>
      match SourceFile.replacement edit.fix n with
      | .ok tree => { s with accepted := (edit, tree) :: s.accepted }
      | .error why => skip (.invalid why)

/-- Looks through the edits in order. -/
def select (f : SourceFile) (edits : List Edit) : Selection :=
  (ordered edits).foldl (Selection.add f) {}

/-- Makes the edits taken, the last one first. -/
def make : List (Edit × Tree) → BatchOutcome → BatchOutcome
  | [], o => o
  | (edit, tree) :: rest, o =>
    match (do
      let n ← o.file.locate edit
      return (n, ← o.file.replace n tree)) with
    | .ok (n, file) =>
      make rest
        { o with
          file
          applied := edit :: o.applied
          changes := o.changes ++ [⟨edit.fix, n⟩] }
    | .error _ => make rest { o with skipped := o.skipped ++ [⟨edit, .notFound⟩] }

end Batch

namespace SourceFile

/-- Makes as many of the edits as possible. -/
def applyBatch (f : SourceFile) (edits : List Edit) (cancelled : Bool) :
    Except EditError BatchOutcome :=
  if cancelled && !edits.isEmpty then .error .cancelled
  else
    let s := Batch.select f edits
    .ok (Batch.make s.accepted { file := f, applied := [], skipped := s.skipped.reverse })

end SourceFile

end PluginLint
