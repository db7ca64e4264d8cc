import PluginLint.Binding.FileModel
import PluginLint.Rules.Dispatch

/-!
# Checking files together

Files are bound together, so that each can use what the others declare, and then looked at one by
one.
-/
namespace PluginLint

/-- How the work on one file is shared out. -/
inductive Workers where
  | one
  | several
  deriving DecidableEq, Repr

namespace Workers

/-- Runs a catalog over a file. What several workers find is put in an order that does not depend on
them. -/
def run (w : Workers) (c : Catalog) (file : SourceFile) (model : SemanticModel)
    (cancelled : Bool) : Except DispatchError DispatchReport :=
  match w with
  | .one => Dispatch.run c file model cancelled
  | .several =>
    (Dispatch.runParallel c file model cancelled (.single c file)).map DispatchReport.settled

end Workers

/-- Binds files together and runs a catalog over each in turn. -/
def checkEach (c : Catalog) (w : Workers) (files : List SourceFile) (cancelled : Bool) :
    Except DispatchError (List DispatchReport) :=
  (files.zip (Binding.bind files)).mapM fun (file, model) => w.run c file model cancelled

/-- Binds files together and puts together what a catalog finds in them. -/
def checkFiles (c : Catalog) (files : List SourceFile) (cancelled : Bool) :
    Except DispatchError LintResult :=
  (checkEach c .one files cancelled).map LintResult.ofReports

end PluginLint
