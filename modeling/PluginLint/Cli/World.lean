import PluginLint.Project.Config
import PluginLint.Files.FileTree

/-!
# What a command sees and does

A command sees the files of the machine, the folder in which it runs and a few settings of the user.
It prints, writes files and ends with a number.
-/
namespace PluginLint.Cli

open Files

/-- What a command sees. -/
structure World where
  /-- All files, from the top. -/
  files : FileTree
  /-- The absolute path of the folder in which the command runs. -/
  here : String
  /-- The folder of the user's configuration, if it is set. -/
  configFolder? : Option String := none
  home? : Option String := none

namespace World

def isFile (w : World) (path : String) : Bool := w.files.isFileAt w.here path

def hasPath (w : World) (path : String) : Bool := w.files.existsAt w.here path

def readText (w : World) (path : String) : Except FileError String := w.files.readText w.here path

/-- The names of the entries of a folder. -/
def entryNames (w : World) (path : String) : List String :=
  ((w.files.find? w.here path).elim [] FileTree.entries).map Prod.fst

end World

/-- What a command does. -/
structure Outcome where
  exitCode : Nat := 0
  /-- The text on standard output. -/
  output : String := ""
  /-- The lines on standard error. -/
  errors : List String := []
  /-- The files that are written, with their text. -/
  writes : List (String × String) := []
  deriving DecidableEq, Repr

/-- Why a command has no outcome of its own. -/
inductive Failure where
  /-- What failed, and the causes, the nearest first. -/
  | failed (what : String) (causes : List String)
  /-- A text has no tokens; nothing more can be said. -/
  | broken
  deriving DecidableEq, Repr

namespace Failure

/-- Several causes are numbered. -/
def causeLines : List String → List String
  | [] => []
  | [cause] => ["", "Caused by:", "    " ++ cause]
  | causes => ["", "Caused by:"] ++ causes.zipIdx.map fun (cause, i) =>
      "    " ++ toString i ++ ": " ++ cause

def outcome : Failure → Outcome
  | .failed what causes => { exitCode := 1, errors := ("Error: " ++ what) :: causeLines causes }
  | .broken => { exitCode := 101 }

end Failure

end PluginLint.Cli
