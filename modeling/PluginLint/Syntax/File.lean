import PluginLint.Syntax.Node
import PluginLint.Text.Lines

/-!
# Parsed files

A parsed file is a tree with a path and the problems met while parsing. Changing a node gives a new
file in which only the nodes above it differ.
-/
namespace PluginLint

/-- A problem met while parsing; the parser goes on after it. -/
structure ParseError where
  offset : Nat
  message : String
  deriving DecidableEq, Repr, Inhabited

/-- Where a finding stands in a file. -/
structure Location where
  file : String
  line : Nat
  column : Nat
  offset : Nat
  length : Nat
  deriving DecidableEq, Repr, Inhabited

namespace Location

/-- The span of a location, unless it ends out of range. -/
def span? (l : Location) : Option Span := Span.ofLength? l.offset l.length

end Location

/-- A parsed file. -/
structure SourceFile where
  path : String
  kind : NodeKind
  parts : List Tree
  errors : List ParseError := []
  deriving Repr, Inhabited

namespace SourceFile

/-- The root of the tree. -/
def root (f : SourceFile) : Node := ⟨f.kind, f.parts, 0, []⟩

/-- The text of the file. -/
def text (f : SourceFile) : String := Tree.renderAll f.parts

def isCompilationUnit (f : SourceFile) : Bool := f.kind == .compilationUnit

/-- The line and column of an offset. -/
def lineCol (f : SourceFile) (offset : Nat) : Nat × Nat := Text.lineCol f.text.toList offset

/-- The location of a span. -/
def location (f : SourceFile) (range : Span) : Location :=
  let (line, column) := f.lineCol range.start
  ⟨f.path, line, column, range.start, range.length⟩

/-- All nodes of the file, each before those below it. -/
def nodes (f : SourceFile) : List Node := f.root.descendants

end SourceFile

namespace Tree

/-- The part at a position of a list replaced, if it is there and the change is possible. -/
def changeAt (change : Tree → Option Tree) : Nat → List Tree → Option (List Tree)
  | _, [] => none
  | 0, t :: ts => (change t).map (· :: ts)
  | i + 1, t :: ts => (changeAt change i ts).map (t :: ·)

/-- The node at the end of a path replaced. There is no result if the path leads nowhere or to a
token. -/
def replaceAt (new : Tree) : List Nat → Tree → Option Tree
  | _, .leaf _ => none
  | [], .node _ _ => some new
  | i :: path, .node kind parts =>
    (changeAt (replaceAt new path) i parts).map (.node kind)

end Tree

namespace SourceFile

/-- The file with the node at a path replaced by another one. -/
def replaceAt (f : SourceFile) (path : List Nat) (kind : NodeKind) (parts : List Tree) :
    Option SourceFile :=
  match Tree.replaceAt (.node kind parts) path f.root.tree with
  | some (.node kind parts) => some { f with kind, parts }
  | _ => none

end SourceFile

end PluginLint
