import PluginLint.Syntax.Node

/-!
# Fixes and edits

A fix is a change that can be made automatically; an edit is a fix at a place.
-/
namespace PluginLint

/-- The changes that can be made automatically. -/
inductive Fix where
  /-- Puts a statement in a block. -/
  | addBraces
  /-- Puts the only statement of a block in its place. -/
  | removeBraces
  deriving DecidableEq, Repr, Inhabited

namespace Fix

def title : Fix → String
  | .addBraces => "Add braces"
  | .removeBraces => "Remove braces"

/-- The name of a fix in data. -/
def key : Fix → String
  | .addBraces => "add-braces"
  | .removeBraces => "remove-braces"

def ofKey? (s : String) : Option Fix := [addBraces, removeBraces].find? fun f => f.key == s

/-- The nodes to which a fix applies. -/
def accepts (fix : Fix) (n : Node) : Bool :=
  match fix with
  | .addBraces => n.kind.isStatement && n.kind != .block
  | .removeBraces => n.kind == .block

end Fix

/-- A fix for the node with a span. -/
structure Edit where
  span : Span
  fix : Fix
  deriving DecidableEq, Repr, Inhabited

/-- A fix made at a node. -/
structure Change where
  fix : Fix
  /-- The node as it was before. -/
  node : Node
  deriving Repr

end PluginLint
