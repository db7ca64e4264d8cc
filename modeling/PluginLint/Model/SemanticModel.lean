import PluginLint.Model.Hierarchy
import PluginLint.Syntax.Node

/-!
# What is known about nodes

A model answers what type a node has and which method a call calls. What it does not know it leaves
out; no question fails.
-/
namespace PluginLint

/-- The answers about the nodes of one file. -/
structure SemanticModel where
  typeOf : Node → Option TypeSymbol
  methodOf : Node → Option MethodSymbol

namespace SemanticModel

/-- A model that knows nothing. -/
def empty : SemanticModel := ⟨fun _ => none, fun _ => none⟩

end SemanticModel

end PluginLint
