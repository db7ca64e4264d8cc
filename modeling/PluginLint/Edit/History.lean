import PluginLint.Edit.Batch
import PluginLint.Grammar.Parse

/-!
# Histories of a file

A history remembers the first version of a file and which nodes of the current version are nodes of
the first one, untouched. A change touches the changed node and all nodes around it; inside, it
touches the nodes that lead to the first and to the last token, whose trivia it moves.
-/
namespace PluginLint

namespace Tree

/- The way to the first token. -/
mutual

/-- The path to the first token. -/
def firstPath? : Tree → Option (List Nat)
  | .leaf _ => some []
  | .node _ parts => firstPathFrom? 0 parts

/-- The path to the first token of a list of parts, the first of which is the `i`-th. -/
def firstPathFrom? (i : Nat) : List Tree → Option (List Nat)
  | [] => none
  | t :: ts =>
    match firstPath? t with
    | some path => some (i :: path)
    | none => firstPathFrom? (i + 1) ts

end

/- The way to the last token. -/
mutual

/-- The path to the last token. -/
def lastPath? : Tree → Option (List Nat)
  | .leaf _ => some []
  | .node _ parts => lastPathFrom? 0 parts

/-- The path to the last token of a list of parts, the first of which is the `i`-th. -/
def lastPathFrom? (i : Nat) : List Tree → Option (List Nat)
  | [] => none
  | t :: ts =>
    match lastPathFrom? (i + 1) ts with
    | some path => some path
    | none => (lastPath? t).map (i :: ·)

end

/-- The node at a path stays untouched when the trivia around the tree is replaced. -/
def keeps (t : Tree) (path : List Nat) : Bool :=
  !path.isEmpty && !(t.firstPath?.any path.isPrefixOf) && !(t.lastPath?.any path.isPrefixOf)

end Tree

namespace Change

/-- The statement that moves in a change, and its place in the block around it. -/
def moved? (c : Change) : Option (Nat × Tree) :=
  match c.fix with
  | .addBraces => some (1, c.node.tree)
  | .removeBraces =>
    (c.node.parts.zipIdx.find? fun (t, _) => t.isNode).map fun (t, i) => (i, t)

/-- Inside the changed node: where the untouched node that is at a path now was before. -/
def originInside? (c : Change) (path : List Nat) : Option (List Nat) := do
  let (i, statement) ← c.moved?
  match c.fix, path with
  | .addBraces, j :: rest => if j = i && statement.keeps rest then some rest else none
  | .addBraces, [] => none
  | .removeBraces, path => if statement.keeps path then some (i :: path) else none

/-- Where the untouched node that is at a path now was before. -/
def origin? (c : Change) (path : List Nat) : Option (List Nat) :=
  let at_ := c.node.path
  if at_.isPrefixOf path then (c.originInside? (path.drop at_.length)).map (at_ ++ ·)
  else if path.isPrefixOf at_ then none
  else some path

end Change

/-- A file and its first version. -/
structure History where
  first : SourceFile
  current : SourceFile
  /-- The path, in the first version, of the untouched node at a path of the current one. -/
  origin? : List Nat → Option (List Nat) := some

namespace History

/-- A history without changes. -/
def start (f : SourceFile) : History := { first := f, current := f }

/-- The node of the current version that is a node of the first one, untouched and not moved. -/
def find? (h : History) (n : Node) : Option Node :=
  h.current.nodes.find? fun m => m.start == n.start && h.origin? m.path == some n.path

/-- The file after a change. -/
def record (h : History) (file : SourceFile) (c : Change) : History :=
  { h with current := file, origin? := fun path => (c.origin? path).bind h.origin? }

/-- Puts a statement in a block, or the only statement of a block in its place. -/
def change (h : History) (fix : Fix) (n : Node) : Except EditError History := do
  let file ← match fix with
    | .addBraces => h.current.wrap n
    | .removeBraces => h.current.unwrap n
  return h.record file ⟨fix, n⟩

/-- The same for a node of the first version. What is wrong with the node itself is noticed before
it is looked for. -/
def changeFirst (h : History) (fix : Fix) (n : Node) : Except EditError History := do
  match fix with
  | .addBraces => if !fix.accepts n then throw (.notAStatement n.span)
  | .removeBraces => let _ ← n.unwrapped
  match h.find? n with
  | some m => h.change fix m
  | none => throw (.nodeNotFound n.span)

/-- Makes one edit. -/
def applyFix (h : History) (edit : Edit) (cancelled : Bool) : Except EditError History := do
  if cancelled then throw .cancelled
  h.change edit.fix (← h.current.locate edit)

/-- Makes as many of the edits as possible. -/
def applyBatch (h : History) (edits : List Edit) (cancelled : Bool) :
    Except EditError (History × BatchOutcome) := do
  let outcome ← h.current.applyBatch edits cancelled
  let h := outcome.changes.foldl (fun h c => h.record h.current c) h
  return ({ h with current := outcome.file }, outcome)

/-- Parses the text afresh; no node is left of the first version. -/
def reparse (h : History) : Except Panic History := do
  let current ← SourceFile.parse h.current.path h.current.text
  return { h with current, origin? := fun _ => none }

end History

end PluginLint
