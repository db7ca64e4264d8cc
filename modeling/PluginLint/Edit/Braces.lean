import PluginLint.Edit.Fix
import PluginLint.Syntax.File

/-!
# Adding and removing braces

A changed node keeps the trivia that was around it, so the text outside its span never changes.
-/
namespace PluginLint

/-- Why an edit could not be made. -/
inductive EditError where
  | nodeNotFound (span : Span)
  | notAStatement (span : Span)
  | notSingleStatement (span : Span)
  /-- Comments between the braces and the statement would be lost. -/
  | commentsInside (span : Span)
  | cancelled
  deriving DecidableEq, Repr

namespace EditError

def name : EditError → String
  | .nodeNotFound _ => "NodeNotFound"
  | .notAStatement _ => "NotAStatement"
  | .notSingleStatement _ => "NotSingleStatement"
  | .commentsInside _ => "CommentsInside"
  | .cancelled => "Cancelled"

def message : EditError → String
  | .nodeNotFound s => "no matching node at " ++ s.render
  | .notAStatement s => "node at " ++ s.render ++ " is not a statement"
  | .notSingleStatement s => "block at " ++ s.render ++ " does not contain exactly one statement"
  | .commentsInside s => "block at " ++ s.render ++ " has comments that unwrapping would drop"
  | .cancelled => "rewrite cancelled"

end EditError

namespace Node

/-- A block around the statement, with a blank inside each brace. The trivia around the statement
goes around the block. -/
def wrapped (statement : Node) : Tree :=
  .node .block
    [.leaf ⟨.punct, "\x7b", statement.leading, [.space]⟩,
     statement.tree.withoutOuterTrivia,
     .leaf ⟨.punct, "\x7d", [.space], statement.trailing⟩]

/-- The only child node of a block, if it is a statement. -/
def singleStatement? (block : Node) : Option Node :=
  if block.kind = .block then
    match block.childNodes with
    | [statement] => if statement.kind.isStatement then some statement else none
    | _ => none
  else none

/-- The trivia between the braces of a block and its statement. -/
def innerTrivia (block statement : Node) : List Trivia :=
  ((block.token? "\x7b").map fun t => t.token.trailing).getD [] ++ statement.leading ++
    statement.trailing ++ ((block.token? "\x7d").map fun t => t.token.leading).getD []

/-- The only statement of a block, with the trivia around the block. -/
def unwrapped (block : Node) : Except EditError Tree :=
  if block.kind = .block then
    match block.singleStatement? with
    | none => .error (.notSingleStatement block.span)
    | some statement =>
      if (block.innerTrivia statement).any Trivia.isComment then
        .error (.commentsInside block.span)
      else .ok (statement.tree.withOuterTrivia block.leading block.trailing)
  else .error (.nodeNotFound block.span)

end Node

namespace SourceFile

/-- The file with the tree in place of a node. -/
def replace (f : SourceFile) (n : Node) (new : Tree) : Except EditError SourceFile :=
  match new with
  | .node kind parts =>
    match f.replaceAt n.path kind parts with
    | some g => .ok g
    | none => .error (.nodeNotFound n.span)
  | .leaf _ => .error (.nodeNotFound n.span)

/-- Puts a statement in a block. -/
def wrap (f : SourceFile) (statement : Node) : Except EditError SourceFile :=
  if Fix.addBraces.accepts statement then f.replace statement statement.wrapped
  else .error (.notAStatement statement.span)

/-- Puts the only statement of a block in its place. -/
def unwrap (f : SourceFile) (block : Node) : Except EditError SourceFile := do
  f.replace block (← block.unwrapped)

/-- The node to which an edit applies. -/
def locate (f : SourceFile) (edit : Edit) : Except EditError Node :=
  match f.root.findNode? edit.span edit.fix.accepts with
  | some n => .ok n
  | none => .error (.nodeNotFound edit.span)

/-- The tree that a fix puts in place of a node. -/
def replacement (fix : Fix) (n : Node) : Except EditError Tree :=
  match fix with
  | .addBraces => .ok n.wrapped
  | .removeBraces => n.unwrapped

/-- Makes one edit. -/
def applyFix (f : SourceFile) (edit : Edit) (cancelled : Bool) : Except EditError SourceFile := do
  if cancelled then throw .cancelled
  let n ← f.locate edit
  f.replace n (← replacement edit.fix n)

end SourceFile

end PluginLint
