import PluginLint.Syntax.Node
import PluginLint.Text.Search

/-!
# Chains of calls

In `a.First(x).Second(y)` the outermost call is `Second`. A chain is followed from there to the
left, through the receivers, so the arguments of `First` can be found however far back it is.
-/
namespace PluginLint

namespace Node

/-- The expression inside an `await`, a cast or parentheses. -/
def innerExpression? (n : Node) : Option Node :=
  (n.childNodes.filter fun c => c.kind.isExpression).getLast?

theorem size_innerExpression {n c : Node} (h : n.innerExpression? = some c) : c.size < n.size :=
  size_lt_of_mem_childNodes (List.mem_filter.1 (List.mem_of_getLast? h)).1

/-- The expression inside all wrappers of a kind. -/
def stripAll (kind : NodeKind) (n : Node) : Node :=
  if n.kind = kind then
    match _h : n.innerExpression? with
    | some c => stripAll kind c
    | none => n
  else n
termination_by n.size
decreasing_by exact size_innerExpression _h

/-- The expression without one outer `await`, then without casts, then without parentheses. A cast
inside parentheses stays. -/
def unwrapValue (n : Node) : Node :=
  let awaited :=
    if n.kind = .awaitExpression then n.innerExpression?.getD n else n
  (awaited.stripAll .castExpression).stripAll .parenthesizedExpression

/-- What a call calls. -/
def callee? (n : Node) : Option Node :=
  if n.kind = .invocationExpression then
    n.childNodes.head?.filter fun c => c.kind.isExpression
  else none

/-- The arguments of a call or of a new object. -/
def argumentList? (n : Node) : Option Node := n.childOfKind? .argumentList

/-- The text of a name without its type arguments. -/
def simpleName? (n : Node) : Option String :=
  if n.kind.isSimpleName then n.identifier?.map PlacedToken.text else none

/-- A member taken from an object, which may be null. -/
def isMemberAccess (n : Node) : Bool :=
  n.kind == .simpleMemberAccessExpression || n.kind == .conditionalAccessExpression

/-- The name to the right in a member access. -/
def memberName? (n : Node) : Option Node :=
  if n.isMemberAccess then (n.childNodes.drop 1).find? fun c => c.kind.isSimpleName else none

/-- The object to the left in a member access. -/
def receiver? (n : Node) : Option Node :=
  if n.isMemberAccess then n.childNodes.head? else none

/-- The name of the method that a call calls. -/
def invokedName? (n : Node) : Option String := do
  let callee ← n.callee?
  if callee.kind.isSimpleName then callee.simpleName?
  else (← callee.memberName?).simpleName?

/-- A call of a member. -/
def isMemberCall (n : Node) : Bool := n.callee?.any isMemberAccess

/-- The object whose member is called. -/
def callReceiver? (n : Node) : Option Node := n.callee?.bind receiver?

theorem size_callee {n c : Node} (h : n.callee? = some c) : c.size < n.size := by
  unfold callee? at h
  split at h
  · obtain ⟨hc, -⟩ := Option.filter_eq_some_iff.1 h
    exact size_lt_of_mem_childNodes (List.mem_of_head? hc)
  · cases h

theorem size_receiver {n c : Node} (h : n.receiver? = some c) : c.size < n.size := by
  unfold receiver? at h
  split at h
  · exact size_lt_of_mem_childNodes (List.mem_of_head? h)
  · cases h

/-- The calls of a chain, outermost first. Members that are not called are passed over. A call
through `?.` ends the chain and does not belong to it. -/
def chainLinks (n : Node) : List Node :=
  if n.kind = .invocationExpression then
    match _h : n.callee? with
    | some c => if c.kind = .conditionalAccessExpression then [] else n :: chainLinks c
    | none => []
  else if n.kind = .simpleMemberAccessExpression then
    match _h : n.receiver? with
    | some r => chainLinks r
    | none => []
  else []
termination_by n.size
decreasing_by
  · exact size_callee _h
  · exact size_receiver _h

/-- The arguments of the nearest call of a name in a chain. -/
def findAnchor? (n : Node) (anchor : String) : Option Node :=
  (n.chainLinks.find? fun c => c.invokedName? == some anchor).bind argumentList?

/-- The expressions of the arguments in a list. -/
def argumentExpressions (n : Node) : List Node :=
  (n.childrenOfKind .argument).filterMap fun a =>
    (a.childNodes.filter fun c => c.kind != .nameColon).getLast?

/-- The texts of the arguments in a list. -/
def argumentTexts (n : Node) : List String := n.argumentExpressions.map text

/-- The first word of a list whose text occurs in an argument: the first argument that has one
decides. -/
def scanArguments? (n : Node) (words : List String) : Option String :=
  n.argumentTexts.findSome? fun t => words.find? (Text.contains t)

end Node

end PluginLint
