import PluginLint.Syntax.Tree
import PluginLint.Text.Span

/-!
# Nodes in place

A node in place is an inner node of a tree together with the offset at which it starts and the path
that leads to it from the root: the position of each step among its siblings.
-/
namespace PluginLint

/-- An inner node of a tree, seen from the root. -/
structure Node where
  kind : NodeKind
  parts : List Tree
  /-- The offset of the first byte, trivia included. -/
  start : Nat := 0
  /-- The positions to follow from the root. -/
  path : List Nat := []
  deriving Repr, Inhabited

/-- A token of a tree, with the offset of its first byte, trivia included. -/
structure PlacedToken where
  token : Token
  start : Nat
  deriving DecidableEq, Repr, Inhabited

namespace PlacedToken

def text (t : PlacedToken) : String := t.token.text

/-- The span of the token's own text. -/
def span (t : PlacedToken) : Span :=
  .ofLength (t.start + Trivia.width t.token.leading) t.token.text.utf8ByteSize

/-- The span of the token with its trivia. -/
def fullSpan (t : PlacedToken) : Span := .ofLength t.start t.token.width

end PlacedToken

/-- A part of a node in place. -/
inductive Element where
  | node (n : Node)
  | token (t : PlacedToken)
  deriving Repr

namespace Element

def node? : Element → Option Node
  | .node n => some n
  | .token _ => none

def token? : Element → Option PlacedToken
  | .node _ => none
  | .token t => some t

end Element

namespace Node

/-- The tree below, and with, this node. -/
def tree (n : Node) : Tree := .node n.kind n.parts

def width (n : Node) : Nat := Tree.widthAll n.parts

/-- The span with the trivia around the node. -/
def fullSpan (n : Node) : Span := .ofLength n.start n.width

/-- The span without the trivia around the node. A node without tokens has an empty one. -/
def span (n : Node) : Span :=
  match Tree.firstTokenOf? n.parts, Tree.lastTokenOf? n.parts with
  | some first, some last =>
    ⟨n.start + Trivia.width first.leading, n.start + n.width - Trivia.width last.trailing⟩
  | _, _ => .ofLength n.start 0

/-- The parts in place, the first of them at `start` and the `i`-th below `path`. -/
def place (path : List Nat) (start i : Nat) : List Tree → List Element
  | [] => []
  | .node kind parts :: ts =>
    .node ⟨kind, parts, start, path ++ [i]⟩ ::
      place path (start + Tree.widthAll parts) (i + 1) ts
  | .leaf t :: ts => .token ⟨t, start⟩ :: place path (start + t.width) (i + 1) ts

/-- The parts of a node, in order. -/
def elements (n : Node) : List Element := place n.path n.start 0 n.parts

/-- The nodes among the parts. -/
def childNodes (n : Node) : List Node := n.elements.filterMap Element.node?

/-- The tokens among the parts. -/
def childTokens (n : Node) : List PlacedToken := n.elements.filterMap Element.token?

/-- The first child node of a kind. -/
def childOfKind? (n : Node) (kind : NodeKind) : Option Node :=
  n.childNodes.find? fun c => c.kind == kind

/-- All child nodes of a kind. -/
def childrenOfKind (n : Node) (kind : NodeKind) : List Node :=
  n.childNodes.filter fun c => c.kind == kind

/-- The first child node with a kind of a class. -/
def findChild? (n : Node) (p : NodeKind → Bool) : Option Node :=
  n.childNodes.find? fun c => p c.kind

/-- The first token among the parts with a given text. -/
def token? (n : Node) (text : String) : Option PlacedToken :=
  n.childTokens.find? fun t => t.text == text

def hasToken (n : Node) (text : String) : Bool := (n.token? text).isSome

/-- The first identifier among the parts. -/
def identifier? (n : Node) : Option PlacedToken :=
  n.childTokens.find? fun t => t.token.kind == .identifier

/-- The first token of the node, at any depth. -/
def firstToken? (n : Node) : Option PlacedToken :=
  (Tree.firstTokenOf? n.parts).map fun t => ⟨t, n.start⟩

/-- The last token of the node, at any depth. -/
def lastToken? (n : Node) : Option PlacedToken :=
  (Tree.lastTokenOf? n.parts).map fun t => ⟨t, n.start + n.width - t.width⟩

def leading (n : Node) : List Trivia := n.tree.leading

def trailing (n : Node) : List Trivia := n.tree.trailing

/-- The text without the trivia around the node. -/
def text (n : Node) : String := n.tree.text

/-- The text with the trivia around the node. -/
def fullText (n : Node) : String := n.tree.render

/- A node and all nodes below it, each before those below it. -/
mutual

/-- The inner nodes of a tree at a place, each before those below it. -/
def nodesOf (path : List Nat) (start : Nat) : Tree → List Node
  | .node kind parts => ⟨kind, parts, start, path⟩ :: nodesOfAll path start 0 parts
  | .leaf _ => []

/-- The inner nodes of a list of parts. -/
def nodesOfAll (path : List Nat) (start i : Nat) : List Tree → List Node
  | [] => []
  | t :: ts => nodesOf (path ++ [i]) start t ++ nodesOfAll path (start + t.width) (i + 1) ts

end

/-- The node and all nodes below it, each before those below it. -/
def descendants (n : Node) : List Node := nodesOf n.path n.start n.tree

/- Looking for a node by its span. -/
mutual

/-- Follows, from a tree, the parts around a span down to a node with that span. -/
def findIn (range : Span) (p : Node → Bool) (path : List Nat) (start : Nat) : Tree → Option Node
  | .node kind parts =>
    let n : Node := ⟨kind, parts, start, path⟩
    if n.span == range && p n then some n else findAmong range p path start 0 parts
  | .leaf _ => none

/-- Looks into the first part that is a node, not empty, and around the span. -/
def findAmong (range : Span) (p : Node → Bool) (path : List Nat) (start i : Nat) :
    List Tree → Option Node
  | [] => none
  | .leaf t :: ts => findAmong range p path (start + t.width) (i + 1) ts
  | .node kind parts :: ts =>
    let full := Span.ofLength start (Tree.widthAll parts)
    if full.contains range && !full.isEmpty then
      findIn range p (path ++ [i]) start (.node kind parts)
    else findAmong range p path full.stop (i + 1) ts

end

/-- The outermost node with a given span and property. -/
def findNode? (n : Node) (range : Span) (p : Node → Bool) : Option Node :=
  findIn range p n.path n.start n.tree

@[simp] theorem tree_mk (kind : NodeKind) (parts : List Tree) (start : Nat) (path : List Nat) :
    (Node.mk kind parts start path).tree = .node kind parts := rfl

/-- The number of nodes at and below this one. -/
def size (n : Node) : Nat := n.tree.nodeCount

theorem size_eq (n : Node) : n.size = Tree.nodeCountAll n.parts + 1 := by
  simp [size, tree, Tree.nodeCount]

theorem nodeCount_le_of_mem_place {path : List Nat} {start i : Nat} {parts : List Tree} {c : Node}
    (h : .node c ∈ place path start i parts) : c.size ≤ Tree.nodeCountAll parts := by
  induction parts generalizing start i with
  | nil => simp [place] at h
  | cons t ts ih =>
    cases t with
    | node kind inner =>
      simp only [place, List.mem_cons, Element.node.injEq] at h
      rcases h with rfl | h
      · simp [size, Tree.nodeCountAll]
      · have := ih h
        simp only [Tree.nodeCountAll]
        omega
    | leaf token =>
      simp only [place, List.mem_cons, reduceCtorEq, false_or] at h
      have := ih h
      simp only [Tree.nodeCountAll]
      omega

/-- A child node is smaller. -/
theorem size_lt_of_mem_childNodes {n c : Node} (h : c ∈ n.childNodes) : c.size < n.size := by
  simp only [childNodes, List.mem_filterMap] at h
  obtain ⟨e, he, hc⟩ := h
  cases e with
  | node m =>
    simp only [Element.node?, Option.some.injEq] at hc
    subst hc
    have := nodeCount_le_of_mem_place he
    rw [size_eq n]
    omega
  | token t => simp [Element.node?] at hc

theorem total_size_place (path : List Nat) (start i : Nat) (parts : List Tree) :
    total size ((place path start i parts).filterMap Element.node?) =
      Tree.nodeCountAll parts := by
  induction parts generalizing start i with
  | nil => simp [place, Tree.nodeCountAll]
  | cons t ts ih =>
    cases t with
    | node kind inner => simp [place, Element.node?, Tree.nodeCountAll, ih, size]
    | leaf token =>
      rw [place, List.filterMap_cons_none rfl, ih]
      simp [Tree.nodeCountAll, Tree.nodeCount]

/-- The child nodes together are smaller by one. -/
theorem total_size_childNodes (n : Node) : total size n.childNodes + 1 = n.size := by
  rw [size_eq, childNodes, elements, total_size_place]

end Node

end PluginLint
