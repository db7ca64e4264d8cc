import PluginLint.Syntax.Token

/-!
# Syntax trees without positions

A tree knows its kinds and its tokens, but not where it stands in a file. Its text is that of its
tokens in order, trivia included.
-/
namespace PluginLint

/-- A syntax tree: an inner node over its parts, or a token. -/
inductive Tree where
  | node (kind : NodeKind) (parts : List Tree)
  | leaf (token : Token)
  deriving Repr, Inhabited

namespace Tree

def isNode : Tree → Bool
  | .node _ _ => true
  | .leaf _ => false

/- The tokens of a tree, in order. -/
mutual

/-- The tokens of a tree, in order. -/
def tokens : Tree → List Token
  | .node _ parts => tokensAll parts
  | .leaf t => [t]

/-- The tokens of a list of trees, in order. -/
def tokensAll : List Tree → List Token
  | [] => []
  | t :: ts => tokens t ++ tokensAll ts

end

/-- The text of a tree, trivia included. -/
def render (t : Tree) : String := Token.renderAll t.tokens

/-- The text of a list of trees. -/
def renderAll (ts : List Tree) : String := Token.renderAll (tokensAll ts)

/- The width of a tree in bytes, trivia included. -/
mutual

/-- The width of a tree in bytes, trivia included. -/
def width : Tree → Nat
  | .node _ parts => widthAll parts
  | .leaf t => t.width

/-- The width of a list of trees. -/
def widthAll : List Tree → Nat
  | [] => 0
  | t :: ts => width t + widthAll ts

end

/- The number of inner nodes. -/
mutual

/-- The number of inner nodes of a tree. -/
def nodeCount : Tree → Nat
  | .node _ parts => nodeCountAll parts + 1
  | .leaf _ => 0

/-- The number of inner nodes of a list of trees. -/
def nodeCountAll : List Tree → Nat
  | [] => 0
  | t :: ts => nodeCount t + nodeCountAll ts

end

/- The first token of a tree. -/
mutual

/-- The first token of a tree; a node may have none. -/
def firstToken? : Tree → Option Token
  | .node _ parts => firstTokenOf? parts
  | .leaf t => some t

/-- The first token of a list of trees. -/
def firstTokenOf? : List Tree → Option Token
  | [] => none
  | t :: ts => (firstToken? t).or (firstTokenOf? ts)

end

/- The last token of a tree. -/
mutual

/-- The last token of a tree; a node may have none. -/
def lastToken? : Tree → Option Token
  | .node _ parts => lastTokenOf? parts
  | .leaf t => some t

/-- The last token of a list of trees. -/
def lastTokenOf? : List Tree → Option Token
  | [] => none
  | t :: ts => (lastTokenOf? ts).or (lastToken? t)

end

/- Changing the first token. -/
mutual

/-- The tree with `f` applied to its first token. -/
def mapFirst (f : Token → Token) : Tree → Tree
  | .node kind parts => .node kind (mapFirstOf f parts)
  | .leaf t => .leaf (f t)

/-- The list with `f` applied to its first token. -/
def mapFirstOf (f : Token → Token) : List Tree → List Tree
  | [] => []
  | t :: ts =>
    if (firstToken? t).isSome then mapFirst f t :: ts else t :: mapFirstOf f ts

end

/- Changing the last token. -/
mutual

/-- The tree with `f` applied to its last token. -/
def mapLast (f : Token → Token) : Tree → Tree
  | .node kind parts => .node kind (mapLastOf f parts)
  | .leaf t => .leaf (f t)

/-- The list with `f` applied to its last token. -/
def mapLastOf (f : Token → Token) : List Tree → List Tree
  | [] => []
  | t :: ts =>
    if (lastTokenOf? ts).isSome then t :: mapLastOf f ts
    else if (lastToken? t).isSome then mapLast f t :: ts
    else t :: ts

end

/-- The tree with other trivia before its first and after its last token. -/
def withOuterTrivia (leading trailing : List Trivia) (t : Tree) : Tree :=
  (t.mapFirst fun k => { k with leading }).mapLast fun k => { k with trailing }

/-- The tree without the trivia before its first and after its last token. -/
def withoutOuterTrivia (t : Tree) : Tree := t.withOuterTrivia [] []

/-- The trivia before the first token. -/
def leading (t : Tree) : List Trivia := (t.firstToken?.map Token.leading).getD []

/-- The trivia after the last token. -/
def trailing (t : Tree) : List Trivia := (t.lastToken?.map Token.trailing).getD []

/-- The text of a tree without the trivia around it. -/
def text (t : Tree) : String := t.withoutOuterTrivia.render

@[simp] theorem tokens_node (kind : NodeKind) (parts : List Tree) :
    (node kind parts).tokens = tokensAll parts := by rw [tokens]

@[simp] theorem tokens_leaf (t : Token) : (leaf t).tokens = [t] := by rw [tokens]

@[simp] theorem tokensAll_nil : tokensAll [] = [] := by rw [tokensAll]

@[simp] theorem tokensAll_cons (t : Tree) (ts : List Tree) :
    tokensAll (t :: ts) = t.tokens ++ tokensAll ts := by rw [tokensAll]

@[simp] theorem tokensAll_append (ts us : List Tree) :
    tokensAll (ts ++ us) = tokensAll ts ++ tokensAll us := by
  induction ts with
  | nil => simp
  | cons t ts ih => simp [ih]

@[simp] theorem width_node (kind : NodeKind) (parts : List Tree) :
    (node kind parts).width = widthAll parts := by rw [width]

@[simp] theorem width_leaf (t : Token) : (leaf t).width = t.width := by rw [width]

@[simp] theorem widthAll_nil : widthAll [] = 0 := by rw [widthAll]

@[simp] theorem widthAll_cons (t : Tree) (ts : List Tree) :
    widthAll (t :: ts) = t.width + widthAll ts := by rw [widthAll]

@[simp] theorem widthAll_append (ts us : List Tree) :
    widthAll (ts ++ us) = widthAll ts + widthAll us := by
  induction ts with
  | nil => simp
  | cons t ts ih => simp [ih, Nat.add_assoc]

end Tree

end PluginLint
