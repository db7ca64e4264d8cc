import PluginLint.Syntax.File
import PluginLint.Syntax.Lexer

/-!
# Building a tree from tokens

A parser moves tokens, one after the other, from the front of what is ahead to the end of the parts
of the node that is open, and gathers parts into nodes. It has no other way to touch a token: none
can be lost, repeated or moved past another.

A parse as a whole has no way to fail, so all that can go wrong is a panic: a loop without end, a
count of brackets below zero, a token behind the last one, the end of the file among the tokens that
are placed, or a phrase that is given up in its middle, by which its tokens would be lost. A loop
whose steps are counted panics when the count is used up.
-/
namespace PluginLint.Grammar

/-- A parse in progress. -/
structure Builder where
  /-- The tokens not yet placed; the end of the file is never placed. -/
  ahead : List Token
  /-- The offset of the next token, trivia included. -/
  offset : Nat := 0
  /-- The problems met so far, newest first. -/
  errors : List ParseError := []
  /-- The parts of the node that is open. -/
  parts : Array Tree := #[]

/-- A step of a parse. -/
abbrev Parse := StateT Builder (Except Panic)

/-! ### Looking at tokens -/

/-- The `n`-th token; past the last one, the end of the file. -/
def nth (ts : List Token) (n : Nat) : Token := ts.getD n (Token.endOfFile [])

def textAt (ts : List Token) (n : Nat) : String := (nth ts n).text

def kindAt (ts : List Token) (n : Nat) : TokenKind := (nth ts n).kind

/-- The next token has this text. -/
def startsText (ts : List Token) (text : String) : Bool := textAt ts 0 == text

def startsIdentifier (ts : List Token) : Bool := kindAt ts 0 == .identifier

/-- The next token is a word that is reserved only in some places. -/
def startsWord (ts : List Token) (word : String) : Bool :=
  startsIdentifier ts && startsText ts word

def startsEnd (ts : List Token) : Bool := (nth ts 0).isEnd

/-- The `n`-th token and the one after it touch. -/
def joined (ts : List Token) (n : Nat) : Bool :=
  (nth ts n).trailing.isEmpty && (nth ts (n + 1)).leading.isEmpty

/-- The tokens ahead. -/
def ahead : Parse (List Token) := return (← get).ahead

/-- The tokens ahead, of which at least one has to be there. -/
def upcoming : Parse (List Token) := do
  let ts ← ahead
  if ts.isEmpty then throw .pastEnd
  return ts

/-- A value, or the panic to which its computation came. -/
def orPanic (x : Except Panic α) : Parse α := fun b => x.map fun a => (a, b)

/-- A look at the tokens ahead. -/
def look (f : List Token → Except Panic α) : Parse α := do orPanic (f (← ahead))

def atText (text : String) : Parse Bool := return startsText (← ahead) text

def atIdentifier : Parse Bool := return startsIdentifier (← ahead)

def atWord (word : String) : Parse Bool := return startsWord (← ahead) word

def atEnd : Parse Bool := return startsEnd (← ahead)

/-- No part has been placed in the open node. -/
def isBlankNode : Parse Bool := return (← get).parts.isEmpty

/-! ### Placing tokens -/

/-- Places the next token, changed by `f`, in the open node. The end of the file stands in no node but
the root, so whoever places a token has to have seen that it is another one. -/
def place (f : Token → Token) : Parse Unit := fun b =>
  match b.ahead with
  | [] => .error .pastEnd
  | t :: rest =>
    if t.isEnd then .error .pastEnd
    else .ok ((), { b with
      ahead := rest, offset := b.offset + t.width, parts := b.parts.push (.leaf (f t)) })

/-- Places the next token. -/
def bump : Parse Unit := place id

/-- Places the next token as a keyword, so that an identifier among the parts of a declaration is
the name that it declares. -/
def bumpKeyword : Parse Unit := place Token.asKeyword

/-- Places `n` tokens. -/
def bumpMany : Nat → Parse Unit
  | 0 => pure ()
  | n + 1 => do bump; bumpMany n

/-- Places tokens as keywords up to the one `n` places ahead. Behind the end of the file there is
none, and no step leads there. -/
def bumpKeywords : Nat → Parse Unit
  | 0 => pure ()
  | n + 1 => do
    if ← atEnd then throw .endless
    bumpKeyword
    bumpKeywords n

/-! ### Problems -/

/-- Notes a problem at the next token's text. Of several problems at one offset the first stays. -/
def report (message : String) : Parse Unit := fun b =>
  match b.ahead with
  | [] => .error .pastEnd
  | t :: _ =>
    let offset := b.offset + Trivia.width t.leading
    match b.errors with
    | e :: _ =>
      if e.offset == offset then .ok ((), b)
      else .ok ((), { b with errors := ⟨offset, message⟩ :: b.errors })
    | [] => .ok ((), { b with errors := [⟨offset, message⟩] })

/-- Places the next token if it has this text. -/
def eat (text : String) : Parse Bool := do
  if (← atText text) && !(← atEnd) then
    bump
    return true
  return false

/-- Places the next token, which should have this text, or notes that it is missing. -/
def expect (text : String) : Parse Bool := do
  if ← eat text then return true
  report ("expected `" ++ text ++ "`")
  return false

def expectIdentifier : Parse Bool := do
  if ← atIdentifier then
    bump
    return true
  report "expected identifier"
  return false

/-- Runs a parse, or notes a problem if there was nothing for it. -/
def orReport (p : Parse Bool) (message : String) : Parse Bool := do
  if ← p then return true
  report message
  return false

/-- Runs a parse for which the tokens have been looked at. If there is nothing for it all the same,
the phrase around it is given up. -/
def orGiveUp (p : Parse Bool) : Parse Unit := do
  if ← p then return
  throw .givenUp

/-! ### Nodes -/

/-- Runs `p` on a fresh open node and gives what it placed there to `close`. -/
def gather (p : Parse α) (close : α → Array Tree → Array Tree → Array Tree) : Parse α := fun b =>
  (p { b with parts := #[] }).map fun (a, b') => (a, { b' with parts := close a b.parts b'.parts })

/-- What `p` places becomes a node of the kind that it returns. -/
def nodeOf (p : Parse NodeKind) : Parse Unit := do
  let _ ← gather p fun kind outer inner => outer.push (.node kind inner.toList)

/-- What `p` places becomes a node. -/
def node (kind : NodeKind) (p : Parse α) : Parse α :=
  gather p fun _ outer inner => outer.push (.node kind inner.toList)

/-- What `p` places becomes a node if `p` says so, and otherwise parts of the open node. -/
def nodeWhen (kind : NodeKind) (p : Parse Bool) : Parse Bool :=
  gather p fun ok outer inner => if ok then outer.push (.node kind inner.toList) else outer ++ inner

/-- What `p` places becomes a node, if it places anything. -/
def nodeUnlessBlank (kind : NodeKind) (p : Parse Unit) : Parse Bool :=
  nodeWhen kind do
    p
    return !(← isBlankNode)

/-- The last part placed becomes the first part of a node, and what `p` places the others. -/
def wrapLast (kind : NodeKind) (p : Parse α) : Parse α := fun b =>
  (p { b with parts := (b.parts.back?.map (#[·])).getD #[] }).map fun (a, b') =>
    (a, { b' with parts := b.parts.pop.push (.node kind b'.parts.toList) })

/-- All parts placed so far become one node. -/
def wrapAll (kind : NodeKind) : Parse Unit := modify fun b =>
  { b with parts := #[.node kind b.parts.toList] }

/-- Notes a problem and sets the next token aside, so that a loop always moves on. -/
def skipToken (message : String) : Parse Unit := do
  report message
  if !(← atEnd) then node .error bump

/-! ### Loops -/

/-- Runs a step until it says stop, which has to be less than `n` steps away. -/
def repeatUpTo : Nat → Parse Bool → Parse Unit
  | 0, _ => throw .endless
  | n + 1, step => do
    if ← step then repeatUpTo n step

/-- Places tokens as long as they have this text. -/
def bumpWhile (n : Nat) (text : String) : Parse Unit := repeatUpTo n (eat text)

/-- Items with commas between them. -/
def commaSeparated (n : Nat) (item : Parse Bool) : Parse Unit :=
  repeatUpTo n do
    if ← item then eat "," else return false

/-! ### Phrases -/

/-- The phrases of the grammar that contain one another. -/
inductive Phrase where
  | type
  | expression
  | unary
  /-- An expression whose operators bind at least as tightly as `least`. -/
  | binary (least : Nat)
  | initializer
  | statement
  | block
  | member
  | namespaceBody (braced : Bool)
  deriving DecidableEq, Repr

/-- How the phrases inside a phrase are parsed. -/
abbrev Phrases := Phrase → Parse Bool

def expectType (p : Parse Bool) : Parse Bool := orReport p "expected type"

def expectExpression (g : Phrases) : Parse Bool := orReport (g .expression) "expected expression"

end PluginLint.Grammar
