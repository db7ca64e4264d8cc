import PluginLint.Docs.Markup
import PluginLint.Syntax.Node

/-!
# Documentation comments

A comment is a forest of named blocks. An end tag closes the innermost block of its name and all
blocks inside that one; what is open at the end is closed there.
-/
namespace PluginLint.Docs

/-- One element of a documentation comment. -/
structure Block where
  name : String
  attributes : List (String × String) := []
  /-- The text directly inside, not in a block inside. -/
  text : String := ""
  children : List Block := []
  /-- Written as `<name/>`. -/
  isEmptyTag : Bool := false
  deriving Repr, Inhabited

namespace Block

def attribute? (b : Block) (name : String) : Option String :=
  (b.attributes.find? fun (key, _) => key == name).map Prod.snd

/- A block and all blocks inside it, each before those inside it. -/
mutual

/-- A block and all blocks inside it, each before those inside it. -/
def descendants : Block → List Block
  | ⟨name, attributes, text, children, isEmptyTag⟩ =>
    ⟨name, attributes, text, children, isEmptyTag⟩ :: descendantsAll children

/-- All blocks of a forest. -/
def descendantsAll : List Block → List Block
  | [] => []
  | b :: bs => descendants b ++ descendantsAll bs

end

end Block

/-- Blocks still open, innermost first, and the blocks closed at the top. -/
structure Forest where
  opened : List Block := []
  roots : List Block := []

namespace Forest

/-- Adds a finished block to the innermost open one. -/
def attach (f : Forest) (b : Block) : Forest :=
  match f.opened with
  | [] => { f with roots := f.roots ++ [b] }
  | top :: rest => { f with opened := { top with children := top.children ++ [b] } :: rest }

/-- Closes the innermost `n` open blocks. -/
def close : Nat → Forest → Forest
  | 0, f => f
  | n + 1, f =>
    match f.opened with
    | [] => f
    | top :: rest => close n (attach { f with opened := rest } top)

/-- Text outside all blocks is dropped. -/
def addText (f : Forest) (s : String) : Forest :=
  match f.opened with
  | [] => f
  | top :: rest => { f with opened := { top with text := top.text ++ s } :: rest }

def add (f : Forest) : Mark → Forest
  | .text s => f.addText s
  | .startTag name attributes true => f.attach { name, attributes, isEmptyTag := true }
  | .startTag name attributes false => { f with opened := { name, attributes } :: f.opened }
  | .endTag name =>
    match f.opened.findIdx? fun b => b.name == name with
    | some i => f.close (i + 1)
    | none => f

end Forest

/-- The blocks of documentation text. -/
def parseText (s : String) : List Block :=
  let f := (marks s).foldl Forest.add {}
  (f.close f.opened.length).roots

/-- The documentation of a node. -/
structure Comment where
  blocks : List Block
  deriving Repr

namespace Comment

/-- The text of a documentation line without the mark in front. -/
def lineText (s : String) : String :=
  match Text.dropStart? "///".toList s.toList with
  | some rest => String.ofList rest
  | none => s

/-- Groups of documentation lines; any other comment or directive between them starts a new one. -/
def groups : List Trivia → List (List String)
  | [] => [[]]
  | t :: ts =>
    let rest := groups ts
    match t.kind with
    | .docComment => (lineText t.text :: rest.headD []) :: rest.tail
    | .whitespace | .endOfLine => rest
    | _ => [] :: rest

/-- The documentation in a run of trivia. -/
def ofTrivia (ts : List Trivia) : Comment :=
  ⟨((groups ts).filter fun lines => !lines.isEmpty).flatMap fun lines =>
    parseText (Text.join "\n" lines)⟩

/-- The documentation in front of a node. -/
def ofNode (n : Node) : Comment := ofTrivia n.leading

def isEmpty (c : Comment) : Bool := c.blocks.isEmpty

/-- All blocks, each before those inside it. -/
def descendants (c : Comment) : List Block := Block.descendantsAll c.blocks

/-- Some block is an empty `inheritdoc` tag. -/
def hasInheritTag (c : Comment) : Bool :=
  c.descendants.any fun b => b.name == "inheritdoc" && b.isEmptyTag

/-- Some summary has text that is not blank. -/
def hasSummary (c : Comment) : Bool :=
  c.descendants.any fun b => b.name == "summary" && !(Text.trim b.text).isEmpty

def isDocumented (c : Comment) : Bool := c.hasInheritTag || c.hasSummary

end Comment

end PluginLint.Docs
