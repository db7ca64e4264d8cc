import PluginLint.Grammar.Members
import PluginLint.Syntax.Lexer

/-!
# Parsing a file

A parse refuses no tokens: what cannot be placed is set aside in error nodes, and problems are noted.
The tree always gives the text of the file back.
-/
namespace PluginLint.Grammar

/-! ### Namespaces -/

def startsUsingDirective (n : Nat) (ts : List Token) : Except Panic Bool := do
  let head := if startsWord ts "global" && textAt ts 1 == "using" then ts.drop 1 else ts
  if !startsText head "using" then return false
  if textAt head 1 == "static" then return true
  if kindAt head 1 != .identifier then return false
  if textAt head 2 == "=" then return true
  let some rest ← skipType n (head.drop 1) | return false
  return startsText rest ";"

def usingDirective (n : Nat) (g : Phrases) : Parse Unit :=
  node .usingDirective do
    if ← atWord "global" then bumpKeyword
    bump
    discard (eat "static")
    let ts ← ahead
    if startsIdentifier ts && textAt ts 1 == "=" then
      bump
      bump
    discard (expectType (fullType n g))
    discard (expect ";")

def namespaceDeclaration (n : Nat) (g : Phrases) : Parse Unit :=
  nodeOf do
    bump
    discard (orReport (dottedName n g) "expected namespace name")
    if ← eat ";" then
      discard (g (.namespaceBody false))
      return .fileScopedNamespaceDeclaration
    if ← expect "\x7b" then
      discard (g (.namespaceBody true))
      discard (expect "\x7d")
    return .namespaceDeclaration

/-- Attributes of the whole assembly. -/
def startsGlobalAttribute (ts : List Token) : Bool :=
  startsText ts "[" && ["assembly", "module"].contains (textAt ts 1) && textAt ts 2 == ":"

/-- What a file or a namespace holds. -/
def namespaceBody (n : Nat) (g : Phrases) (braced : Bool) : Parse Unit :=
  repeatUpTo n do
    let ts ← ahead
    if startsEnd ts || (braced && startsText ts "\x7d") then return false
    if ← look (startsUsingDirective n) then usingDirective n g
    else if startsText ts "namespace" then namespaceDeclaration n g
    else if startsGlobalAttribute ts then attributeList n
    else if ← look (startsTypeDeclaration n) then member n g
    else if !(← statement n g) then skipToken "expected declaration"
    return true

/-! ### Tying the phrases together -/

/-- A phrase, given how the phrases inside it are parsed. -/
def phrase (n : Nat) (g : Phrases) : Phrases
  | .type => fullType n g
  | .expression => expression n g
  | .unary => unary n g
  | .binary least => binary n g least
  | .initializer => do initializer n g; return true
  | .statement => statement n g
  | .block => do block n g; return true
  | .member => do member n g; return true
  | .namespaceBody braced => do namespaceBody n g braced; return true

/-- All phrases, nested less than `n` deep. A phrase is entered only after a token of the phrase
around it has been placed, so any number larger than that of the tokens will do. -/
def phrases : Nat → Phrases
  | 0, _ => throw .endless
  | n + 1, p => phrase (n + 1) (phrases n) p

/-- Places what a file holds. What is ahead afterwards begins with the token at which that stops. -/
def parseTokens (tokens : List Token) : Except Panic Builder :=
  (phrases (tokens.length + 1) (.namespaceBody false) { ahead := tokens }).map Prod.snd

end PluginLint.Grammar

namespace PluginLint

/-- The tree of a file, from its tokens: what the file holds, and the one token behind that. -/
def SourceFile.ofTokens (path : String) (tokens : List Token) : Except Panic SourceFile := do
  let b ← Grammar.parseTokens tokens
  let some last := b.ahead.head? | throw .pastEnd
  return {
    path
    kind := .compilationUnit
    parts := b.parts.toList ++ [.leaf last]
    errors := b.errors.reverse }

/-- Parses a file. -/
def SourceFile.parse (path source : String) : Except Panic SourceFile := do
  SourceFile.ofTokens path (← Lexer.tokenize source)

theorem SourceFile.parse_ofList (path : String) (s : List Char) :
    parse path (String.ofList s) =
      (Lexer.tokensFrom (s.length + 1) ⟨[], s⟩).bind (ofTokens path) := by
  rw [parse, Lexer.tokenize_ofList]
  rfl

/-- A text whose file passes a test is read without a failure. -/
theorem SourceFile.exists_of_parse_any {path source : String} {p : SourceFile → Bool}
    (h : (parse path source).toOption.any p = true) : ∃ f, parse path source = .ok f ∧ p f = true := by
  obtain ⟨f, hf, hp⟩ := (Option.any_eq_true _ _).1 h
  exact ⟨f, eq_ok_of_toOption hf, hp⟩

end PluginLint
