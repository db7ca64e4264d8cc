import PluginLint.Syntax.Kind
import PluginLint.Text.Total

/-!
# Tokens and the trivia around them

Every character of a file belongs to exactly one token or one piece of trivia, so writing tokens
out one after the other gives the file back. Widths are counted in bytes of UTF-8.
-/
namespace PluginLint

/-- A piece of text that is not part of any token. -/
structure Trivia where
  kind : TriviaKind
  text : String
  deriving DecidableEq, Repr, Inhabited

namespace Trivia

/-- A single blank. -/
def space : Trivia := ⟨.whitespace, " "⟩

def isComment (t : Trivia) : Bool := t.kind.isComment

/-- The text of a run of trivia. -/
def render (ts : List Trivia) : String :=
  ts.foldr (fun t rest => t.text ++ rest) ""

/-- The width of a run of trivia. -/
def width (ts : List Trivia) : Nat :=
  total (fun t => t.text.utf8ByteSize) ts

@[simp] theorem render_nil : render [] = "" := rfl

@[simp] theorem render_cons (t : Trivia) (ts : List Trivia) :
    render (t :: ts) = t.text ++ render ts := rfl

@[simp] theorem width_nil : width [] = 0 := rfl

@[simp] theorem width_cons (t : Trivia) (ts : List Trivia) :
    width (t :: ts) = t.text.utf8ByteSize + width ts := rfl

theorem utf8ByteSize_render (ts : List Trivia) : (render ts).utf8ByteSize = width ts := by
  induction ts with
  | nil => rfl
  | cons t ts ih => simp [ih]

end Trivia

/-- A token with the trivia attached to it. Trailing trivia ends with the first line break. -/
structure Token where
  kind : TokenKind
  text : String
  leading : List Trivia := []
  trailing : List Trivia := []
  deriving DecidableEq, Repr, Inhabited

namespace Token

/-- The token with everything around it. -/
def render (t : Token) : String :=
  Trivia.render t.leading ++ t.text ++ Trivia.render t.trailing

/-- The width of the token with everything around it. -/
def width (t : Token) : Nat :=
  Trivia.width t.leading + t.text.utf8ByteSize + Trivia.width t.trailing

theorem utf8ByteSize_render (t : Token) : t.render.utf8ByteSize = t.width := by
  simp [render, width, Trivia.utf8ByteSize_render]

def isEnd (t : Token) : Bool := t.kind == .endOfFile

/-- The token that closes every file; it carries the file's last trivia. -/
def endOfFile (leading : List Trivia) : Token := ⟨.endOfFile, "", leading, []⟩

/-- An identifier read as a keyword; other tokens stay as they are. -/
def asKeyword (t : Token) : Token :=
  if t.kind = .identifier then { t with kind := .keyword } else t

@[simp] theorem asKeyword_text (t : Token) : t.asKeyword.text = t.text := by
  unfold asKeyword; split <;> rfl

@[simp] theorem asKeyword_leading (t : Token) : t.asKeyword.leading = t.leading := by
  unfold asKeyword; split <;> rfl

@[simp] theorem asKeyword_trailing (t : Token) : t.asKeyword.trailing = t.trailing := by
  unfold asKeyword; split <;> rfl

/-- The text of a run of tokens. -/
def renderAll (ts : List Token) : String :=
  ts.foldl (fun text t => text ++ t.render) ""

private theorem foldl_render (text : String) (ts : List Token) :
    ts.foldl (fun text t => text ++ t.render) text = text ++ renderAll ts := by
  induction ts generalizing text with
  | nil => simp [renderAll]
  | cons t ts ih => simp [renderAll, ih (text ++ t.render), ih t.render, String.append_assoc]

@[simp] theorem renderAll_nil : renderAll [] = "" := rfl

@[simp] theorem renderAll_cons (t : Token) (ts : List Token) :
    renderAll (t :: ts) = t.render ++ renderAll ts := by
  rw [renderAll, List.foldl_cons, foldl_render]
  simp

end Token

end PluginLint
