import PluginLint.Syntax.Node
import Mathlib.Data.List.Basic
import Mathlib.Data.List.ModifyLast

/-!
# Trees seen through their tokens

First and last tokens, widths, spans and the trivia around a tree depend only on its tokens in
order. The text of a tree with tokens is its outer trivia around its inner text, and the span of a
node is where that inner text stands.
-/
namespace PluginLint

theorem Text.byteLength_toList (s : String) : byteLength s.toList = s.utf8ByteSize := by
  have h : ∀ cs : List Char, (String.ofList cs).utf8ByteSize = byteLength cs := by
    intro cs
    induction cs with
    | nil => rfl
    | cons c cs ih => simp [String.ofList_cons, ih]
  rw [← h, String.ofList_toList]

namespace Token

@[simp] theorem renderAll_append (ts us : List Token) :
    renderAll (ts ++ us) = renderAll ts ++ renderAll us := by
  induction ts with
  | nil => simp
  | cons t ts ih => simp [ih, String.append_assoc]

/-- The width of a run of tokens. -/
def widthAll (ts : List Token) : Nat := total width ts

@[simp] theorem widthAll_nil : widthAll [] = 0 := rfl

@[simp] theorem widthAll_cons (t : Token) (ts : List Token) :
    widthAll (t :: ts) = t.width + widthAll ts := rfl

@[simp] theorem widthAll_append (ts us : List Token) :
    widthAll (ts ++ us) = widthAll ts + widthAll us := by simp [widthAll]

theorem utf8ByteSize_renderAll (ts : List Token) :
    (renderAll ts).utf8ByteSize = widthAll ts := by
  induction ts with
  | nil => rfl
  | cons t ts ih => simp [ih, utf8ByteSize_render]

/-- The trivia in front of a run of tokens. -/
def frontTrivia (ts : List Token) : List Trivia := (ts.head?.map leading).getD []

/-- The trivia behind a run of tokens. -/
def backTrivia (ts : List Token) : List Trivia := (ts.getLast?.map trailing).getD []

/-- A run of tokens with other trivia around it. -/
def surround (front back : List Trivia) (ts : List Token) : List Token :=
  (ts.modifyHead fun t => { t with leading := front }).modifyLast fun t => { t with trailing := back }

/-- The text of a run of tokens without the trivia around it. -/
def innerText (ts : List Token) : String := renderAll (surround [] [] ts)

theorem surround_singleton (front back : List Trivia) (t : Token) :
    surround front back [t] = [{ t with leading := front, trailing := back }] := rfl

theorem surround_cons_append (front back : List Trivia) (first last : Token) (mid : List Token) :
    surround front back (first :: (mid ++ [last])) =
      { first with leading := front } :: (mid ++ [{ last with trailing := back }]) := by
  rw [surround, List.modifyHead_cons, ← List.cons_append, List.modifyLast_concat, List.cons_append]

/-- A run of tokens has one token, or a first and a last one. -/
theorem eq_singleton_or_ends {ts : List Token} (h : ts ≠ []) :
    (∃ t, ts = [t]) ∨ ∃ first mid last, ts = first :: (mid ++ [last]) := by
  obtain ⟨init, last, rfl⟩ := List.eq_nil_or_concat' ts |>.resolve_left h
  cases init with
  | nil => exact .inl ⟨last, rfl⟩
  | cons first mid => exact .inr ⟨first, mid, last, rfl⟩

section surround

variable {ts : List Token} (front back : List Trivia)

theorem surround_ne_nil (h : ts ≠ []) : surround front back ts ≠ [] := by
  obtain ⟨t, rfl⟩ | ⟨first, mid, last, rfl⟩ := eq_singleton_or_ends h
  · simp [surround_singleton]
  · simp [surround_cons_append]

theorem frontTrivia_surround (h : ts ≠ []) : frontTrivia (surround front back ts) = front := by
  obtain ⟨t, rfl⟩ | ⟨first, mid, last, rfl⟩ := eq_singleton_or_ends h
  · simp [surround_singleton, frontTrivia]
  · simp [surround_cons_append, frontTrivia]

theorem backTrivia_surround (h : ts ≠ []) : backTrivia (surround front back ts) = back := by
  obtain ⟨t, rfl⟩ | ⟨first, mid, last, rfl⟩ := eq_singleton_or_ends h
  · simp [surround_singleton, backTrivia]
  · rw [surround_cons_append, backTrivia, ← List.cons_append, List.getLast?_concat]
    rfl

theorem innerText_surround : innerText (surround front back ts) = innerText ts := by
  by_cases h : ts = []
  · rw [h]
    rfl
  · obtain ⟨t, rfl⟩ | ⟨first, mid, last, rfl⟩ := eq_singleton_or_ends h
    · simp [surround_singleton, innerText]
    · simp [surround_cons_append, innerText]

theorem map_text_surround : (surround front back ts).map text = ts.map text := by
  by_cases h : ts = []
  · rw [h]
    rfl
  · obtain ⟨t, rfl⟩ | ⟨first, mid, last, rfl⟩ := eq_singleton_or_ends h
    · simp [surround_singleton]
    · simp [surround_cons_append]

end surround

/-- The text of a run of tokens is its inner text with the trivia around it. -/
theorem renderAll_eq {ts : List Token} (h : ts ≠ []) :
    renderAll ts =
      Trivia.render (frontTrivia ts) ++ innerText ts ++ Trivia.render (backTrivia ts) := by
  obtain ⟨t, rfl⟩ | ⟨first, mid, last, rfl⟩ := eq_singleton_or_ends h
  · simp [surround_singleton, innerText, frontTrivia, backTrivia, render]
  · have hback : backTrivia (first :: (mid ++ [last])) = last.trailing := by
      rw [backTrivia, ← List.cons_append, List.getLast?_concat]
      rfl
    simp [surround_cons_append, innerText, frontTrivia, hback, render, String.append_assoc]

theorem widthAll_eq {ts : List Token} (h : ts ≠ []) :
    widthAll ts = Trivia.width (frontTrivia ts) + (innerText ts).utf8ByteSize +
      Trivia.width (backTrivia ts) := by
  rw [← utf8ByteSize_renderAll, renderAll_eq h]
  simp [Trivia.utf8ByteSize_render]

/-- Tokens with texts have an inner text. -/
theorem innerText_pos {ts : List Token} (h : ts ≠ []) (ht : ∀ t ∈ ts, t.text ≠ "") :
    0 < (innerText ts).utf8ByteSize := by
  obtain ⟨t, ts', hs⟩ := List.exists_cons_of_ne_nil (surround_ne_nil [] [] h)
  have htext : t.text ∈ ts.map text := by
    rw [← map_text_surround [] [], hs]
    simp
  obtain ⟨u, hu, hut⟩ := List.mem_map.1 htext
  have hpos : 0 < t.text.utf8ByteSize := by
    rw [← hut, Nat.pos_iff_ne_zero, ne_eq, String.utf8ByteSize_eq_zero_iff]
    exact ht u hu
  rw [innerText, hs, renderAll_cons, String.utf8ByteSize_append, utf8ByteSize_render, width]
  omega

theorem frontTrivia_append {ts us : List Token} (h : ts ≠ []) :
    frontTrivia (ts ++ us) = frontTrivia ts := by
  obtain ⟨t, ts, rfl⟩ := List.exists_cons_of_ne_nil h
  rfl

theorem backTrivia_append {ts us : List Token} (h : us ≠ []) :
    backTrivia (ts ++ us) = backTrivia us := by
  obtain ⟨init, last, rfl⟩ := List.eq_nil_or_concat' us |>.resolve_left h
  rw [backTrivia, backTrivia, ← List.append_assoc, List.getLast?_concat, List.getLast?_concat]

theorem frontTrivia_le (ts : List Token) : Trivia.width (frontTrivia ts) ≤ widthAll ts := by
  by_cases h : ts = []
  · simp [h, frontTrivia]
  · rw [widthAll_eq h]
    omega

theorem backTrivia_le (ts : List Token) : Trivia.width (backTrivia ts) ≤ widthAll ts := by
  by_cases h : ts = []
  · simp [h, backTrivia]
  · rw [widthAll_eq h]
    omega

/-- What stands in front of a run of tokens only moves its inner text back. -/
theorem frontTrivia_middle_le (pre post : List Token) {ts : List Token} (h : ts ≠ []) :
    Trivia.width (frontTrivia (pre ++ (ts ++ post))) ≤
      widthAll pre + Trivia.width (frontTrivia ts) := by
  by_cases hp : pre = []
  · rw [hp, List.nil_append, frontTrivia_append h]
    omega
  · rw [frontTrivia_append hp]
    have := frontTrivia_le pre
    omega

theorem backTrivia_middle_le (pre post : List Token) {ts : List Token} (h : ts ≠ []) :
    Trivia.width (backTrivia (pre ++ (ts ++ post))) ≤
      Trivia.width (backTrivia ts) + widthAll post := by
  rw [backTrivia_append (by simp [h])]
  by_cases hp : post = []
  · rw [hp, List.append_nil]
    omega
  · rw [backTrivia_append hp]
    have := backTrivia_le post
    omega

end Token

namespace Tree

/- First and last tokens. -/
mutual

theorem firstToken?_eq : ∀ t : Tree, t.firstToken? = t.tokens.head?
  | .node kind parts => by rw [firstToken?, firstTokenOf?_eq, tokens_node]
  | .leaf t => by simp [firstToken?]

theorem firstTokenOf?_eq : ∀ ts : List Tree, firstTokenOf? ts = (tokensAll ts).head?
  | [] => by simp [firstTokenOf?]
  | t :: ts => by
    rw [firstTokenOf?, firstToken?_eq t, firstTokenOf?_eq ts, tokensAll_cons, List.head?_append]

end

mutual

theorem lastToken?_eq : ∀ t : Tree, t.lastToken? = t.tokens.getLast?
  | .node kind parts => by rw [lastToken?, lastTokenOf?_eq, tokens_node]
  | .leaf t => by simp [lastToken?]

theorem lastTokenOf?_eq : ∀ ts : List Tree, lastTokenOf? ts = (tokensAll ts).getLast?
  | [] => by simp [lastTokenOf?]
  | t :: ts => by
    rw [lastTokenOf?, lastToken?_eq t, lastTokenOf?_eq ts, tokensAll_cons, List.getLast?_append]

end

mutual

theorem width_eq : ∀ t : Tree, t.width = Token.widthAll t.tokens
  | .node kind parts => by rw [width_node, widthAll_eq, tokens_node]
  | .leaf t => by simp

theorem widthAll_eq : ∀ ts : List Tree, widthAll ts = Token.widthAll (tokensAll ts)
  | [] => by simp
  | t :: ts => by
    rw [widthAll_cons, width_eq t, widthAll_eq ts, tokensAll_cons, Token.widthAll_append]

end

/- Changed first and last tokens. -/
mutual

theorem tokens_mapFirst (f : Token → Token) :
    ∀ t : Tree, (t.mapFirst f).tokens = t.tokens.modifyHead f
  | .node kind parts => by rw [mapFirst, tokens_node, tokens_node, tokensAll_mapFirstOf]
  | .leaf t => by simp [mapFirst]

theorem tokensAll_mapFirstOf (f : Token → Token) :
    ∀ ts : List Tree, tokensAll (mapFirstOf f ts) = (tokensAll ts).modifyHead f
  | [] => by simp [mapFirstOf]
  | t :: ts => by
    have ht := tokens_mapFirst f t
    have hts := tokensAll_mapFirstOf f ts
    rw [mapFirstOf, firstToken?_eq]
    cases h : t.tokens with
    | nil => simp [h, hts]
    | cons k ks => simp [h, ht]

end

mutual

theorem tokens_mapLast (f : Token → Token) :
    ∀ t : Tree, (t.mapLast f).tokens = t.tokens.modifyLast f
  | .node kind parts => by rw [mapLast, tokens_node, tokens_node, tokensAll_mapLastOf]
  | .leaf t => by
    rw [mapLast, tokens_leaf, tokens_leaf]
    rfl

theorem tokensAll_mapLastOf (f : Token → Token) :
    ∀ ts : List Tree, tokensAll (mapLastOf f ts) = (tokensAll ts).modifyLast f
  | [] => by
    rw [mapLastOf, tokensAll_nil]
    rfl
  | t :: ts => by
    have ht := tokens_mapLast f t
    have hts := tokensAll_mapLastOf f ts
    rw [mapLastOf, lastToken?_eq, lastTokenOf?_eq]
    by_cases hr : tokensAll ts = []
    · by_cases hl : t.tokens = []
      · simp [hr, hl, List.modifyLast, List.modifyLast.go]
      · simp [hr, hl, ht]
    · rw [if_pos (by simp [hr]), tokensAll_cons, tokensAll_cons, hts,
        List.modifyLast_append_of_right_ne_nil f _ _ hr]

end

theorem tokens_withOuterTrivia (front back : List Trivia) (t : Tree) :
    (t.withOuterTrivia front back).tokens = Token.surround front back t.tokens := by
  rw [withOuterTrivia, tokens_mapLast, tokens_mapFirst]
  rfl

theorem leading_eq (t : Tree) : t.leading = Token.frontTrivia t.tokens := by
  rw [leading, firstToken?_eq]
  rfl

theorem trailing_eq (t : Tree) : t.trailing = Token.backTrivia t.tokens := by
  rw [trailing, lastToken?_eq]
  rfl

theorem text_eq (t : Tree) : t.text = Token.innerText t.tokens := by
  rw [text, render, withoutOuterTrivia, tokens_withOuterTrivia]
  rfl

theorem tokens_ne_nil_of_text {t : Tree} (h : 0 < t.text.utf8ByteSize) : t.tokens ≠ [] := by
  intro hnil
  rw [text_eq, hnil] at h
  exact absurd h (by decide)

end Tree

namespace Node

variable {n : Node}

/-- The span of a node with tokens is where its text stands. -/
theorem span_eq (h : Tree.tokensAll n.parts ≠ []) :
    n.span = .ofLength (n.start + Trivia.width n.leading) n.text.utf8ByteSize := by
  obtain ⟨first, hfirst⟩ := Option.isSome_iff_exists.1 (List.isSome_head?.2 h)
  obtain ⟨init, last, hinit⟩ := List.eq_nil_or_concat' (Tree.tokensAll n.parts) |>.resolve_left h
  have hlast : (Tree.tokensAll n.parts).getLast? = some last := by rw [hinit, List.getLast?_concat]
  have hleading : n.leading = first.leading := by
    rw [leading, Tree.leading_eq, tree, Tree.tokens_node, Token.frontTrivia, hfirst]
    rfl
  have htrailing : Token.backTrivia (Tree.tokensAll n.parts) = last.trailing := by
    rw [Token.backTrivia, hlast]
    rfl
  have hwidth := Token.widthAll_eq h
  rw [htrailing] at hwidth
  have hfront : Trivia.width (Token.frontTrivia (Tree.tokensAll n.parts)) =
      Trivia.width first.leading := by rw [Token.frontTrivia, hfirst]; rfl
  unfold span
  rw [Tree.firstTokenOf?_eq, Tree.lastTokenOf?_eq, hfirst, hlast]
  simp only [Span.ofLength, Span.mk.injEq, hleading, width, text, Tree.text_eq, tree,
    Tree.tokens_node, Tree.widthAll_eq, true_and]
  omega

end Node

end PluginLint
