import PluginLint.Edit.Batch
import PluginLint.Proofs.Trees.Layout

/-!
# Replacing one node

The node of an edit stands below the root of a parsed file, so each of its tokens has a text. What a
fix puts in its place has the trivia of the node around it, and so only the inner text changes.
-/
namespace PluginLint

open Grammar (Retagged)

/-! ### Tokens that differ in their kind -/

namespace Token

variable {ts us vs : List Token}

theorem exists_append_of_retagged (h : List.Forall₂ Retagged ts (us ++ vs)) :
    ∃ us' vs', ts = us' ++ vs' ∧ List.Forall₂ Retagged us' us ∧ List.Forall₂ Retagged vs' vs :=
  ⟨_, _, (List.take_append_drop us.length ts).symm, List.forall₂_take_append _ _ _ h,
    List.forall₂_drop_append _ _ _ h⟩

theorem exists_cons_of_retagged {u : Token} (h : List.Forall₂ Retagged ts (u :: us)) :
    ∃ t ts', ts = t :: ts' ∧ Retagged t u ∧ List.Forall₂ Retagged ts' us := by
  obtain ⟨t, ts', htu, hts, rfl⟩ := List.forall₂_cons_right_iff.1 h
  exact ⟨t, ts', rfl, htu, hts⟩

theorem map_text_of_retagged (h : List.Forall₂ Retagged ts us) : us.map text = ts.map text := by
  induction h with
  | nil => rfl
  | cons h _ ih => rw [List.map_cons, List.map_cons, h.text, ih]

theorem widthAll_of_retagged (h : List.Forall₂ Retagged ts us) : widthAll us = widthAll ts := by
  rw [← utf8ByteSize_renderAll, ← utf8ByteSize_renderAll, renderAll_of_retagged h]

/-- Tokens that differ in their kind have the same trivia around them, and the same text inside. -/
theorem outer_of_retagged (h : List.Forall₂ Retagged ts us) :
    frontTrivia us = frontTrivia ts ∧ backTrivia us = backTrivia ts ∧ innerText us = innerText ts := by
  by_cases hne : us = []
  · subst hne
    cases h
    exact ⟨rfl, rfl, rfl⟩
  obtain ⟨u, rfl⟩ | ⟨first, mid, last, rfl⟩ := eq_singleton_or_ends hne
  · obtain ⟨t, _, rfl, htu, hnil⟩ := exists_cons_of_retagged h
    cases hnil
    exact ⟨by simp [frontTrivia, htu.leading], by simp [backTrivia, htu.trailing],
      by simp [innerText, surround_singleton, render, htu.text]⟩
  · obtain ⟨t, _, rfl, htu, hrest⟩ := exists_cons_of_retagged h
    obtain ⟨mid', _, rfl, hmid, hlast⟩ := exists_append_of_retagged hrest
    obtain ⟨t', _, rfl, htu', hnil⟩ := exists_cons_of_retagged hlast
    cases hnil
    refine ⟨by simp [frontTrivia, htu.leading], ?_, ?_⟩
    · simp [backTrivia, List.getLast?_cons, htu'.trailing]
    · simp [innerText, surround_cons_append, render, htu.text, htu.trailing, htu'.text, htu'.leading,
        renderAll_of_retagged hmid]

end Token

namespace Node

theorem childNodes_of_singleStatement? {block s : Node} (h : block.singleStatement? = some s) :
    block.kind = .block ∧ block.childNodes = [s] ∧ s.kind.isStatement = true := by
  unfold singleStatement? at h
  split at h
  · rename_i hk
    split at h
    · rename_i statement hc
      split at h
      · rename_i hs
        cases h
        exact ⟨hk, hc, hs⟩
      · cases h
    · cases h
  · cases h

/-! ### What a fix puts in place -/

theorem tokens_wrapped (n : Node) :
    n.wrapped.tokens = ⟨.punct, "\x7b", n.leading, [.space]⟩ ::
      (Token.surround [] [] n.tree.tokens ++ [⟨.punct, "\x7d", [.space], n.trailing⟩]) := by
  simp [wrapped, Tree.withoutOuterTrivia, Tree.tokens_withOuterTrivia]

/-- Braces and blanks around the text, and nothing else. -/
theorem text_wrapped (n : Node) : n.wrapped.text = "\x7b " ++ n.text ++ " \x7d" := by
  rw [Tree.text_eq, tokens_wrapped, Token.innerText, Token.surround_cons_append, text, Tree.text_eq,
    Token.innerText]
  simp [Token.render, Trivia.space, String.append_assoc]

theorem exchange_wrapped {n : Node} (h : n.tree.Solid) : Exchange n.tree n.wrapped where
  node := ⟨_, _, rfl⟩
  leading := by
    rw [Tree.leading_eq, tokens_wrapped]
    rfl
  trailing := by
    rw [Tree.trailing_eq, tokens_wrapped, Token.backTrivia, ← List.cons_append,
      List.getLast?_concat]
    rfl
  old_pos := h.text_pos
  new_pos := by
    rw [text_wrapped, String.utf8ByteSize_append, String.utf8ByteSize_append]
    exact Nat.lt_of_lt_of_le (by decide : 0 < "\x7b ".utf8ByteSize) (by omega)

/-- A block that is unwrapped has a single statement, and no comments around it. -/
theorem unwrapped_cases {block : Node} {new : Tree} (h : block.unwrapped = .ok new) :
    ∃ s, block.singleStatement? = some s ∧ (block.innerTrivia s).any Trivia.isComment = false ∧
      new = s.tree.withOuterTrivia block.leading block.trailing := by
  unfold unwrapped at h
  split at h
  · split at h
    · cases h
    · rename_i s hs
      split at h
      · cases h
      · rename_i hc
        cases h
        exact ⟨s, hs, by simpa using hc, rfl⟩
  · cases h

theorem text_withOuterTrivia (front back : List Trivia) (t : Tree) :
    (t.withOuterTrivia front back).text = t.text := by
  rw [Tree.text_eq, Tree.text_eq, Tree.tokens_withOuterTrivia, Token.innerText_surround]

theorem exchange_unwrapped {block : Node} {new : Tree} (hsolid : block.tree.Solid)
    (h : block.unwrapped = .ok new) : Exchange block.tree new := by
  obtain ⟨s, hs, -, rfl⟩ := unwrapped_cases h
  obtain ⟨-, hc, -⟩ := childNodes_of_singleStatement? hs
  have hsolid' : s.tree.Solid := hsolid.of_mem (tree_of_mem_childNodes (by simp [hc]))
  have hne := Tree.tokens_ne_nil_of_formed hsolid'.formed
  refine ⟨⟨_, _, rfl⟩, ?_, ?_, hsolid.text_pos, ?_⟩
  · rw [Tree.leading_eq, Tree.tokens_withOuterTrivia, Token.frontTrivia_surround _ _ hne]
    rfl
  · rw [Tree.trailing_eq, Tree.tokens_withOuterTrivia, Token.backTrivia_surround _ _ hne]
    rfl
  · rw [text_withOuterTrivia]
    exact hsolid'.text_pos

/-- What a fix puts in place can be exchanged for the node. -/
theorem exchange_replacement {fix : Fix} {n : Node} {new : Tree} (hsolid : n.tree.Solid)
    (h : SourceFile.replacement fix n = .ok new) : Exchange n.tree new := by
  cases fix with
  | addBraces =>
    cases h
    exact exchange_wrapped hsolid
  | removeBraces => exact exchange_unwrapped hsolid h

end Node

/-- No fix applies to the root of a file. -/
theorem Fix.kind_ne_of_accepts {fix : Fix} {n : Node} (h : fix.accepts n = true) :
    n.kind ≠ .compilationUnit := by
  intro hk
  cases fix with
  | addBraces =>
    simp only [accepts, hk, Bool.and_eq_true] at h
    exact absurd h.1 (by decide)
  | removeBraces =>
    simp only [accepts, hk] at h
    exact absurd h (by decide)

namespace SourceFile

/-! ### The node of an edit -/

theorem locate_eq_ok {f : SourceFile} {edit : Edit} {n : Node} :
    f.locate edit = .ok n ↔ f.root.findNode? edit.span edit.fix.accepts = some n := by
  unfold locate
  split
  · rename_i m hm
    simp [hm]
  · rename_i hm
    simp [hm]

theorem stands_of_locate {f : SourceFile} {edit : Edit} {n : Node} (h : f.locate edit = .ok n) :
    n.span = edit.span ∧ edit.fix.accepts n = true ∧ ∃ pre post, f.Stands n pre post := by
  obtain ⟨q, pre, post, hpath, hholds, hstart, hspan, hp⟩ := Node.findIn_holds (locate_eq_ok.1 h)
  rw [show f.root.path = [] from rfl, List.nil_append] at hpath
  rw [show f.root.start = 0 from rfl, Nat.zero_add] at hstart
  exact ⟨hspan, hp, pre, post, hpath ▸ hholds, hstart⟩

/-- A node that stands in a file can be replaced there. -/
theorem Stands.exists_replace {f : SourceFile} {n : Node} {pre post : List Token}
    (h : f.Stands n pre post) {new : Tree} (hnew : ∃ kind parts, new = .node kind parts) :
    ∃ g, f.replace n new = .ok g ∧ Tree.replaceAt new n.path f.root.tree = some g.root.tree ∧
      Tree.Holds g.root.tree n.path new pre post := by
  obtain ⟨kind, parts, rfl⟩ := hnew
  obtain ⟨t, ht, hholds⟩ := h.holds.exists_replaceAt kind parts
  obtain ⟨rootKind, rootParts, rfl⟩ := hholds.exists_outer
  refine ⟨{ f with kind := rootKind, parts := rootParts }, ?_, ht, hholds⟩
  simp only [replace, replaceAt, ht]

theorem text_eq_render (f : SourceFile) : f.text = Token.renderAll f.root.tree.tokens := by
  rw [root, Node.tree_mk, Tree.tokens_node]
  rfl

end SourceFile

/-- The text of a tree around the inner text of a node. -/
theorem Tree.Holds.renderAll_eq {t m : Tree} {path : List Nat} {pre post : List Token}
    (h : Holds t path m pre post) (hm : 0 < m.text.utf8ByteSize) :
    Token.renderAll t.tokens = (Token.renderAll pre ++ Trivia.render m.leading) ++ m.text ++
      (Trivia.render m.trailing ++ Token.renderAll post) := by
  have hne := tokens_ne_nil_of_text hm
  rw [h.tokens_eq, Token.renderAll_append, Token.renderAll_append, Token.renderAll_eq hne,
    leading_eq, trailing_eq, text_eq]
  simp [String.append_assoc]

namespace SourceFile

/-- Where the text of a node stands in the text of its file. -/
theorem Stands.text_eq {f : SourceFile} {n : Node} {pre post : List Token}
    (h : f.Stands n pre post) (hn : 0 < n.text.utf8ByteSize) :
    ∃ before after, f.text.toList = before ++ (n.text.toList ++ after) ∧
      n.span = .ofLength (Text.byteLength before) (Text.byteLength n.text.toList) ∧
      ∀ (new : Tree) (g : SourceFile), Tree.replaceAt new n.path f.root.tree = some g.root.tree →
        Node.Exchange n.tree new → g.text.toList = before ++ (new.text.toList ++ after) := by
  refine ⟨(Token.renderAll pre ++ Trivia.render n.leading).toList,
    (Trivia.render n.trailing ++ Token.renderAll post).toList, ?_, ?_, ?_⟩
  · rw [text_eq_render, h.holds.renderAll_eq hn]
    simp [Node.leading, Node.trailing, Node.text]
  · have hne : n.tree.tokens ≠ [] := Tree.tokens_ne_nil_of_text hn
    rw [Node.span_eq hne, Text.byteLength_toList, Text.byteLength_toList, h.start,
      String.utf8ByteSize_append, Token.utf8ByteSize_renderAll, Trivia.utf8ByteSize_render]
  · intro new g hg hx
    obtain ⟨kind, parts, rfl⟩ := hx.node
    rw [text_eq_render, (h.holds.replaceAt hg).renderAll_eq hx.new_pos, hx.leading, hx.trailing]
    simp [Node.leading, Node.trailing]

/-- The span of an edit that finds its node in a parsed file has text and lies in the file. -/
theorem Parsed.span_bounds {tokens : List Token} {f : SourceFile} (hf : Parsed tokens f)
    {edit : Edit} {n : Node} (h : f.locate edit = .ok n) :
    edit.span.start < edit.span.stop ∧ edit.span.stop ≤ f.text.utf8ByteSize := by
  obtain ⟨hspan, haccepts, pre, post, hstands⟩ := stands_of_locate h
  have hsolid := hf.solid hstands (Fix.kind_ne_of_accepts haccepts)
  have hpos : 0 < n.text.utf8ByteSize := hsolid.text_pos
  obtain ⟨before, after, htext, hn, -⟩ := hstands.text_eq hpos
  rw [← hspan, hn, ← Text.byteLength_toList, htext, Text.byteLength_append, Text.byteLength_append,
    Text.byteLength_toList]
  simp only [Span.ofLength]
  omega

end SourceFile

end PluginLint
