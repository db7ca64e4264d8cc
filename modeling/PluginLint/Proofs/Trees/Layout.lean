import PluginLint.Proofs.LosslessParsing
import PluginLint.Proofs.Trees.Nodes
import Mathlib.Data.List.Pairwise
import Mathlib.Tactic.ByContra

/-!
# The layout of a tree

Of two nodes of a tree one lies below the other, or they stand apart. In a parsed file every node
but the root has a text, so its span is not empty; the spans of nested nodes are nested, and those
of nodes that stand apart touch at most.
-/
namespace PluginLint

namespace Tree

/-- A tree as it stands below the root of a parsed file. -/
structure Solid (t : Tree) : Prop where
  formed : t.Every Formed
  texts : ∀ token ∈ t.tokens, token.text ≠ ""

theorem Solid.text_pos {t : Tree} (h : t.Solid) : 0 < t.text.utf8ByteSize := by
  rw [text_eq]
  exact Token.innerText_pos (tokens_ne_nil_of_formed h.formed) h.texts

theorem Solid.of_mem {kind : NodeKind} {parts : List Tree} {t : Tree}
    (h : Solid (.node kind parts)) (ht : t ∈ parts) : t.Solid := by
  obtain ⟨before, after, rfl⟩ := List.append_of_mem ht
  refine ⟨every_of_mem (every_node.1 h.formed).2 ht, fun token htoken => h.texts token ?_⟩
  simp [htoken]

theorem Solid.of_holds {t m : Tree} {path : List Nat} {pre post : List Token}
    (ht : t.Solid) (h : Holds t path m pre post) : m.Solid := by
  refine ⟨h.every ht.formed, fun token htoken => ht.texts token ?_⟩
  rw [h.tokens_eq]
  simp [htoken]

end Tree

namespace Node

/-! ### Children -/

theorem mem_filterMap_node? {es : List Element} {c : Node} :
    c ∈ es.filterMap Element.node? ↔ .node c ∈ es := by
  constructor
  · intro h
    obtain ⟨e, he, hc⟩ := List.mem_filterMap.1 h
    cases e with
    | node m =>
      cases hc
      exact he
    | token t => cases hc
  · intro h
    exact List.mem_filterMap.2 ⟨.node c, h, rfl⟩

/-- A child is one of the parts, behind all that stand in front of it. -/
theorem exists_append_of_mem_place {path : List Nat} {start i : Nat} {parts : List Tree} {c : Node}
    (h : .node c ∈ place path start i parts) : ∃ before after, parts = before ++ c.tree :: after ∧
      c.start = start + Tree.widthAll before := by
  induction parts generalizing start i with
  | nil => simp [place] at h
  | cons t ts ih =>
    cases t with
    | node kind inner =>
      simp only [place, List.mem_cons, Element.node.injEq] at h
      rcases h with rfl | h
      · exact ⟨[], ts, rfl, by simp⟩
      · obtain ⟨before, after, rfl, hstart⟩ := ih h
        exact ⟨.node kind inner :: before, after, rfl, by simp [hstart, Nat.add_assoc]⟩
    | leaf token =>
      simp only [place, List.mem_cons, reduceCtorEq, false_or] at h
      obtain ⟨before, after, rfl, hstart⟩ := ih h
      exact ⟨.leaf token :: before, after, rfl, by simp [hstart, Nat.add_assoc]⟩

theorem exists_append_of_mem_childNodes {n c : Node} (h : c ∈ n.childNodes) :
    ∃ before after, n.parts = before ++ c.tree :: after ∧
      c.start = n.start + Tree.widthAll before :=
  exists_append_of_mem_place (mem_filterMap_node?.1 h)

/-- The two nodes have no byte in common, trivia included. -/
def Apart (x y : Node) : Prop := x.start + x.width ≤ y.start ∨ y.start + y.width ≤ x.start

instance : Std.Symm Apart := ⟨fun _ _ => Or.symm⟩

/-- The children stand one behind the other. -/
theorem pairwise_ordered_place (path : List Nat) (start i : Nat) (parts : List Tree) :
    ((place path start i parts).filterMap Element.node?).Pairwise
      fun c d => c.start + c.width ≤ d.start := by
  induction parts generalizing start i with
  | nil => simp [place]
  | cons t ts ih =>
    cases t with
    | leaf token =>
      rw [place, List.filterMap_cons_none rfl]
      exact ih _ _
    | node kind inner =>
      simp only [place, List.filterMap_cons, Element.node?, List.pairwise_cons]
      refine ⟨fun c hc => ?_, ih _ _⟩
      obtain ⟨before, -, -, hstart⟩ := exists_append_of_mem_place (mem_filterMap_node?.1 hc)
      simp only [width, hstart]
      omega

theorem pairwise_apart_place (path : List Nat) (start i : Nat) (parts : List Tree) :
    ((place path start i parts).filterMap Element.node?).Pairwise Apart :=
  (pairwise_ordered_place path start i parts).imp .inl

theorem apart_of_mem_childNodes {n c d : Node} (hc : c ∈ n.childNodes) (hd : d ∈ n.childNodes)
    (hne : c ≠ d) : Apart c d :=
  (pairwise_apart_place n.path n.start 0 n.parts).forall hc hd hne

/-- Induction from the children of a node to the node. -/
@[elab_as_elim]
theorem induct {motive : Node → Prop}
    (step : ∀ n : Node, (∀ c ∈ n.childNodes, motive c) → motive n) (n : Node) : motive n := by
  induction hs : n.size using Nat.strongRecOn generalizing n with
  | _ k ih =>
    refine step n fun c hc => ih c.size ?_ c rfl
    rw [← hs]
    exact size_lt_of_mem_childNodes hc

/-! ### Nodes below -/

theorem mem_descendants {x y : Node} :
    y ∈ x.descendants ↔ y = x ∨ ∃ c ∈ x.childNodes, y ∈ c.descendants := by
  rw [descendants_eq, List.mem_cons, List.mem_flatMap]

theorem mem_descendants_self (x : Node) : x ∈ x.descendants := mem_descendants.2 (.inl rfl)

theorem mem_descendants_of_child {x c y : Node} (hc : c ∈ x.childNodes) (hy : y ∈ c.descendants) :
    y ∈ x.descendants := mem_descendants.2 (.inr ⟨c, hc, hy⟩)

theorem mem_descendants_trans {x y z : Node} (hy : y ∈ x.descendants) (hz : z ∈ y.descendants) :
    z ∈ x.descendants := by
  induction x using induct with
  | step x ih =>
    rcases mem_descendants.1 hy with rfl | ⟨c, hc, hy⟩
    · exact hz
    · exact mem_descendants_of_child hc (ih c hc hy)

/-- A node below another one is smaller. -/
theorem eq_or_size_lt_of_mem_descendants {x y : Node} (h : y ∈ x.descendants) :
    y = x ∨ y.size < x.size := by
  induction x using induct with
  | step x ih =>
    rcases mem_descendants.1 h with rfl | ⟨c, hc, hy⟩
    · exact .inl rfl
    · have hlt := size_lt_of_mem_childNodes hc
      rcases ih c hc hy with rfl | hy
      · exact .inr hlt
      · exact .inr (Nat.lt_trans hy hlt)

theorem mem_descendants_antisymm {x y : Node} (hy : y ∈ x.descendants) (hx : x ∈ y.descendants) :
    y = x := by
  rcases eq_or_size_lt_of_mem_descendants hy with h | hlt
  · exact h
  · rcases eq_or_size_lt_of_mem_descendants hx with h | hlt'
    · exact h.symm
    · omega

/-- A node below another one stands between its ends. -/
theorem bounds_of_mem_descendants {x y : Node} (h : y ∈ x.descendants) :
    x.start ≤ y.start ∧ y.start + y.width ≤ x.start + x.width := by
  induction x using induct with
  | step x ih =>
    rcases mem_descendants.1 h with rfl | ⟨c, hc, hy⟩
    · exact ⟨Nat.le_refl _, Nat.le_refl _⟩
    · obtain ⟨before, after, hparts, hstart⟩ := exists_append_of_mem_childNodes hc
      have hinner := ih c hc hy
      have hwidth : x.width = Tree.widthAll before + (c.width + Tree.widthAll after) := by
        rw [width, hparts]
        simp [tree, width]
      omega

/-- Of two nodes of a tree one lies below the other, or they stand apart. -/
theorem nested_or_apart {r x y : Node} (hx : x ∈ r.descendants) (hy : y ∈ r.descendants) :
    y ∈ x.descendants ∨ x ∈ y.descendants ∨ Apart x y := by
  induction r using induct with
  | step r ih =>
    rcases mem_descendants.1 hx with rfl | ⟨c, hc, hxc⟩
    · exact .inl hy
    rcases mem_descendants.1 hy with rfl | ⟨d, hd, hyd⟩
    · exact .inr (.inl hx)
    by_cases hcd : c = d
    · subst hcd
      exact ih c hc hxc hyd
    · have hapart : Apart c d := apart_of_mem_childNodes hc hd hcd
      have hbx := bounds_of_mem_descendants hxc
      have hby := bounds_of_mem_descendants hyd
      refine .inr (.inr ?_)
      unfold Apart at hapart ⊢
      omega

/-- A node that takes up room lies below one child only. -/
theorem child_unique {n c d y : Node} (hc : c ∈ n.childNodes) (hd : d ∈ n.childNodes)
    (hyc : y ∈ c.descendants) (hyd : y ∈ d.descendants) (hy : 0 < y.width) : c = d := by
  by_contra hne
  have hapart := apart_of_mem_childNodes hc hd hne
  have hbc := bounds_of_mem_descendants hyc
  have hbd := bounds_of_mem_descendants hyd
  unfold Apart at hapart
  omega

/-! ### Spans -/

/-- The span of a solid node is not empty. -/
theorem span_of_solid {n : Node} (h : n.tree.Solid) :
    n.start ≤ n.span.start ∧ n.span.start < n.span.stop ∧ n.span.stop ≤ n.start + n.width := by
  have hne : Tree.tokensAll n.parts ≠ [] := Tree.tokens_ne_nil_of_formed h.formed
  have hpos : 0 < n.text.utf8ByteSize := h.text_pos
  have hwidth : n.width = Trivia.width n.leading + n.text.utf8ByteSize +
      Trivia.width (Token.backTrivia (Tree.tokensAll n.parts)) := by
    rw [width, Tree.widthAll_eq, Token.widthAll_eq hne, leading, Tree.leading_eq, text,
      Tree.text_eq]
    rfl
  rw [span_eq hne]
  simp only [Span.ofLength]
  omega

theorem width_pos_of_solid {n : Node} (h : n.tree.Solid) : 0 < n.width := by
  have := span_of_solid h
  omega

/-- The span of a node lies in that of every node around it. -/
theorem span_of_mem_descendants {x y : Node} (h : y ∈ x.descendants) (hy : y.tree.Solid) :
    x.span.start ≤ y.span.start ∧ y.span.stop ≤ x.span.stop := by
  obtain ⟨q, pre, post, -, hholds, hstart⟩ := holds_of_mem_nodesOf h
  have hne := Tree.tokens_ne_nil_of_formed hy.formed
  have htokens : x.tree.tokens ≠ [] := by
    rw [hholds.tokens_eq]
    simp [hne]
  have hfront := span_start_of_holds hholds hne
  have hback : _ ≤ (Node.mk x.kind x.parts x.start x.path).span.stop :=
    span_stop_of_holds hholds hy.text_pos
  rw [span_eq hne]
  refine ⟨?_, ?_⟩
  · rw [span_eq htokens]
    simp only [Span.ofLength, leading]
    omega
  · simp only [Span.ofLength, leading, text, hstart]
    exact hback

/-- Of two nodes of a tree one lies below the other, or their spans touch at most. -/
theorem nested_or_spans_apart {r x y : Node} (hx : x ∈ r.descendants) (hy : y ∈ r.descendants)
    (hxs : x.tree.Solid) (hys : y.tree.Solid) : y ∈ x.descendants ∨ x ∈ y.descendants ∨
      x.span.stop ≤ y.span.start ∨ y.span.stop ≤ x.span.start := by
  have hbx := span_of_solid hxs
  have hby := span_of_solid hys
  rcases nested_or_apart hx hy with h | h | h
  · exact .inl h
  · exact .inr (.inl h)
  · unfold Apart at h
    omega

/-- A child that is not the first part starts behind the start of the node. -/
theorem start_lt_of_later_child {n c : Node} (hn : n.tree.Solid) (hc : c ∈ n.childNodes)
    (hfirst : n.parts.head? ≠ some c.tree) : n.span.start < c.span.start := by
  obtain ⟨before, after, hparts, hstart⟩ := exists_append_of_mem_childNodes hc
  have hcs : c.tree.Solid := hn.of_mem (tree_of_mem_childNodes hc)
  obtain ⟨t, rest, rfl⟩ : ∃ t rest, before = t :: rest := by
    refine List.exists_cons_of_ne_nil fun hnil => hfirst ?_
    rw [hparts, hnil, List.nil_append, List.head?_cons]
  have hts : t.Solid := by
    refine hn.of_mem ?_
    rw [hparts]
    simp
  have hne := Tree.tokens_ne_nil_of_formed hts.formed
  -- The node starts with the text of its first part, and the child comes behind that.
  have hleading : n.leading = t.leading := by
    rw [leading, tree, hparts, Tree.leading_eq, Tree.leading_eq, List.cons_append, Tree.tokens_node,
      Tree.tokensAll_cons, Token.frontTrivia_append hne]
  have hwidth : t.width = Trivia.width t.leading + t.text.utf8ByteSize +
      Trivia.width (Token.backTrivia t.tokens) := by
    rw [Tree.width_eq, Token.widthAll_eq hne, Tree.leading_eq, Tree.text_eq]
  have hpos := hts.text_pos
  have hcstart := (span_of_solid hcs).1
  have hnstart : n.span.start = n.start + Trivia.width n.leading := by
    rw [span_eq (Tree.tokens_ne_nil_of_formed hn.formed)]
    rfl
  rw [hstart, Tree.widthAll_cons] at hcstart
  rw [hnstart, hleading]
  omega

end Node

namespace SourceFile

/-! ### Parsed files -/

/-- A node stands in a file, behind some tokens and before others. -/
structure Stands (f : SourceFile) (n : Node) (pre post : List Token) : Prop where
  holds : Tree.Holds f.root.tree n.path n.tree pre post
  start : n.start = Token.widthAll pre

/-- Below the root of a parsed file every node is solid. -/
theorem Parsed.solid {tokens : List Token} {f : SourceFile} (hf : Parsed tokens f) {n : Node}
    {pre post : List Token} (h : f.Stands n pre post) (hk : n.kind ≠ .compilationUnit) :
    n.tree.Solid := by
  obtain ⟨items, leading, hparts, htexts⟩ := hf.last
  have hformed := hf.formed
  rw [hparts, Tree.everyAll_append] at hformed
  have hholds := h.holds
  have hroot : f.root.tree = .node .compilationUnit (items ++ [.leaf (.endOfFile leading)]) := by
    rw [← hf.kind, ← hparts]
    rfl
  rw [hroot] at hholds
  generalize hm : n.tree = m at hholds ⊢
  generalize hp : n.path = path at hholds
  generalize ht : Tree.node .compilationUnit (items ++ [.leaf (.endOfFile leading)]) = t at hholds
  cases hholds with
  | here =>
    rw [Node.tree, ← ht, Tree.node.injEq] at hm
    exact absurd hm.1 hk
  | @inside kind before after t m path pre post hin =>
    rw [Tree.node.injEq] at ht
    have hmem : t ∈ items := by
      have : t ∈ items ++ [.leaf (.endOfFile leading)] := by rw [ht.2]; simp
      rcases List.mem_append.1 this with h | h
      · exact h
      · obtain rfl := List.mem_singleton.1 h
        obtain ⟨_, _, h⟩ := hin.exists_outer
        cases h
    have hsolid : t.Solid := by
      obtain ⟨before, after, rfl⟩ := List.append_of_mem hmem
      refine ⟨Tree.every_of_mem hformed.1 hmem, fun token htoken => (htexts token ?_).2⟩
      simp [htoken]
    exact hsolid.of_holds hin

theorem stands_of_mem_nodes {f : SourceFile} {n : Node} (h : n ∈ f.nodes) :
    ∃ pre post, f.Stands n pre post := by
  obtain ⟨q, pre, post, hpath, hholds, hstart⟩ := Node.holds_of_mem_nodesOf h
  rw [show f.root.path = [] from rfl, List.nil_append] at hpath
  rw [show f.root.start = 0 from rfl, Nat.zero_add] at hstart
  exact ⟨pre, post, hpath ▸ hholds, hstart⟩

theorem Parsed.solid_of_mem {tokens : List Token} {f : SourceFile} (hf : Parsed tokens f) {n : Node}
    (hn : n ∈ f.nodes) (hk : n.kind ≠ .compilationUnit) : n.tree.Solid := by
  obtain ⟨pre, post, hstands⟩ := stands_of_mem_nodes hn
  exact hf.solid hstands hk

end SourceFile

end PluginLint
