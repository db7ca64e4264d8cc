import PluginLint.Proofs.Parsing.Shape
import PluginLint.Proofs.Trees.Leaves

/-!
# Places in a tree

A node of a tree stands at a path, between the tokens in front of it and those behind it. Looking
for a node by its span gives such a place, and replacing the node there changes nothing else. A
node found by its span is still found after a node further back has been replaced, whatever its
ancestors look like then.
-/
namespace PluginLint

namespace Tree

/-- The tree has `m` at a path, behind the tokens `pre` and before the tokens `post`. -/
inductive Holds : Tree → List Nat → Tree → List Token → List Token → Prop
  | here {kind : NodeKind} {parts : List Tree} :
    Holds (.node kind parts) [] (.node kind parts) [] []
  | inside {kind : NodeKind} {before after : List Tree} {t m : Tree} {path : List Nat}
    {pre post : List Token} (h : Holds t path m pre post) :
    Holds (.node kind (before ++ t :: after)) (before.length :: path) m (tokensAll before ++ pre)
      (post ++ tokensAll after)

namespace Holds

variable {t m : Tree} {path : List Nat} {pre post : List Token}

theorem tokens_eq (h : Holds t path m pre post) : t.tokens = pre ++ (m.tokens ++ post) := by
  induction h with
  | here => simp
  | inside h ih => simp [ih]

theorem exists_outer (h : Holds t path m pre post) : ∃ kind parts, t = .node kind parts := by
  cases h with
  | here => exact ⟨_, _, rfl⟩
  | inside h => exact ⟨_, _, rfl⟩

theorem every {S : NodeKind → List Tree → Prop} (h : Holds t path m pre post) (ht : t.Every S) :
    m.Every S := by
  induction h with
  | here => exact ht
  | inside h ih =>
    rw [every_node] at ht
    exact ih (every_of_mem ht.2 (by simp))

theorem trans {m' : Tree} {path' : List Nat} {pre' post' : List Token}
    (h : Holds t path m pre post) (h' : Holds m path' m' pre' post') :
    Holds t (path ++ path') m' (pre ++ pre') (post' ++ post) := by
  induction h with
  | here => simpa using h'
  | @inside kind before after t m path pre post h ih =>
    have hin : Holds (.node kind (before ++ t :: after)) _ m' _ _ := (ih h').inside
    simpa [List.append_assoc] using hin

end Holds

theorem changeAt_append (change : Tree → Option Tree) (before after : List Tree) (t : Tree) :
    changeAt change before.length (before ++ t :: after) =
      (change t).map fun t' => before ++ t' :: after := by
  induction before with
  | nil => rfl
  | cons u before ih =>
    rw [List.length_cons, List.cons_append, changeAt, ih]
    simp [Function.comp_def]

/-- Replacing the node at a place puts another one at this place. -/
theorem Holds.exists_replaceAt {t m : Tree} {path : List Nat} {pre post : List Token}
    (h : Holds t path m pre post) (kind : NodeKind) (parts : List Tree) :
    ∃ t', Tree.replaceAt (.node kind parts) path t = some t' ∧
      Holds t' path (.node kind parts) pre post := by
  induction h with
  | here =>
    rw [Tree.replaceAt]
    exact ⟨_, rfl, .here⟩
  | inside h ih =>
    obtain ⟨t', ht', h'⟩ := ih
    rw [Tree.replaceAt, changeAt_append, ht']
    exact ⟨_, rfl, h'.inside⟩

theorem Holds.replaceAt {t t' m : Tree} {path : List Nat} {pre post : List Token}
    (h : Holds t path m pre post) {kind : NodeKind} {parts : List Tree}
    (ht' : Tree.replaceAt (.node kind parts) path t = some t') :
    Holds t' path (.node kind parts) pre post := by
  obtain ⟨t'', ht'', h''⟩ := h.exists_replaceAt kind parts
  obtain rfl : t' = t'' := Option.some.inj (ht'.symm.trans ht'')
  exact h''

/-- A tree is at least as wide as what leads up to the inner text of a node below. -/
theorem Holds.width_le {t m : Tree} {path : List Nat} {pre post : List Token}
    (h : Holds t path m pre post) :
    Token.widthAll pre + Trivia.width m.leading + m.text.utf8ByteSize ≤ t.width := by
  rw [width_eq, h.tokens_eq, Token.widthAll_append, Token.widthAll_append, leading_eq, text_eq]
  by_cases hm : m.tokens = []
  · rw [hm]
    simp [Token.frontTrivia, Token.innerText, Token.surround, List.modifyLast, List.modifyLast.go]
  · have := Token.widthAll_eq hm
    omega

end Tree

namespace Node

/-- Behind a run of trees there is a node with this span. -/
theorem findAmong_append {range : Span} {p : Node → Bool} {path : List Nat} {start i : Nat}
    {ts : List Tree} {n : Node} (h : findAmong range p path start i ts = some n) :
    ∃ before t after, ts = before ++ t :: after ∧
      findIn range p (path ++ [i + before.length]) (start + Tree.widthAll before) t = some n := by
  induction ts generalizing start i with
  | nil => simp [findAmong] at h
  | cons t ts ih =>
    cases t with
    | leaf token =>
      rw [findAmong] at h
      obtain ⟨before, u, after, rfl, hu⟩ := ih h
      refine ⟨.leaf token :: before, u, after, rfl, ?_⟩
      simpa [Nat.add_assoc, Nat.add_comm 1] using hu
    | node kind parts =>
      rw [findAmong] at h
      split at h
      · exact ⟨[], _, ts, rfl, by simpa using h⟩
      · obtain ⟨before, u, after, rfl, hu⟩ := ih h
        refine ⟨.node kind parts :: before, u, after, rfl, ?_⟩
        simpa [Nat.add_assoc, Nat.add_comm 1, Span.ofLength] using hu

/-- A node found by its span stands at a place of the tree. -/
theorem findIn_holds {range : Span} {p : Node → Bool} {path : List Nat} {start : Nat} {t : Tree}
    {n : Node} (h : findIn range p path start t = some n) :
    ∃ q pre post, n.path = path ++ q ∧ Tree.Holds t q n.tree pre post ∧
      n.start = start + Token.widthAll pre ∧ n.span = range ∧ p n = true := by
  induction t using Tree.induct generalizing path start with
  | leaf token => simp [findIn] at h
  | node kind parts ih =>
    rw [findIn] at h
    split at h
    · rename_i hn
      simp only [Bool.and_eq_true, beq_iff_eq] at hn
      cases h
      exact ⟨[], [], [], by simp, .here, by simp, hn.1, hn.2⟩
    · obtain ⟨before, t, after, rfl, ht⟩ := findAmong_append h
      obtain ⟨q, pre, post, hpath, hholds, hstart, hspan, hp⟩ := ih t (by simp) ht
      refine ⟨before.length :: q, Tree.tokensAll before ++ pre, post ++ Tree.tokensAll after, ?_,
        hholds.inside, ?_, hspan, hp⟩
      · simp [hpath]
      · rw [hstart, Tree.widthAll_eq, Token.widthAll_append]
        omega

/-! ### Looking again after a change further back -/

/-- What a node that is replaced and the one that is put in its place have in common. -/
structure Exchange (m new : Tree) : Prop where
  node : ∃ kind parts, new = .node kind parts
  leading : new.leading = m.leading
  trailing : new.trailing = m.trailing
  old_pos : 0 < m.text.utf8ByteSize
  new_pos : 0 < new.text.utf8ByteSize

/-- The inner text of a node lies in that of every node around it. -/
theorem span_stop_of_holds {kind : NodeKind} {parts : List Tree} {start : Nat} {path q : List Nat}
    {m : Tree} {pre post : List Token}
    (h : Tree.Holds (.node kind parts) q m pre post) (hm : 0 < m.text.utf8ByteSize) :
    start + Token.widthAll pre + Trivia.width m.leading + m.text.utf8ByteSize ≤
      (Node.mk kind parts start path).span.stop := by
  have hne := Tree.tokens_ne_nil_of_text hm
  have htokens : Tree.tokensAll parts = pre ++ (m.tokens ++ post) := by simpa using h.tokens_eq
  have hparts : Tree.tokensAll parts ≠ [] := by simp [htokens, hne]
  rw [span_eq hparts]
  have hwidth := Token.widthAll_eq hparts
  have hm := Token.widthAll_eq hne
  have hback := Token.backTrivia_middle_le pre post hne
  rw [← htokens] at hback
  rw [htokens, Token.widthAll_append, Token.widthAll_append, ← htokens] at hwidth
  simp only [Span.ofLength, Node.leading, Node.text, tree_mk, Tree.leading_eq, Tree.text_eq,
    Tree.tokens_node]
  omega

/-- The inner text of a node below starts where that of the node itself starts, or behind. -/
theorem span_start_of_holds {t m : Tree} {q : List Nat} {pre post : List Token}
    (h : Tree.Holds t q m pre post) (hm : m.tokens ≠ []) :
    Trivia.width t.leading ≤ Token.widthAll pre + Trivia.width m.leading := by
  rw [Tree.leading_eq, Tree.leading_eq, h.tokens_eq]
  exact Token.frontTrivia_middle_le _ _ hm

theorem tokens_ne_nil_of_span {n : Node} (h : n.span.start < n.span.stop) :
    Tree.tokensAll n.parts ≠ [] := by
  intro hnil
  simp [span, Tree.firstTokenOf?_eq, hnil, Span.ofLength] at h

theorem span_of_pos {n : Node} (h : n.span.start < n.span.stop) :
    n.span = .ofLength (n.start + Trivia.width n.leading) n.text.utf8ByteSize :=
  span_eq (tokens_ne_nil_of_span h)

/-- A node with some text that is found below a tree stands in the inner text of the tree. -/
theorem start_le_of_findIn {range : Span} {p : Node → Bool} {path : List Nat} {start : Nat}
    {t : Tree} {n : Node} (h : findIn range p path start t = some n)
    (hrange : range.start < range.stop) : start + Trivia.width t.leading ≤ range.start := by
  obtain ⟨q, pre, post, -, hholds, hstart, rfl, -⟩ := findIn_holds h
  have hne : n.tree.tokens ≠ [] := tokens_ne_nil_of_span hrange
  have hle := span_start_of_holds hholds hne
  rw [span_of_pos hrange]
  simp only [Span.ofLength, leading]
  omega

/-- Trees in front of a changed one are looked through as before. -/
theorem findAmong_append_congr {range : Span} {p : Node → Bool} {path : List Nat} {n : Node}
    (before : List Tree) {us us' : List Tree} {start i : Nat}
    (h : findAmong range p path (start + Tree.widthAll before) (i + before.length) us = some n →
      findAmong range p path (start + Tree.widthAll before) (i + before.length) us' = some n)
    (hfound : findAmong range p path start i (before ++ us) = some n) :
    findAmong range p path start i (before ++ us') = some n := by
  induction before generalizing start i with
  | nil => simpa using h (by simpa using hfound)
  | cons t before ih =>
    cases t with
    | leaf token =>
      rw [List.cons_append, findAmong] at hfound ⊢
      refine ih (fun hu => ?_) hfound
      have := h (by simpa [Nat.add_assoc, Nat.add_comm 1] using hu)
      simpa [Nat.add_assoc, Nat.add_comm 1] using this
    | node kind parts =>
      rw [List.cons_append, findAmong] at hfound ⊢
      split at hfound
      · rename_i hc
        rw [if_pos hc]
        exact hfound
      · rename_i hc
        rw [if_neg hc]
        refine ih (fun hu => ?_) hfound
        have := h (by simpa [Nat.add_assoc, Nat.add_comm 1, Span.ofLength] using hu)
        simpa [Nat.add_assoc, Nat.add_comm 1, Span.ofLength] using this

/-- A node found in front of a place is found again when the node at that place is replaced. -/
theorem findIn_replaceAt {range : Span} {p : Node → Bool} {t t' m new : Tree} {q path : List Nat}
    {pre post : List Token} {start : Nat} {n : Node} (h : Tree.Holds t q m pre post)
    (hx : Exchange m new) (ht' : Tree.replaceAt new q t = some t')
    (hrange : range.start < range.stop)
    (hbefore : range.stop ≤ start + Token.widthAll pre + Trivia.width m.leading)
    (hfound : findIn range p path start t = some n) :
    findIn range p path start t' = some n := by
  induction h generalizing t' path start with
  | here =>
    -- The node would stand inside the one that is replaced, and so behind its start.
    have := start_le_of_findIn hfound hrange
    simp only [Token.widthAll_nil] at hbefore
    omega
  | @inside kind before after u m q pre post h ih =>
    rw [Tree.replaceAt, Tree.changeAt_append] at ht'
    simp only [Option.map_map, Option.map_eq_some_iff, Function.comp_apply] at ht'
    obtain ⟨u', hu', rfl⟩ := ht'
    obtain ⟨kind', parts', rfl⟩ := hx.node
    have h' := h.replaceAt hu'
    rw [Token.widthAll_append, ← Tree.widthAll_eq] at hbefore
    -- The node around the place ends behind the span that is looked for, before and after.
    have hold : _ ≤ (Node.mk kind (before ++ u :: after) start path).span.stop :=
      span_stop_of_holds h.inside hx.old_pos
    have hnew : _ ≤ (Node.mk kind (before ++ u' :: after) start path).span.stop :=
      span_stop_of_holds h'.inside hx.new_pos
    rw [Token.widthAll_append, ← Tree.widthAll_eq] at hold hnew
    have holdpos := hx.old_pos
    have hnewpos := hx.new_pos
    have hlead := hx.leading
    rw [findIn] at hfound ⊢
    split at hfound
    · rename_i hn
      simp only [Bool.and_eq_true, beq_iff_eq] at hn
      rw [hn.1] at hold
      omega
    rw [if_neg]
    · refine findAmong_append_congr before (fun hu => ?_) hfound
      obtain ⟨ku, us, rfl⟩ := h.exists_outer
      obtain ⟨ku', us', rfl⟩ := h'.exists_outer
      have hwidth := h.width_le
      have hwidth' := h'.width_le
      rw [Tree.width_node] at hwidth hwidth'
      rw [hlead] at hwidth'
      rw [findAmong] at hu ⊢
      split at hu
      · rename_i hc
        have hagain := ih hx hu' (by omega) hu
        rw [if_pos]
        · exact hagain
        · simp only [Span.contains, Span.isEmpty, Bool.and_eq_true, decide_eq_true_eq,
            Bool.not_eq_true', beq_eq_false_iff_ne] at hc ⊢
          simp only [Span.ofLength, Span.length] at hc ⊢
          omega
      · obtain ⟨before', t, after', -, ht⟩ := findAmong_append hu
        have := start_le_of_findIn ht hrange
        simp only [Span.ofLength] at this
        omega
    · simp only [Bool.and_eq_true, beq_iff_eq, not_and]
      intro hspan
      rw [hspan, hlead] at hnew
      omega

end Node

end PluginLint
