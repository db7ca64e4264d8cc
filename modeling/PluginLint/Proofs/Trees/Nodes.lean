import PluginLint.Proofs.Trees.Places

/-!
# Nodes of a tree

The children of a node and the nodes below it, seen as places. A node is found by its span when all
nodes around it start further in front. What can be said of a node by its kind and its parts is
counted over a whole tree.
-/
namespace PluginLint

namespace Node

/-! ### Children -/

theorem tree_of_mem_place {path : List Nat} {start i : Nat} {parts : List Tree} {c : Node}
    (h : .node c ∈ place path start i parts) : c.tree ∈ parts := by
  induction parts generalizing start i with
  | nil => simp [place] at h
  | cons t ts ih =>
    cases t with
    | node kind inner =>
      simp only [place, List.mem_cons, Element.node.injEq] at h
      rcases h with rfl | h
      · simp
      · exact List.mem_cons_of_mem _ (ih h)
    | leaf token =>
      simp only [place, List.mem_cons, reduceCtorEq, false_or] at h
      exact List.mem_cons_of_mem _ (ih h)

theorem tree_of_mem_childNodes {n c : Node} (h : c ∈ n.childNodes) : c.tree ∈ n.parts := by
  obtain ⟨e, he, hc⟩ := List.mem_filterMap.1 h
  cases e with
  | node m =>
    cases hc
    exact tree_of_mem_place he
  | token t => simp [Element.node?] at hc

theorem map_tree_place (path : List Nat) (start i : Nat) (parts : List Tree) :
    ((place path start i parts).filterMap Element.node?).map tree = parts.filter Tree.isNode := by
  induction parts generalizing start i with
  | nil => simp [place]
  | cons t ts ih =>
    cases t with
    | node kind inner =>
      simp only [place, List.filterMap_cons, Element.node?, List.map_cons, ih]
      rw [List.filter_cons_of_pos rfl]
      rfl
    | leaf token =>
      rw [place, List.filterMap_cons_none rfl, ih, List.filter_cons_of_neg (by simp [Tree.isNode])]

/-- The children of a node are the nodes among its parts. -/
theorem map_tree_childNodes (n : Node) : n.childNodes.map tree = n.parts.filter Tree.isNode :=
  map_tree_place _ _ _ _

/-- The first child of a class stands behind parts that are not in it. -/
theorem find?_place {path : List Nat} {start i : Nat} {parts : List Tree} {p : NodeKind → Bool}
    {c : Node}
    (h : ((place path start i parts).filterMap Element.node?).find? (fun c => p c.kind) = some c) :
    p c.kind = true ∧ ∃ before after, parts = before ++ c.tree :: after ∧
      c.path = path ++ [i + before.length] ∧ c.start = start + Tree.widthAll before ∧
      ∀ kind inner, .node kind inner ∈ before → p kind = false := by
  induction parts generalizing start i with
  | nil => simp [place] at h
  | cons t ts ih =>
    cases t with
    | node kind inner =>
      simp only [place, List.filterMap_cons, Element.node?, List.find?_cons] at h
      split at h
      · rename_i hp
        cases h
        exact ⟨hp, [], ts, rfl, by simp, by simp, by simp⟩
      · rename_i hp
        obtain ⟨hc, before, after, rfl, hpath, hstart, hbefore⟩ := ih h
        refine ⟨hc, .node kind inner :: before, after, rfl, ?_, ?_, ?_⟩
        · simp [hpath, Nat.add_assoc, Nat.add_comm 1]
        · simp [hstart, Nat.add_assoc]
        · intro k us hk
          rcases List.mem_cons.1 hk with hk | hk
          · cases hk
            simpa using hp
          · exact hbefore k us hk
    | leaf token =>
      simp only [place, List.filterMap_cons, Element.node?] at h
      obtain ⟨hc, before, after, rfl, hpath, hstart, hbefore⟩ := ih h
      refine ⟨hc, .leaf token :: before, after, rfl, ?_, ?_, ?_⟩
      · simp [hpath, Nat.add_assoc, Nat.add_comm 1]
      · simp [hstart, Nat.add_assoc]
      · intro k us hk
        rcases List.mem_cons.1 hk with hk | hk
        · cases hk
        · exact hbefore k us hk

/-! ### Nodes below -/

theorem nodesOfAll_eq (path : List Nat) (start i : Nat) (parts : List Tree) :
    nodesOfAll path start i parts =
      ((place path start i parts).filterMap Element.node?).flatMap descendants := by
  induction parts generalizing start i with
  | nil => simp [nodesOfAll, place]
  | cons t ts ih =>
    cases t with
    | node kind inner => simp [nodesOfAll, place, Element.node?, ih, descendants]
    | leaf token =>
      rw [place, List.filterMap_cons_none rfl, nodesOfAll, ih, nodesOf, List.nil_append,
        Tree.width_leaf]

/-- A node comes before the nodes below its children, child by child. -/
theorem descendants_eq (n : Node) : n.descendants = n :: n.childNodes.flatMap descendants := by
  rw [descendants, tree, nodesOf, nodesOfAll_eq]
  rfl

theorem mem_nodesOfAll {path : List Nat} {start i : Nat} {ts : List Tree} {n : Node}
    (h : n ∈ nodesOfAll path start i ts) : ∃ before t after, ts = before ++ t :: after ∧
      n ∈ nodesOf (path ++ [i + before.length]) (start + Tree.widthAll before) t := by
  induction ts generalizing start i with
  | nil => simp [nodesOfAll] at h
  | cons t ts ih =>
    rw [nodesOfAll, List.mem_append] at h
    rcases h with h | h
    · exact ⟨[], t, ts, rfl, by simpa using h⟩
    · obtain ⟨before, u, after, rfl, hu⟩ := ih h
      refine ⟨t :: before, u, after, rfl, ?_⟩
      simpa [Nat.add_assoc, Nat.add_comm 1] using hu

/-- A node of a tree stands at its path. -/
theorem holds_of_mem_nodesOf {path : List Nat} {start : Nat} {t : Tree} {n : Node}
    (h : n ∈ nodesOf path start t) : ∃ q pre post, n.path = path ++ q ∧
      Tree.Holds t q n.tree pre post ∧ n.start = start + Token.widthAll pre := by
  induction t using Tree.induct generalizing path start with
  | leaf token => simp [nodesOf] at h
  | node kind parts ih =>
    rw [nodesOf, List.mem_cons] at h
    rcases h with rfl | h
    · exact ⟨[], [], [], by simp, .here, by simp⟩
    · obtain ⟨before, t, after, rfl, ht⟩ := mem_nodesOfAll h
      obtain ⟨q, pre, post, hpath, hholds, hstart⟩ := ih t (by simp) ht
      refine ⟨before.length :: q, _, _, ?_, hholds.inside, ?_⟩
      · simp [hpath]
      · rw [hstart, Tree.widthAll_eq, Token.widthAll_append]
        omega

/-! ### Finding a node -/

/-- Parts in front of a span are passed over. -/
theorem findAmong_skip {range : Span} {p : Node → Bool} {path : List Nat} {start i : Nat}
    (before us : List Tree) (hrange : range.start < range.stop)
    (hfront : start + Tree.widthAll before ≤ range.start) :
    findAmong range p path start i (before ++ us) =
      findAmong range p path (start + Tree.widthAll before) (i + before.length) us := by
  induction before generalizing start i with
  | nil => simp
  | cons t before ih =>
    rw [Tree.widthAll_cons] at hfront
    cases t with
    | leaf token =>
      rw [List.cons_append, findAmong, ih (by simpa [Nat.add_assoc] using hfront)]
      simp [Nat.add_assoc, Nat.add_comm 1]
    | node kind parts =>
      rw [Tree.width_node] at hfront
      rw [List.cons_append, findAmong, if_neg, ih]
      · simp [Span.ofLength, Nat.add_assoc, Nat.add_comm 1]
      · simp only [Span.ofLength]
        omega
      · simp only [Span.contains, Bool.and_eq_true, decide_eq_true_eq]
        simp only [Span.ofLength]
        omega

/-- The part that holds a node is looked into. -/
theorem findAmong_enter {range : Span} {p : Node → Bool} {path q : List Nat} {start i : Nat}
    {t m : Tree} {pre post : List Token} (before after : List Tree)
    (h : Tree.Holds t q m pre post) (hm : 0 < m.text.utf8ByteSize)
    (hrange : range = .ofLength (start + Tree.widthAll before + Token.widthAll pre +
      Trivia.width m.leading) m.text.utf8ByteSize) :
    findAmong range p path start i (before ++ t :: after) =
      findIn range p (path ++ [i + before.length]) (start + Tree.widthAll before) t := by
  obtain ⟨kind, parts, rfl⟩ := h.exists_outer
  have hwidth := h.width_le
  rw [Tree.width_node] at hwidth
  rw [findAmong_skip before, findAmong, if_pos]
  · simp only [Span.contains, Span.isEmpty, Bool.and_eq_true, decide_eq_true_eq,
      Bool.not_eq_true', beq_eq_false_iff_ne, hrange]
    simp only [Span.ofLength, Span.length]
    omega
  · simp only [hrange, Span.ofLength]
    omega
  · simp only [hrange, Span.ofLength]
    omega

/-- A node around one that starts further in front has another span. -/
theorem span_ne_of_holds {kind : NodeKind} {parts : List Tree} {q path : List Nat} {start : Nat}
    {m : Tree} {pre post : List Token} {range : Span}
    (h : Tree.Holds (.node kind parts) q m pre post) (hm : m.tokens ≠ [])
    (hlt : start + Token.widthAll pre + Trivia.width m.leading < range.start) :
    (Node.mk kind parts start path).span ≠ range := by
  intro heq
  have htokens : Tree.tokensAll parts = pre ++ (m.tokens ++ post) := by simpa using h.tokens_eq
  have hparts : Tree.tokensAll parts ≠ [] := by simp [htokens, hm]
  have hle := span_start_of_holds h hm
  rw [span_eq hparts] at heq
  rw [← heq] at hlt
  simp only [Span.ofLength, leading, tree_mk] at hlt
  omega

/-- A child with some text in front of it is found, at any depth, by its span. -/
theorem findIn_of_holds {p : Node → Bool} {kind : NodeKind} {before after : List Tree}
    {t : Tree} {n : Node} {q path : List Nat} {start : Nat} {pre post : List Token}
    (h : Tree.Holds t q (.node kind (before ++ n.tree :: after)) pre post)
    (hn : 0 < n.text.utf8ByteSize) (hp : p n = true)
    (hpath : n.path = path ++ (q ++ [before.length]))
    (hstart : n.start = start + Token.widthAll pre + Tree.widthAll before)
    (hfirst : Trivia.width (Tree.node kind (before ++ n.tree :: after)).leading <
      Tree.widthAll before + Trivia.width n.leading) :
    findIn n.span p path start t = some n := by
  have hne : n.tree.tokens ≠ [] := Tree.tokens_ne_nil_of_text hn
  have hspan := span_eq hne
  generalize hm : Tree.node kind (before ++ n.tree :: after) = m at h hfirst
  have hmne : m.tokens ≠ [] := by
    rw [← hm]
    simp [hne]
  -- Every node on the way starts in front of the one that is looked for.
  have hlt : start + Token.widthAll pre + Trivia.width m.leading < n.span.start := by
    rw [hspan]
    simp only [Span.ofLength]
    omega
  induction h generalizing path start with
  | here =>
    cases hm
    have hdiffer : (Node.mk kind (before ++ n.tree :: after) start path).span ≠ n.span :=
      span_ne_of_holds .here hmne hlt
    have hself : Tree.Holds n.tree [] n.tree [] [] := .here
    have hthis : Node.mk n.kind n.parts (start + Tree.widthAll before)
        (path ++ [0 + before.length]) = n := by
      have hstart' : start + Tree.widthAll before = n.start := by simpa using hstart.symm
      have hpath' : path ++ [0 + before.length] = n.path := by simpa using hpath.symm
      rw [hstart', hpath']
    rw [findIn, if_neg (by simp [hdiffer]), findAmong_enter before after hself hn, tree, findIn,
      hthis, if_pos (by simp [hp])]
    rw [hspan, hstart]
    simp [leading, text]
  | @inside k us after' u m q pre post h ih =>
    have hdiffer : (Node.mk k (us ++ u :: after') start path).span ≠ n.span :=
      span_ne_of_holds h.inside hmne hlt
    rw [Token.widthAll_append, ← Tree.widthAll_eq] at hlt hstart
    rw [findIn, if_neg (by simp [hdiffer])]
    subst hm
    have hin : Tree.Holds (.node kind (before ++ n.tree :: after)) [before.length] n.tree _ _ :=
      .inside .here
    rw [findAmong_enter us after' (h.trans hin) hn]
    · refine ih ?_ ?_ rfl hfirst hmne ?_
      · simp [hpath]
      · omega
      · omega
    · rw [hspan, hstart, List.append_nil, Token.widthAll_append, ← Tree.widthAll_eq]
      simp only [leading, text, Nat.add_assoc]

end Node

end PluginLint
