import PluginLint.Proofs.Trees.Layout

/-!
# Trees that remember their widths

A node that remembers how wide it is spares a search the counting. A node to be replaced is looked
for by where it starts and by its being the very one, down the parts around its span. The first such
node in the order of the text is found, and nothing else changes; the nodes around it are made anew
and remember their new widths.
-/
namespace PluginLint

/-- A tree whose nodes remember how wide they are. -/
inductive Measured where
  | node (kind : NodeKind) (width : Nat) (parts : List Measured)
  | leaf (token : Token)

namespace Measured

/-- The width as it is remembered. -/
def width : Measured → Nat
  | .node _ width _ => width
  | .leaf token => token.width

/-- A node around parts. What they remember is summed up once. -/
def make (kind : NodeKind) (parts : List Measured) : Measured :=
  .node kind (total width parts) parts

/- Measuring a tree. -/
mutual

/-- The tree with every width remembered. -/
def ofTree : Tree → Measured
  | .node kind parts => make kind (ofTrees parts)
  | .leaf token => .leaf token

/-- The same for a list of trees. -/
def ofTrees : List Tree → List Measured
  | [] => []
  | t :: ts => ofTree t :: ofTrees ts

end

/- Looking for the node to replace. -/
mutual

/-- The tree with `new` in place of the node that starts where `range` does and stands at one of the
paths of which `here` says that they lead to the very node. -/
def exchange? (here : List Nat → Bool) (range : Span) (new : Measured) (path : List Nat)
    (start : Nat) : Measured → Option Measured
  | .node kind _ parts =>
    if start == range.start && here path then some new
    else (exchangeAmong? here range new path start 0 parts).map (make kind)
  | .leaf _ => none

/-- The same among the parts of a node. Only parts around the range are looked into, and none behind
the first one that starts behind the start of the range. -/
def exchangeAmong? (here : List Nat → Bool) (range : Span) (new : Measured) (path : List Nat)
    (start i : Nat) : List Measured → Option (List Measured)
  | [] => none
  | t :: ts =>
    let full := Span.ofLength start t.width
    match if full.contains range then exchange? here range new (path ++ [i]) start t else none with
    | some t' => some (t' :: ts)
    | none =>
      if range.start < start then none
      else (exchangeAmong? here range new path full.stop (i + 1) ts).map (t :: ·)

end

@[simp] theorem ofTree_node (kind : NodeKind) (parts : List Tree) :
    ofTree (.node kind parts) = make kind (ofTrees parts) := by rw [ofTree]

@[simp] theorem ofTree_leaf (token : Token) : ofTree (.leaf token) = .leaf token := by rw [ofTree]

@[simp] theorem ofTrees_nil : ofTrees [] = [] := by rw [ofTrees]

@[simp] theorem ofTrees_cons (t : Tree) (ts : List Tree) :
    ofTrees (t :: ts) = ofTree t :: ofTrees ts := by rw [ofTrees]

/- What is remembered is the width. -/
mutual

theorem width_ofTree : ∀ t : Tree, (ofTree t).width = t.width
  | .node kind parts => by
    rw [ofTree_node, make, width, total_ofTrees, Tree.width_node]
  | .leaf token => by rw [ofTree_leaf, width, Tree.width_leaf]

theorem total_ofTrees : ∀ ts : List Tree, total width (ofTrees ts) = Tree.widthAll ts
  | [] => by simp
  | t :: ts => by
    rw [ofTrees_cons, total_cons, width_ofTree t, total_ofTrees ts, Tree.widthAll_cons]

end

/-! ### The search -/

section Search

variable {here : List Nat → Bool} {range : Span} {new : Tree}

/-- A node is the one to replace. -/
def picks (here : List Nat → Bool) (range : Span) (m : Node) : Bool :=
  m.start == range.start && here m.path

/-- Where no node is the one to replace nothing is found. -/
theorem exchange?_eq_none {t : Tree} {path : List Nat} {start : Nat} {new : Measured}
    (h : (Node.nodesOf path start t).find? (picks here range) = none) :
    exchange? here range new path start (ofTree t) = none := by
  induction t using Tree.induct generalizing path start with
  | leaf token => rw [ofTree_leaf, exchange?]
  | node kind parts ih =>
    have hparts : ∀ start i, (Node.nodesOfAll path start i parts).find? (picks here range) = none →
        exchangeAmong? here range new path start i (ofTrees parts) = none := by
      refine Tree.along parts (fun start i _ => ?_) fun u us hmem hrest start i hnone => ?_
      · rw [ofTrees_nil, exchangeAmong?]
      · rw [Node.nodesOfAll, List.find?_append, Option.or_eq_none_iff] at hnone
        have hu := ih u hmem hnone.1
        have hus := hrest _ _ hnone.2
        rw [ofTrees_cons, exchangeAmong?]
        simp only [hu, ite_self, width_ofTree, Span.ofLength, hus, Option.map_none]
    rw [Node.nodesOf, List.find?_cons] at h
    split at h
    · cases h
    · rename_i hself
      have hhere : (start == range.start && here path) = false := by simpa [picks] using hself
      rw [ofTree_node, make, exchange?, if_neg (by simp [hhere]),
        hparts start 0 h, Option.map_none]

/-- Nodes of a tree stand between its ends. -/
theorem bounds_of_mem_nodesOf {path : List Nat} {start : Nat} {t : Tree} {m : Node}
    (h : m ∈ Node.nodesOf path start t) :
    start ≤ m.start ∧ m.start + m.width ≤ start + t.width := by
  cases t with
  | leaf token => simp [Node.nodesOf] at h
  | node kind parts =>
    have hbounds := Node.bounds_of_mem_descendants (x := ⟨kind, parts, start, path⟩) h
    rwa [Tree.width_node]

/-- The search goes into the part in which the node stands, and not behind it. -/
theorem exchangeAmong?_of_first {us : List Tree} {n : Node} {path : List Nat} {start i : Nat}
    (hrange : n.fullSpan = range)
    (hparts : ∀ u ∈ us, ∀ path start,
      (Node.nodesOf path start u).find? (picks here range) = some n →
      ∃ q u', n.path = path ++ q ∧ Tree.replaceAt new q u = some u' ∧
        exchange? here range (ofTree new) path start (ofTree u) = some (ofTree u'))
    (h : (Node.nodesOfAll path start i us).find? (picks here range) = some n) :
    ∃ before u after q u', us = before ++ u :: after ∧ n.path = path ++ (i + before.length) :: q ∧
      Tree.replaceAt new q u = some u' ∧
      exchangeAmong? here range (ofTree new) path start i (ofTrees us) =
        some (ofTrees (before ++ u' :: after)) := by
  induction us generalizing start i with
  | nil => simp [Node.nodesOfAll] at h
  | cons u us ih =>
    rw [List.forall_mem_cons] at hparts
    rw [Node.nodesOfAll, List.find?_append] at h
    cases hu : (Node.nodesOf (path ++ [i]) start u).find? (picks here range) with
    | some m =>
      rw [hu, Option.some_or, Option.some.injEq] at h
      subst h
      obtain ⟨q, u', hpath, hu', hexchange⟩ := hparts.1 _ _ hu
      have hcontains : (Span.ofLength start (ofTree u).width).contains range = true := by
        have hbounds := bounds_of_mem_nodesOf (List.mem_of_find?_eq_some hu)
        rw [width_ofTree, ← hrange, Span.contains, Bool.and_eq_true, decide_eq_true_iff,
          decide_eq_true_iff]
        exact hbounds
      refine ⟨[], u, us, q, u', rfl, by simp [hpath], hu', ?_⟩
      rw [ofTrees_cons, exchangeAmong?]
      simp only [hcontains, if_true, hexchange, List.nil_append, ofTrees_cons]
    | none =>
      rw [hu, Option.none_or] at h
      obtain ⟨before, v, after, q, v', rfl, hpath, hv', hexchange⟩ := ih hparts.2 h
      have hnone : exchange? here range (ofTree new) (path ++ [i]) start (ofTree u) = none :=
        exchange?_eq_none hu
      -- The node stands further back, so that the search does not stop here.
      have hgoes : ¬range.start < start := by
        obtain ⟨front, w, back, -, hw⟩ := Node.mem_nodesOfAll (List.mem_of_find?_eq_some h)
        have hbounds := bounds_of_mem_nodesOf hw
        have hstart : range.start = n.start := by rw [← hrange]; rfl
        omega
      refine ⟨u :: before, v, after, q, v', rfl, ?_, hv', ?_⟩
      · rw [hpath, List.length_cons, Nat.add_assoc, Nat.add_comm 1]
      · rw [ofTrees_cons, exchangeAmong?]
        simp only [hnone, ite_self, if_neg hgoes, width_ofTree, Span.ofLength, hexchange,
          Option.map_some, List.cons_append, ofTrees_cons]

/-- The first node that is the one to replace is found, and replaced at its path. -/
theorem exchange?_of_first {t : Tree} {n : Node} {path : List Nat} {start : Nat}
    (hrange : n.fullSpan = range)
    (h : (Node.nodesOf path start t).find? (picks here range) = some n) :
    ∃ q t', n.path = path ++ q ∧ Tree.replaceAt new q t = some t' ∧
      exchange? here range (ofTree new) path start (ofTree t) = some (ofTree t') := by
  induction t using Tree.induct generalizing path start with
  | leaf token => simp [Node.nodesOf] at h
  | node kind parts ih =>
    rw [Node.nodesOf, List.find?_cons] at h
    split at h
    · rename_i hself
      cases h
      have hhere : (start == range.start && here path) = true := hself
      refine ⟨[], new, by simp, by rw [Tree.replaceAt], ?_⟩
      rw [ofTree_node, make, exchange?, if_pos hhere]
    · rename_i hself
      have hhere : (start == range.start && here path) = false := by simpa [picks] using hself
      obtain ⟨before, u, after, q, u', rfl, hpath, hu', hexchange⟩ :=
        exchangeAmong?_of_first hrange (fun u hu _ _ => ih u hu) h
      refine ⟨before.length :: q, .node kind (before ++ u' :: after), by simp [hpath], ?_, ?_⟩
      · rw [Tree.replaceAt, Tree.changeAt_append, hu', Option.map_some, Option.map_some]
      · rw [ofTree_node, make, exchange?, if_neg (by simp [hhere]), hexchange, Option.map_some,
          ofTree_node]

end Search

end Measured

end PluginLint
