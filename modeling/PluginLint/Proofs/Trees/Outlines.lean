import PluginLint.Proofs.Trees.Nodes

/-!
# Outlines

A rule about bodies sees little of a node: the kinds of its children, and the kinds of what stands
in a child that is a block. Nodes with an outline of some form are counted over a whole tree. Other
trivia changes no count, and a change further down changes only what is counted below the node
around it.
-/
namespace PluginLint

/-- What is seen of a child: its kind and, for a block, the kinds of its own children. -/
structure Outline where
  kind : NodeKind
  inner : List NodeKind
  deriving DecidableEq, Repr

namespace Tree

def kind? : Tree → Option NodeKind
  | .node kind _ => some kind
  | .leaf _ => none

/-- What is seen of a part; of a token nothing. -/
def outline? : Tree → Option Outline
  | .node kind parts => some ⟨kind, if kind = .block then parts.filterMap kind? else []⟩
  | .leaf _ => none

/-- What is seen of the parts of a node. -/
def outlines (parts : List Tree) : List Outline := parts.filterMap outline?

/- Counting by outline. -/
mutual

/-- The number of inner nodes whose kind and outline are of some form. -/
def count (S : NodeKind → List Outline → Bool) : Tree → Nat
  | .node kind parts => (S kind (outlines parts)).toNat + countAll S parts
  | .leaf _ => 0

/-- The number of such nodes in a list of trees. -/
def countAll (S : NodeKind → List Outline → Bool) : List Tree → Nat
  | [] => 0
  | t :: ts => count S t + countAll S ts

end

variable {S : NodeKind → List Outline → Bool}

@[simp] theorem count_node (kind : NodeKind) (parts : List Tree) :
    count S (node kind parts) = (S kind (outlines parts)).toNat + countAll S parts := by rw [count]

@[simp] theorem count_leaf (t : Token) : count S (leaf t) = 0 := by rw [count]

@[simp] theorem countAll_nil : countAll S [] = 0 := by rw [countAll]

@[simp] theorem countAll_cons (t : Tree) (ts : List Tree) :
    countAll S (t :: ts) = count S t + countAll S ts := by rw [countAll]

@[simp] theorem countAll_append (ts us : List Tree) :
    countAll S (ts ++ us) = countAll S ts + countAll S us := by
  induction ts with
  | nil => simp
  | cons t ts ih => simp [ih, Nat.add_assoc]

/-- Tokens do not count. -/
theorem countAll_filter (ts : List Tree) : countAll S (ts.filter isNode) = countAll S ts := by
  induction ts with
  | nil => rfl
  | cons t ts ih =>
    cases t with
    | node kind parts => rw [List.filter_cons_of_pos rfl, countAll_cons, countAll_cons, ih]
    | leaf token =>
      rw [List.filter_cons_of_neg (by simp [isNode]), countAll_cons, count_leaf, ih, Nat.zero_add]

/-- Counting over a tree is counting in the list of its nodes. -/
theorem countP_nodesOf (path : List Nat) (start : Nat) (t : Tree) :
    (Node.nodesOf path start t).countP (fun n => S n.kind (outlines n.parts)) = t.count S := by
  induction t using Tree.induct generalizing path start with
  | leaf token => simp [Node.nodesOf]
  | node kind parts ih =>
    have hall : ∀ start i,
        (Node.nodesOfAll path start i parts).countP (fun n => S n.kind (outlines n.parts)) =
          countAll S parts := by
      refine along parts (by simp [Node.nodesOfAll]) fun u us hu hrest start i => ?_
      rw [Node.nodesOfAll, List.countP_append, ih u hu, hrest, countAll_cons]
    rw [Node.nodesOf, List.countP_cons, hall, count_node, Nat.add_comm]
    cases S kind (outlines parts) <;> rfl

/-! ### Other trivia -/

theorem kind?_mapFirst (f : Token → Token) (t : Tree) : (t.mapFirst f).kind? = t.kind? := by
  cases t <;> simp [mapFirst, kind?]

theorem kind?_mapLast (f : Token → Token) (t : Tree) : (t.mapLast f).kind? = t.kind? := by
  cases t <;> simp [mapLast, kind?]

theorem kinds_mapFirstOf (f : Token → Token) (ts : List Tree) :
    (mapFirstOf f ts).filterMap kind? = ts.filterMap kind? := by
  induction ts with
  | nil => simp [mapFirstOf]
  | cons t ts ih =>
    rw [mapFirstOf]
    split
    · rw [List.filterMap_cons, List.filterMap_cons, kind?_mapFirst]
    · rw [List.filterMap_cons, List.filterMap_cons, ih]

theorem kinds_mapLastOf (f : Token → Token) (ts : List Tree) :
    (mapLastOf f ts).filterMap kind? = ts.filterMap kind? := by
  induction ts with
  | nil => simp [mapLastOf]
  | cons t ts ih =>
    rw [mapLastOf]
    split
    · rw [List.filterMap_cons, List.filterMap_cons, ih]
    · split
      · rw [List.filterMap_cons, List.filterMap_cons, kind?_mapLast]
      · rfl

theorem outline?_mapFirst (f : Token → Token) (t : Tree) :
    (t.mapFirst f).outline? = t.outline? := by
  cases t with
  | node kind parts => rw [mapFirst, outline?, outline?, kinds_mapFirstOf]
  | leaf t => simp [mapFirst, outline?]

theorem outline?_mapLast (f : Token → Token) (t : Tree) :
    (t.mapLast f).outline? = t.outline? := by
  cases t with
  | node kind parts => rw [mapLast, outline?, outline?, kinds_mapLastOf]
  | leaf t => simp [mapLast, outline?]

/- A changed first or last token does not change what is seen. -/
mutual

theorem count_mapFirst (f : Token → Token) : ∀ t : Tree, (t.mapFirst f).count S = t.count S
  | .node kind parts => by
    obtain ⟨houtlines, hcount⟩ := countAll_mapFirstOf f parts
    rw [mapFirst, count_node, count_node, houtlines, hcount]
  | .leaf t => by simp [mapFirst]

theorem countAll_mapFirstOf (f : Token → Token) : ∀ ts : List Tree,
    outlines (mapFirstOf f ts) = outlines ts ∧ countAll S (mapFirstOf f ts) = countAll S ts
  | [] => by simp [mapFirstOf]
  | t :: ts => by
    have ht := count_mapFirst f t
    have hts := countAll_mapFirstOf f ts
    unfold outlines at hts ⊢
    rw [mapFirstOf]
    split
    · simp [List.filterMap_cons, outline?_mapFirst, ht]
    · simp [List.filterMap_cons, hts.1, hts.2]

end

mutual

theorem count_mapLast (f : Token → Token) : ∀ t : Tree, (t.mapLast f).count S = t.count S
  | .node kind parts => by
    obtain ⟨houtlines, hcount⟩ := countAll_mapLastOf f parts
    rw [mapLast, count_node, count_node, houtlines, hcount]
  | .leaf t => by simp [mapLast]

theorem countAll_mapLastOf (f : Token → Token) : ∀ ts : List Tree,
    outlines (mapLastOf f ts) = outlines ts ∧ countAll S (mapLastOf f ts) = countAll S ts
  | [] => by simp [mapLastOf]
  | t :: ts => by
    have ht := count_mapLast f t
    have hts := countAll_mapLastOf f ts
    unfold outlines at hts ⊢
    rw [mapLastOf]
    split
    · simp [List.filterMap_cons, hts.1, hts.2]
    · split
      · simp [List.filterMap_cons, outline?_mapLast, ht]
      · simp

end

theorem outline?_withOuterTrivia (front back : List Trivia) (t : Tree) :
    (t.withOuterTrivia front back).outline? = t.outline? := by
  rw [withOuterTrivia, outline?_mapLast, outline?_mapFirst]

theorem count_withOuterTrivia (front back : List Trivia) (t : Tree) :
    (t.withOuterTrivia front back).count S = t.count S := by
  rw [withOuterTrivia, count_mapLast, count_mapFirst]

/-! ### Another child -/

/-- A node other than a block gets another child. Nothing else that counts is seen to change. -/
theorem Holds.count_replaceAt {t t' m new : Tree} {kind : NodeKind} {before after : List Tree}
    {q : List Nat} {pre post : List Token}
    (h : Holds t q (.node kind (before ++ m :: after)) pre post) (hkind : kind ≠ .block)
    (hm : ∃ k us, m = .node k us)
    (ht' : Tree.replaceAt new (q ++ [before.length]) t = some t') :
    t'.outline? = t.outline? ∧
      t'.count S + count S (.node kind (before ++ m :: after)) =
        t.count S + count S (.node kind (before ++ new :: after)) := by
  generalize hP : Tree.node kind (before ++ m :: after) = P at h
  induction h generalizing t' with
  | here =>
    cases hP
    obtain ⟨k, us, rfl⟩ := hm
    rw [List.nil_append, Tree.replaceAt, changeAt_append, Tree.replaceAt] at ht'
    cases ht'
    refine ⟨?_, Nat.add_comm _ _⟩
    simp [outline?, hkind]
  | @inside k us vs u m q pre post h ih =>
    rw [List.cons_append, Tree.replaceAt, changeAt_append] at ht'
    simp only [Option.map_map, Option.map_eq_some_iff, Function.comp_apply] at ht'
    obtain ⟨u', hu', rfl⟩ := ht'
    obtain ⟨houtline, hcount⟩ := ih hu' hP
    have hkinds : u'.kind? = u.kind? := by
      cases u <;> cases u' <;> simp_all [outline?, kind?]
    have houtlines : outlines (us ++ u' :: vs) = outlines (us ++ u :: vs) := by
      simp [outlines, List.filterMap_append, List.filterMap_cons, houtline]
    refine ⟨?_, ?_⟩
    · simp [outline?, List.filterMap_append, List.filterMap_cons, hkinds]
    · rw [count_node, count_node, houtlines]
      simp only [countAll_append, countAll_cons]
      omega

end Tree

namespace Node

/-- What is seen of a node in place. -/
def outline (n : Node) : Outline :=
  ⟨n.kind, if n.kind = .block then n.childNodes.map kind else []⟩

/-- What tokens do not have is looked for in the children only. -/
theorem filterMap_parts {β : Type} {g : Tree → Option β} (hg : ∀ t, g (.leaf t) = none) (n : Node) :
    n.parts.filterMap g = n.childNodes.filterMap fun c => g c.tree := by
  have hnodes : ∀ parts : List Tree, (parts.filter Tree.isNode).filterMap g = parts.filterMap g := by
    intro parts
    induction parts with
    | nil => rfl
    | cons t ts ih =>
      cases t with
      | node kind us => rw [List.filter_cons_of_pos rfl, List.filterMap_cons, List.filterMap_cons, ih]
      | leaf token =>
        rw [List.filter_cons_of_neg (by simp [Tree.isNode]), List.filterMap_cons_none (hg token), ih]
  rw [← hnodes, ← map_tree_childNodes, List.filterMap_map]
  rfl

theorem outline?_tree (n : Node) : n.tree.outline? = some n.outline := by
  have hkinds := n.filterMap_parts (fun t => show Tree.kind? (.leaf t) = none from rfl)
  rw [tree, Tree.outline?, hkinds, outline, ← List.filterMap_eq_map]
  rfl

theorem outlines_parts (n : Node) : Tree.outlines n.parts = n.childNodes.map outline := by
  have houtlines := n.filterMap_parts (fun t => show Tree.outline? (.leaf t) = none from rfl)
  rw [Tree.outlines, houtlines, ← List.filterMap_eq_map]
  congr 1
  funext c
  exact outline?_tree c

end Node

end PluginLint
