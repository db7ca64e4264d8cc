import PluginLint.Proofs.Trees.Layout

/-!
# Looking for a node by its span

The search for a span goes down one child per level and never comes back. Nothing is missed by that:
what it is after takes up room, and of all children of a node only one has that room in it. A node
comes before those below it, so of several nodes with one span the outermost is found.
-/
namespace PluginLint

namespace Node

/-! ### The order of the nodes -/

/-- Takes nodes from a stack, each replaced by its children. -/
def popAll : List Node → List Node
  | [] => []
  | n :: stack => n :: popAll (n.childNodes ++ stack)
termination_by stack => total size stack
decreasing_by
  have := total_size_childNodes n
  simp only [total_append, total_cons]
  omega

/-- The nodes below a node come in the order in which a stack gives them out. -/
theorem popAll_eq (stack : List Node) : popAll stack = stack.flatMap descendants := by
  induction stack using popAll.induct with
  | case1 => rw [popAll, List.flatMap_nil]
  | case2 n stack ih =>
    rw [popAll, ih, List.flatMap_append, List.flatMap_cons, descendants_eq, List.cons_append]

/-! ### One step of the search -/

/-- Where a search goes on: the node has room, and the span lies in it. -/
def around (range : Span) (n : Node) : Bool := n.fullSpan.contains range && !n.fullSpan.isEmpty

theorem around_iff {range : Span} {n : Node} : around range n = true ↔
    n.start ≤ range.start ∧ range.stop ≤ n.start + n.width ∧ 0 < n.width := by
  have hcontains : n.fullSpan.contains range = true ↔
      n.start ≤ range.start ∧ range.stop ≤ n.start + n.width := by
    rw [Span.contains, Bool.and_eq_true, decide_eq_true_iff, decide_eq_true_iff]
    rfl
  rw [around, Bool.and_eq_true, hcontains, and_assoc, Span.isEmpty, fullSpan, Span.length_ofLength]
  simp [Nat.pos_iff_ne_zero]

/-- The parts are looked through for the first node around the span. -/
theorem findAmong_eq (range : Span) (p : Node → Bool) (path : List Nat) (start i : Nat)
    (parts : List Tree) :
    findAmong range p path start i parts =
      (((place path start i parts).filterMap Element.node?).find? (around range)).bind
        fun c => c.findNode? range p := by
  induction parts generalizing start i with
  | nil => simp [findAmong, place]
  | cons t ts ih =>
    cases t with
    | leaf token => rw [findAmong, place, List.filterMap_cons_none rfl, ih]
    | node kind inner =>
      rw [findAmong, place, List.filterMap_cons]
      simp only [Element.node?, List.find?_cons]
      cases hin : around range ⟨kind, inner, start, path ++ [i]⟩ with
      | true => exact if_pos hin
      | false => exact (if_neg (Bool.not_eq_true _ ▸ hin)).trans (ih _ _)

/-- A search ends at the node itself or goes on at the first child around the span. -/
theorem findNode?_eq (range : Span) (p : Node → Bool) (n : Node) :
    n.findNode? range p =
      if n.span == range && p n then some n
      else (n.childNodes.find? (around range)).bind fun c => c.findNode? range p := by
  rw [findNode?, tree, findIn, findAmong_eq]
  rfl

/-! ### Nothing is missed -/

/-- The span of a node lies between its ends. -/
theorem span_within (n : Node) :
    n.start ≤ n.span.start ∧ n.span.start ≤ n.span.stop ∧ n.span.stop ≤ n.start + n.width := by
  by_cases h : Tree.tokensAll n.parts = []
  · have hspan : n.span = .ofLength n.start 0 := by
      simp [span, Tree.firstTokenOf?_eq, h]
    simp [hspan, Span.ofLength]
  · have hwidth : n.width = Trivia.width n.leading + n.text.utf8ByteSize +
        Trivia.width (Token.backTrivia (Tree.tokensAll n.parts)) := by
      rw [width, Tree.widthAll_eq, Token.widthAll_eq h, leading, Tree.leading_eq, text,
        Tree.text_eq]
      rfl
    rw [span_eq h]
    simp only [Span.ofLength]
    omega

/-- Around the span of a node there is every node above it. -/
theorem around_of_mem_descendants {n m : Node} {range : Span} (hm : m ∈ n.descendants)
    (hspan : m.span = range) (hrange : range.start < range.stop) : around range n = true := by
  have hbounds := bounds_of_mem_descendants hm
  have hwithin := span_within m
  rw [hspan] at hwithin
  rw [around_iff]
  omega

/-- Of two nodes that stand apart only one is around a span that is not empty. -/
theorem around_unique {c d : Node} {range : Span} (hapart : Apart c d)
    (hrange : range.start < range.stop) (hc : around range c = true) :
    around range d = false := by
  rw [Bool.eq_false_iff]
  intro hd
  rw [around_iff] at hc hd
  unfold Apart at hapart
  omega

/-- Where only one member of a list has a result, it is enough to ask that one. -/
theorem findSome?_eq_bind_find? {α β : Type} {q : α → Bool} {g : α → Option β} {l : List α}
    (hunique : l.Pairwise fun a b => q a = true → q b = false)
    (hnone : ∀ a ∈ l, q a = false → g a = none) : l.findSome? g = (l.find? q).bind g := by
  induction l with
  | nil => rfl
  | cons a l ih =>
    rw [List.pairwise_cons] at hunique
    rw [List.forall_mem_cons] at hnone
    cases hq : q a with
    | false =>
      rw [List.findSome?_cons, List.find?_cons_of_neg (by simp [hq]), hnone.1 hq]
      exact ih hunique.2 hnone.2
    | true =>
      have hrest : l.findSome? g = none :=
        List.findSome?_eq_none_iff.2 fun b hb => hnone.2 b hb (hunique.1 b hb hq)
      rw [List.findSome?_cons, List.find?_cons_of_pos hq, Option.bind_some, hrest]
      cases g a <;> rfl

/-- The search and the list of nodes go down the same children, so they give the same node. -/
theorem findNode?_eq_find? (r : Node) (range : Span) (p : Node → Bool)
    (hrange : range.start < range.stop) :
    r.findNode? range p = r.descendants.find? (fun n => n.span == range && p n) := by
  induction r using induct with
  | step r ih =>
    rw [findNode?_eq, descendants_eq, List.find?_cons]
    cases hr : r.span == range && p r with
    | true => rfl
    | false =>
      have hmissed : ∀ c ∈ r.childNodes, around range c = false →
          c.descendants.find? (fun n => n.span == range && p n) = none := by
        intro c _ hc
        rw [List.find?_eq_none]
        intro n hn hnp
        rw [Bool.and_eq_true, beq_iff_eq] at hnp
        rw [around_of_mem_descendants hn hnp.1 hrange] at hc
        cases hc
      have hone : r.childNodes.Pairwise fun c d => around range c = true →
          around range d = false :=
        (pairwise_apart_place _ _ _ _).imp fun hapart => around_unique hapart hrange
      rw [if_neg Bool.false_ne_true, List.find?_flatMap, findSome?_eq_bind_find? hone hmissed]
      cases hfind : r.childNodes.find? (around range) with
      | none => rfl
      | some c => exact ih c (List.mem_of_find?_eq_some hfind)

/-- A search by a span that is not empty gives the first node with that span and property, counting
each node before those below it, as a stack gives them out. There is no result only if there is no
such node. -/
theorem findNode?_eq_first (r : Node) (range : Span) (p : Node → Bool)
    (hrange : range.start < range.stop) :
    r.findNode? range p = r.descendants.find? (fun n => n.span == range && p n) ∧
      r.descendants = popAll [r] ∧
      (r.findNode? range p = none ↔ ∀ n ∈ r.descendants, n.span = range → p n = false) := by
  have hfirst := findNode?_eq_find? r range p hrange
  refine ⟨hfirst, (List.flatMap_singleton ..).symm.trans (popAll_eq [r]).symm, ?_⟩
  rw [hfirst, List.find?_eq_none]
  simp

/-- A call around a name, behind a node without tokens: the two have one span, and the statement
around them a longer one. -/
theorem findNode?_eq_first_call :
    let name : Tree := .node .identifierName [.leaf ⟨.identifier, "é", [.space], []⟩]
    let call : Node := ⟨.expressionStatement,
      [.node .argumentList [], .node .invocationExpression [name], .leaf ⟨.punct, ";", [], []⟩], 0, []⟩
    (1 < 3 ∧ (call.findNode? ⟨1, 3⟩ fun _ => true) =
        call.descendants.find? (fun n => n.span == ⟨1, 3⟩ && true) ∧
      call.descendants = popAll [call] ∧
      ((call.findNode? ⟨1, 3⟩ fun _ => true) = none ↔
        ∀ n ∈ call.descendants, n.span = ⟨1, 3⟩ → true = false)) ∧
      (call.findNode? ⟨1, 3⟩ fun _ => true).map kind = some .invocationExpression := by
  intro name call
  exact ⟨⟨by decide, findNode?_eq_first call ⟨1, 3⟩ (fun _ => true) (by decide)⟩,
    by decide +kernel⟩

end Node

end PluginLint
