import PluginLint.Proofs.Edits.Asked
import PluginLint.Proofs.Trees.Updates
import Mathlib.Data.List.Induction

/-!
# One pass over a tree

Of the bodies for which an edit is asked, one pass changes the outermost ones that can be changed, and
looks at nothing inside them. What it leaves alone looks as before: a body with comments in the way
has them after the pass, and a body that needed no edit needs none.
-/
namespace PluginLint

namespace Tree

def isStatement : Tree → Bool
  | .node kind _ => kind.isStatement
  | .leaf _ => false

def token? : Tree → Option Token
  | .node _ _ => none
  | .leaf t => some t

/-- The trivia between the braces of a block and its statement. -/
def innerTrivia (parts : List Tree) (statement : Tree) : List Trivia :=
  (((parts.filterMap token?).find? fun t => t.text == "\x7b").map Token.trailing).getD [] ++
    statement.leading ++ statement.trailing ++
    (((parts.filterMap token?).find? fun t => t.text == "\x7d").map Token.leading).getD []

/-- The only statement of a block, with the trivia around the block, unless comments are in the
way. -/
def unwrapped? : Tree → Option Tree
  | .node .block parts =>
    match parts.filter isNode with
    | [statement] =>
      if statement.isStatement && !(innerTrivia parts statement).any Trivia.isComment then
        some (statement.withOuterTrivia (node .block parts).leading (node .block parts).trailing)
      else none
    | _ => none
  | _ => none

/-- A block that is taken apart has a single statement, and no comments around it. -/
theorem exists_of_unwrapped? {t new : Tree} (h : t.unwrapped? = some new) :
    ∃ parts s, t = node .block parts ∧ parts.filter isNode = [s] ∧ s.isStatement = true ∧
      (innerTrivia parts s).any Trivia.isComment = false ∧
      new = s.withOuterTrivia (node .block parts).leading (node .block parts).trailing := by
  unfold unwrapped? at h
  split at h
  · rename_i parts
    split at h
    · rename_i s hs
      split at h
      · rename_i hready
        cases h
        simp only [Bool.and_eq_true, Bool.not_eq_true'] at hready
        exact ⟨parts, s, rfl, hs, hready.1, hready.2, rfl⟩
      · cases h
    · cases h
  · cases h

/-- A block around a statement. -/
def wrapped (t : Tree) : Tree :=
  .node .block
    [.leaf ⟨.punct, "\x7b", t.leading, [.space]⟩, t.withoutOuterTrivia,
     .leaf ⟨.punct, "\x7d", [.space], t.trailing⟩]

/-- What a fix puts in place, if it can be made. -/
def replacement? (fix : Fix) (t : Tree) : Option Tree :=
  match fix with
  | .addBraces => some t.wrapped
  | .removeBraces => t.unwrapped?

/-! ### The trivia around a tree -/

/-- The same trivia around, and something in between. -/
structure SameOutside (t u : Tree) : Prop where
  leading : u.leading = t.leading
  trailing : u.trailing = t.trailing
  nonempty : u.tokens ≠ []

theorem leading_cons {kind : NodeKind} {t : Tree} {ts : List Tree} (h : t.tokens ≠ []) :
    (node kind (t :: ts)).leading = t.leading := by
  rw [leading_eq, leading_eq, tokens_node, tokensAll_cons, Token.frontTrivia_append h]

theorem trailing_append_singleton {kind : NodeKind} {ts : List Tree} {t : Tree}
    (h : t.tokens ≠ []) : (node kind (ts ++ [t])).trailing = t.trailing := by
  rw [trailing_eq, trailing_eq, tokens_node, tokensAll_append, tokensAll_cons, tokensAll_nil,
    List.append_nil, Token.backTrivia_append h]

/-- Parts with the same trivia around them make nodes with the same trivia around them. -/
theorem sameOutside_node {kind : NodeKind} {ts us : List Tree}
    (h : List.Forall₂ SameOutside ts us) (hne : ts ≠ []) (hts : ∀ t ∈ ts, t.tokens ≠ []) :
    SameOutside (node kind ts) (node kind us) := by
  have hfirst : (node kind us).leading = (node kind ts).leading ∧ (node kind us).tokens ≠ [] := by
    cases h with
    | nil => exact absurd rfl hne
    | cons htu hrest =>
      rw [leading_cons htu.nonempty, leading_cons (hts _ List.mem_cons_self), htu.leading]
      exact ⟨rfl, by simp [htu.nonempty]⟩
  refine ⟨hfirst.1, ?_, hfirst.2⟩
  obtain ⟨init, last, rfl⟩ := List.eq_nil_or_concat' ts |>.resolve_left hne
  obtain ⟨vs, _, rfl, -, hlast⟩ := exists_append_of_forall₂ h
  cases hlast with
  | cons htu hnil =>
    cases hnil
    rw [trailing_append_singleton htu.nonempty, trailing_append_singleton (hts _ (by simp)),
      htu.trailing]

end Tree

namespace Node

theorem map_token_place (path : List Nat) (start i : Nat) (parts : List Tree) :
    ((place path start i parts).filterMap Element.token?).map PlacedToken.token =
      parts.filterMap Tree.token? := by
  induction parts generalizing start i with
  | nil => simp [place]
  | cons t ts ih =>
    cases t with
    | node kind inner =>
      rw [place, List.filterMap_cons_none rfl, List.filterMap_cons_none rfl, ih]
    | leaf token => simp [place, Element.token?, Tree.token?, ih]

theorem map_token_token? (n : Node) (text : String) :
    (n.token? text).map PlacedToken.token =
      (n.parts.filterMap Tree.token?).find? fun t => t.text == text := by
  rw [← map_token_place n.path n.start 0, List.find?_map]
  rfl

theorem innerTrivia_eq (block s : Node) :
    block.innerTrivia s = Tree.innerTrivia block.parts s.tree := by
  simp only [innerTrivia, Tree.innerTrivia, ← map_token_token?, Option.map_map]
  rfl

/-- Where a node stands makes no difference to what a fix puts in its place. -/
theorem toOption_replacement (fix : Fix) (n : Node) :
    (SourceFile.replacement fix n).toOption = n.tree.replacement? fix := by
  cases fix with
  | addBraces => rfl
  | removeBraces =>
    have htrees := map_tree_childNodes n
    obtain ⟨kind, parts, start, path⟩ := n
    by_cases hk : kind = .block
    · subst hk
      simp only [SourceFile.replacement, unwrapped, Tree.replacement?, tree, if_true,
        singleStatement?, Tree.unwrapped?]
      rw [← htrees]
      obtain _ | ⟨s, _ | ⟨s', rest⟩⟩ := (Node.mk .block parts start path).childNodes
      · rfl
      · by_cases hs : s.kind.isStatement = true
        · simp only [hs, if_true, List.map_cons, List.map_nil, Tree.isStatement, tree,
            Bool.true_and, innerTrivia_eq]
          split <;> simp_all [Except.toOption, leading, trailing, tree]
        · simp [hs, Tree.isStatement, tree, Except.toOption]
      · rfl
    · cases kind <;> first | rfl | exact absurd rfl hk

theorem replacement?_eq_some {fix : Fix} {n : Node} {new : Tree} :
    n.tree.replacement? fix = some new ↔ SourceFile.replacement fix n = .ok new := by
  rw [← toOption_replacement]
  cases SourceFile.replacement fix n <;> simp [Except.toOption]

end Node

namespace Rules

/-- The fix that the two rules about braces ask for at a body, from what they see of it. -/
def askedFix? (kind : NodeKind) (body : Outline) : Option Fix :=
  if body.kind.isStatement && !(kind == .elseClause && body.kind == .ifStatement) then
    if isBare body then some .addBraces
    else if noBracesForControlFlow.triggeredBy kind && isBracedJump body then some .removeBraces
    else none
  else none

/-- A fix is asked for at the body of a node. -/
def isAsked (kind : NodeKind) (body : Tree) : Bool := body.outline?.any fun o =>
  (askedFix? kind o).isSome

/-- What is put in place of the body of a node, if a fix is asked for and can be made. -/
def repaired? (kind : NodeKind) (body : Tree) : Option Tree :=
  (body.outline?.bind (askedFix? kind)).bind body.replacement?

/-- A fix is asked for at the body of a node and can be made. -/
def isFixable (kind : NodeKind) (body : Tree) : Bool := (repaired? kind body).isSome

/-! ### The pass -/

/-- The kind of a node that waits for its body. -/
def waiting (kind : NodeKind) : Option NodeKind :=
  if controlKinds.contains kind then some kind else none

/-- The first statement is the body; behind it none is waited for. -/
def stillWaiting (waits : Option NodeKind) (t : Tree) : Option NodeKind :=
  if t.isStatement then none else waits

/- Repairing the outermost bodies. -/
mutual

/-- The tree with a repaired body wherever one can be made, and nothing changed inside it. -/
def repairedOnce : Tree → Tree
  | .node kind parts => .node kind (repairedOnceAll (waiting kind) parts)
  | .leaf t => .leaf t

/-- The same for the parts of a node that may wait for its body. -/
def repairedOnceAll (waits : Option NodeKind) : List Tree → List Tree
  | [] => []
  | t :: ts =>
    (waits.bind fun kind => repaired? kind t).getD (repairedOnce t) ::
      repairedOnceAll (stillWaiting waits t) ts

end

@[simp] theorem repairedOnce_leaf (token : Token) :
    repairedOnce (.leaf token) = .leaf token := by rw [repairedOnce]

@[simp] theorem repairedOnce_node (kind : NodeKind) (parts : List Tree) :
    repairedOnce (.node kind parts) = .node kind (repairedOnceAll (waiting kind) parts) := by
  rw [repairedOnce]

@[simp] theorem repairedOnceAll_nil (waits : Option NodeKind) : repairedOnceAll waits [] = [] := by
  rw [repairedOnceAll]

theorem repairedOnceAll_none (ts : List Tree) :
    repairedOnceAll none ts = ts.map repairedOnce := by
  induction ts with
  | nil => simp
  | cons t ts ih => simp [repairedOnceAll, stillWaiting, ih]

/-- A part of a node is a body that is repaired, or nothing is changed but inside of it. -/
theorem repairedOnceAll_cons (waits : Option NodeKind) (t : Tree) (ts : List Tree) :
    (∃ kind new, waits = some kind ∧ repaired? kind t = some new ∧
      repairedOnceAll waits (t :: ts) = new :: repairedOnceAll (stillWaiting waits t) ts) ∨
    (∀ kind, waits = some kind → repaired? kind t = none) ∧
      repairedOnceAll waits (t :: ts) =
        repairedOnce t :: repairedOnceAll (stillWaiting waits t) ts := by
  rw [repairedOnceAll]
  cases h : waits.bind fun kind => repaired? kind t with
  | some new =>
    obtain ⟨kind, hwaits, hnew⟩ := Option.bind_eq_some_iff.1 h
    exact .inl ⟨kind, new, hwaits, hnew, rfl⟩
  | none => exact .inr ⟨fun kind hwaits => by simpa [hwaits] using h, rfl⟩

/-! ### What is put in place -/

/-- A body is repaired by one of the two fixes. -/
inductive Repaired : Tree → Tree → Prop
  | wrapped {t : Tree} {o : Outline} (houtline : t.outline? = some o)
    (hstatement : o.kind.isStatement = true) (hbare : isBare o = true) : Repaired t t.wrapped
  | unwrapped {parts : List Tree} {s : Tree} {o : Outline} (hparts : parts.filter Tree.isNode = [s])
    (houtline : s.outline? = some o) (hjump : isJump o.kind = true)
    (hcomments : (Tree.innerTrivia parts s).any Trivia.isComment = false) :
    Repaired (.node .block parts)
      (s.withOuterTrivia (Tree.node .block parts).leading (Tree.node .block parts).trailing)

theorem filterMap_kind?_filter (parts : List Tree) :
    (parts.filter Tree.isNode).filterMap Tree.kind? = parts.filterMap Tree.kind? := by
  induction parts with
  | nil => rfl
  | cons t ts ih =>
    cases t with
    | node kind inner => rw [List.filter_cons_of_pos rfl, List.filterMap_cons, List.filterMap_cons, ih]
    | leaf token =>
      rw [List.filter_cons_of_neg (by simp [Tree.isNode]), List.filterMap_cons_none rfl, ih]

theorem repaired_of_eq_some {kind : NodeKind} {t new : Tree} (h : repaired? kind t = some new) :
    Repaired t new := by
  obtain ⟨fix, hfix, hnew⟩ := Option.bind_eq_some_iff.1 h
  obtain ⟨o, houtline, hasked⟩ := Option.bind_eq_some_iff.1 hfix
  unfold askedFix? at hasked
  split at hasked
  · rename_i hstatement
    simp only [Bool.and_eq_true] at hstatement
    split at hasked
    · rename_i hbare
      cases hasked
      cases hnew
      exact .wrapped houtline hstatement.1 hbare
    · split at hasked
      · rename_i hbraced
        cases hasked
        obtain ⟨parts, s, rfl, hs, hstatement', hcomments, rfl⟩ := Tree.exists_of_unwrapped? hnew
        cases houtline
        simp only [Bool.and_eq_true, isBracedJump, if_true] at hbraced
        have hkinds := filterMap_kind?_filter parts
        cases s with
        | node k inner =>
          rw [hs] at hkinds
          have hjump := hbraced.2.2
          rw [← hkinds] at hjump
          exact .unwrapped hs rfl (by simpa [Tree.kind?] using hjump) hcomments
        | leaf token => cases hstatement'
      · cases hasked
  · cases hasked

namespace Repaired

variable {t new : Tree}

theorem isStatement (h : Repaired t new) : t.isStatement = true ∧ new.isStatement = true := by
  cases h with
  | wrapped houtline hstatement hbare =>
    cases t with
    | node k inner =>
      cases houtline
      exact ⟨hstatement, rfl⟩
    | leaf token => cases houtline
  | @unwrapped parts s o hparts houtline hjump hcomments =>
    cases s with
    | node k inner =>
      cases houtline
      exact ⟨rfl, isStatement_of_isJump hjump⟩
    | leaf token => cases houtline

/-- With a repaired body neither rule finds fault. -/
theorem askedFix?_eq_none (h : Repaired t new) (kind : NodeKind) :
    new.outline?.bind (askedFix? kind) = none := by
  have hclean : ∃ o, new.outline? = some o ∧ isBare o = false ∧ isBracedJump o = false := by
    cases h with
    | @wrapped _ o houtline hstatement hbare =>
      cases t with
      | node k inner =>
        cases houtline
        simp only [isBare, Bool.not_eq_true', Bool.or_eq_false_iff] at hbare
        exact ⟨_, Node.outline?_wrapped ⟨k, inner, 0, []⟩, rfl, by simp [isBracedJump, hbare.2]⟩
      | leaf token => cases houtline
    | @unwrapped parts s o hparts houtline hjump hcomments =>
      refine ⟨o, (Tree.outline?_withOuterTrivia _ _ _).trans houtline, by simp [isBare, hjump], ?_⟩
      have hblock : (o.kind == .block) = false := by
        rw [beq_eq_false_iff_ne]
        intro hk
        rw [hk] at hjump
        exact absurd hjump (by decide)
      rw [isBracedJump, hblock, Bool.false_and]
  obtain ⟨o, ho, hbare, hbraced⟩ := hclean
  rw [ho, Option.bind_some, askedFix?, hbare, hbraced]
  simp

theorem repaired?_eq_none (h : Repaired t new) (kind : NodeKind) : repaired? kind new = none := by
  rw [repaired?, h.askedFix?_eq_none, Option.bind_none]

/-- The trivia around a body stays. -/
theorem outerTrivia (h : Repaired t new) (ht : t.Every Formed) :
    Tree.SameOutside t new := by
  cases h with
  | wrapped houtline hstatement hbare =>
    have htokens : t.wrapped.tokens = ⟨.punct, "\x7b", t.leading, [.space]⟩ ::
        (t.withoutOuterTrivia.tokens ++ [⟨.punct, "\x7d", [.space], t.trailing⟩]) := by
      simp [Tree.wrapped]
    refine ⟨?_, ?_, by simp [htokens]⟩
    · rw [Tree.leading_eq, htokens]
      rfl
    · rw [Tree.trailing_eq, htokens, Token.backTrivia, ← List.cons_append, List.getLast?_concat]
      rfl
  | @unwrapped parts s o hparts houtline hjump hcomments =>
    have hmem : s ∈ parts := (List.mem_filter.1 (hparts ▸ List.mem_singleton_self s)).1
    have hne := Tree.tokens_ne_nil_of_formed (Tree.every_of_mem (Tree.every_node.1 ht).2 hmem)
    refine ⟨?_, ?_, ?_⟩
    · rw [Tree.leading_eq, Tree.tokens_withOuterTrivia, Token.frontTrivia_surround _ _ hne]
    · rw [Tree.trailing_eq, Tree.tokens_withOuterTrivia, Token.backTrivia_surround _ _ hne]
    · rw [Tree.tokens_withOuterTrivia]
      exact Token.surround_ne_nil _ _ hne

end Repaired

/-! ### What a pass leaves alone -/

theorem kind?_repairedOnce (t : Tree) : (repairedOnce t).kind? = t.kind? := by
  cases t <;> simp [Tree.kind?]

theorem isStatement_repairedOnce (t : Tree) : (repairedOnce t).isStatement = t.isStatement := by
  cases t <;> simp [Tree.isStatement]

theorem isNode_repairedOnce (t : Tree) : (repairedOnce t).isNode = t.isNode := by
  cases t <;> simp [Tree.isNode]

theorem token?_repairedOnce (t : Tree) : (repairedOnce t).token? = t.token? := by
  cases t <;> simp [Tree.token?]

theorem waiting_block : waiting .block = none := rfl

/-- What is seen of a body stays as it is. -/
theorem outline?_repairedOnce (t : Tree) : (repairedOnce t).outline? = t.outline? := by
  cases t with
  | leaf token => simp
  | node kind parts =>
    rw [repairedOnce_node, Tree.outline?, Tree.outline?]
    by_cases hk : kind = .block
    · subst hk
      have hkinds : Tree.kind? ∘ repairedOnce = Tree.kind? := funext kind?_repairedOnce
      rw [if_pos rfl, if_pos rfl, waiting_block, repairedOnceAll_none, List.filterMap_map, hkinds]
    · rw [if_neg hk, if_neg hk]

theorem stillWaiting_repairedOnce (waits : Option NodeKind) (t : Tree) :
    stillWaiting waits (repairedOnce t) = stillWaiting waits t := by
  rw [stillWaiting, isStatement_repairedOnce, stillWaiting]

theorem Repaired.stillWaiting_eq {t new : Tree} (h : Repaired t new) (waits : Option NodeKind) :
    stillWaiting waits new = none ∧ stillWaiting waits t = none := by
  rw [stillWaiting, stillWaiting, h.isStatement.1, h.isStatement.2]
  exact ⟨rfl, rfl⟩

/-- The trivia around a tree stays. -/
theorem sameOutside_repairedOnce {t : Tree} (ht : t.Every Formed) :
    Tree.SameOutside t (repairedOnce t) := by
  induction t using Tree.induct with
  | leaf token => exact ⟨by simp, by simp, by simp⟩
  | node kind parts ih =>
    obtain ⟨hformed, hparts⟩ := Tree.every_node.1 ht
    have hall : ∀ waits, List.Forall₂ Tree.SameOutside parts (repairedOnceAll waits parts) := by
      refine Tree.along parts (by simp) fun u us hmem hrest waits => ?_
      have hu := Tree.every_of_mem hparts hmem
      rcases repairedOnceAll_cons waits u us with ⟨kind, new, -, hnew, heq⟩ | ⟨-, heq⟩
      · rw [heq]
        exact .cons ((repaired_of_eq_some hnew).outerTrivia hu) (hrest _)
      · rw [heq]
        exact .cons (ih u hmem hu) (hrest _)
    rw [repairedOnce_node]
    exact Tree.sameOutside_node (hall _) hformed.nonempty fun t h =>
      Tree.tokens_ne_nil_of_formed (Tree.every_of_mem hparts h)

/-- The trivia between the braces of a block stays. -/
theorem innerTrivia_repairedOnce {parts : List Tree} {s : Tree} (hs : s.Every Formed) :
    Tree.innerTrivia (parts.map repairedOnce) (repairedOnce s) = Tree.innerTrivia parts s := by
  have htokens : (parts.map repairedOnce).filterMap Tree.token? = parts.filterMap Tree.token? := by
    have hsame : Tree.token? ∘ repairedOnce = Tree.token? := funext token?_repairedOnce
    rw [List.filterMap_map, hsame]
  have hsame := sameOutside_repairedOnce hs
  rw [Tree.innerTrivia, htokens, hsame.leading, hsame.trailing, Tree.innerTrivia]

/-- A body that a pass cannot repair cannot be repaired afterwards. -/
theorem repaired?_repairedOnce {kind : NodeKind} {t : Tree} (ht : t.Every Formed)
    (h : repaired? kind t = none) : repaired? kind (repairedOnce t) = none := by
  unfold repaired? at h ⊢
  rw [outline?_repairedOnce]
  cases hfix : t.outline?.bind (askedFix? kind) with
  | none => rfl
  | some fix =>
    rw [hfix] at h
    cases fix with
    | addBraces => cases h
    | removeBraces =>
      cases t with
      | leaf token => rfl
      | node k parts =>
        by_cases hk : k = .block
        · subst hk
          have hnodes : (parts.map repairedOnce).filter Tree.isNode =
              (parts.filter Tree.isNode).map repairedOnce := by
            have hsame : Tree.isNode ∘ repairedOnce = Tree.isNode := funext isNode_repairedOnce
            rw [List.filter_map, hsame]
          simp only [Option.bind_some, Tree.replacement?, Tree.unwrapped?] at h ⊢
          rw [repairedOnce_node, waiting_block, repairedOnceAll_none]
          dsimp only
          rw [hnodes]
          split at h
          · rename_i s hs
            have hmem : s ∈ parts := (List.mem_filter.1 (hs ▸ List.mem_singleton_self s)).1
            have hsf := Tree.every_of_mem (Tree.every_node.1 ht).2 hmem
            rw [hs, List.map_singleton]
            dsimp only
            rw [innerTrivia_repairedOnce hsf, isStatement_repairedOnce]
            split at h
            · cases h
            · rename_i hrefused
              rw [if_neg hrefused]
          · rename_i hother
            match hlist : parts.filter Tree.isNode with
            | [] => rfl
            | [s] => exact absurd hlist (hother s)
            | _ :: _ :: _ => rfl
        · cases k <;> first | rfl | exact absurd rfl hk

/-! ### The pass as many replacements -/

/-- The kind of a node that waits for its body behind some parts. -/
def awaited? (kind : NodeKind) (before : List Tree) : Option NodeKind :=
  before.foldl stillWaiting (waiting kind)

theorem awaited?_concat (kind : NodeKind) (before : List Tree) (t : Tree) :
    awaited? kind (before ++ [t]) = stillWaiting (awaited? kind before) t := by
  rw [awaited?, awaited?, List.foldl_concat]

theorem awaited?_eq_some {kind kind' : NodeKind} {before : List Tree} :
    awaited? kind before = some kind' ↔
      kind' = kind ∧ controlKinds.contains kind = true ∧
        ∀ t ∈ before, t.isStatement = false := by
  induction before using List.reverseRecOn with
  | nil =>
    rw [awaited?, List.foldl_nil, waiting]
    constructor
    · intro h
      obtain ⟨hcontrol, hkind⟩ := Option.ite_none_right_eq_some.1 h
      exact ⟨(Option.some.inj hkind).symm, hcontrol, by simp⟩
    · rintro ⟨rfl, hcontrol, -⟩
      rw [if_pos hcontrol]
  | append_singleton before t ih =>
    rw [awaited?_concat, stillWaiting]
    by_cases ht : t.isStatement = true
    · rw [if_pos ht]
      simp [ht]
    · rw [if_neg ht, ih]
      simp only [List.forall_mem_append, List.mem_singleton, forall_eq]
      simp [ht]

/-- What is put at the paths of a tree: outside of what is put in place, the bodies that can be
repaired, and nothing else. -/
def Marks (at? : List Nat → Option Tree) (t : Tree) : Prop :=
  ∀ q kind before u after pre post, Tree.Holds t q (.node kind (before ++ u :: after)) pre post →
    (∀ r, r <+: q → at? r = none) →
    at? (q ++ [before.length]) = (awaited? kind before).bind fun kind => repaired? kind u

theorem Marks.inside {at? : List Nat → Option Tree} {kind : NodeKind} {before after : List Tree}
    {u : Tree} (h : Marks at? (.node kind (before ++ u :: after))) (hroot : at? [] = none) :
    Marks (fun q => at? (before.length :: q)) u := by
  intro q k vs v ws pre post hholds hfree
  refine h (before.length :: q) k vs v ws _ _ hholds.inside fun r hr => ?_
  cases r with
  | nil => exact hroot
  | cons i r =>
    obtain ⟨rfl, hrest⟩ := List.cons_prefix_cons.1 hr
    exact hfree r hrest

/-- Replacing the bodies that can be repaired, one after the other, makes the pass. -/
theorem update_eq_repairedOnce {at? : List Nat → Option Tree} {t : Tree} (hroot : at? [] = none)
    (h : Marks at? t) : Tree.update at? t = repairedOnce t := by
  induction t using Tree.induct generalizing at? with
  | leaf token => simp
  | node kind parts ih =>
    have hall : ∀ us before : List Tree, before ++ us = parts →
        Tree.updateAll at? before.length us = repairedOnceAll (awaited? kind before) us := by
      intro us
      induction us with
      | nil => simp
      | cons u us ih' =>
        intro before hparts
        subst hparts
        have hmark : at? [before.length] = (awaited? kind before).bind fun k => repaired? k u :=
          h [] kind before u us [] [] .here fun r hr => by rw [List.prefix_nil.1 hr, hroot]
        have hrest := ih' (before ++ [u]) (by simp)
        rw [awaited?_concat, List.length_append, List.length_singleton] at hrest
        rw [Tree.updateAll_cons, repairedOnceAll, hrest, ← hmark]
        congr 1
        cases hnew : at? [before.length] with
        | none =>
          rw [Option.getD_none]
          exact ih u (by simp) hnew (h.inside hroot)
        | some new =>
          rw [hmark] at hnew
          cases u with
          | node k inner => exact Tree.update_of_some (hmark.trans hnew)
          | leaf token =>
            obtain ⟨k, -, hleaf⟩ := Option.bind_eq_some_iff.1 hnew
            cases hleaf
    rw [Tree.update_node _ _ hroot, repairedOnce_node]
    exact congrArg (Tree.node kind) (hall parts [] rfl)

end Rules

end PluginLint
