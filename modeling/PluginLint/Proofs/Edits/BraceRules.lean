import PluginLint.Proofs.Edits.Replacing
import PluginLint.Proofs.Running
import PluginLint.Proofs.Trees.Outlines
import PluginLint.Rules.Presets

/-!
# The two rules about braces

Both rules look at the body of a node of control flow and see no more of it than its outline. A body
that is found at fault is found again by its span, since the node around it begins with a token of
its own. Its fix gives that node a body with which neither rule finds fault, and no other node is
seen to change: so the finding that was fixed is gone and there is no new one.
-/
namespace PluginLint

namespace Rules

/-- The body to be checked, as far as it is seen. -/
def bodyOutline? (kind : NodeKind) (children : List Outline) : Option Outline :=
  (if controlKinds.contains kind then children.find? fun o => o.kind.isStatement else none).filter
    fun o => !(kind == .elseClause && o.kind == .ifStatement)

/-- A statement without braces that does more than jump away. -/
def isBare (o : Outline) : Bool := !(o.kind == .block || isJump o.kind)

/-- The node has such a body. -/
def seesBareBody (kind : NodeKind) (children : List Outline) : Bool :=
  (bodyOutline? kind children).any isBare

/-- A block with nothing but a jump. -/
def isBracedJump (o : Outline) : Bool :=
  o.kind == .block && match o.inner with
    | [kind] => isJump kind
    | _ => false

/-- The node is an `if` or an `else` with a block that holds nothing but a jump. -/
def seesBracedJump (kind : NodeKind) (children : List Outline) : Bool :=
  noBracesForControlFlow.triggeredBy kind && (bodyOutline? kind children).any isBracedJump

theorem isStatement_of_isJump {kind : NodeKind} (h : isJump kind = true) :
    kind.isStatement = true := by
  cases kind <;> first | rfl | exact absurd h (by decide)

theorem map_outline_checkedBody? (n : Node) :
    (checkedBody? n).map Node.outline = bodyOutline? n.kind (Tree.outlines n.parts) := by
  unfold checkedBody? controlBody? bodyOutline? Node.findChild?
  rw [Node.outlines_parts, List.find?_map]
  split
  · rw [Option.filter_map]
    rfl
  · rfl

theorem length_bareBody (n : Node) :
    (bareBody n).length = (seesBareBody n.kind (Tree.outlines n.parts)).toNat := by
  rw [seesBareBody, ← map_outline_checkedBody?]
  unfold bareBody
  cases checkedBody? n with
  | none => rfl
  | some body =>
    simp only [Option.map_some, Option.any_some, isBare, Node.outline]
    cases body.kind == .block || isJump body.kind <;> rfl

/-- The single statement of a block, seen from outside. -/
theorem isBracedJump_outline (block : Node) :
    isBracedJump block.outline =
      ((block.singleStatement?).bind fun s => jumpWords? s.kind).isSome := by
  unfold isBracedJump Node.outline Node.singleStatement?
  by_cases hk : block.kind = .block
  · simp only [hk, beq_self_eq_true, if_true, Bool.true_and]
    match block.childNodes with
    | [] => rfl
    | [s] =>
      by_cases hs : s.kind.isStatement = true
      · simp [hs, isJump]
      · have hj : isJump s.kind = false := by
          by_contra hj
          exact hs (isStatement_of_isJump (by simpa using hj))
        simp [hs, hj]
    | _ :: _ :: _ => rfl
  · simp [hk]

theorem length_bracedJump (n : Node) (hn : noBracesForControlFlow.triggeredBy n.kind = true) :
    (bracedJump n).length = (seesBracedJump n.kind (Tree.outlines n.parts)).toNat := by
  rw [seesBracedJump, ← map_outline_checkedBody?, hn, Bool.true_and]
  unfold bracedJump
  cases checkedBody? n with
  | none => rfl
  | some block =>
    rw [Option.map_some, Option.any_some, isBracedJump_outline]
    dsimp only
    cases (block.singleStatement?).bind fun s => jumpWords? s.kind <;> rfl

/-! ### Bodies in place -/

/-- A node of control flow and the body that is checked, with the parts around it. -/
structure HasBody (n body : Node) (before after : List Tree) : Prop where
  control : controlKinds.contains n.kind = true
  statement : body.kind.isStatement = true
  parts : n.parts = before ++ body.tree :: after
  path : body.path = n.path ++ [before.length]
  start : body.start = n.start + Tree.widthAll before
  first : ∀ kind inner, .node kind inner ∈ before → kind.isStatement = false
  unchained : (n.kind == .elseClause && body.kind == .ifStatement) = false

theorem hasBody_of_checkedBody? {n body : Node} (h : checkedBody? n = some body) :
    ∃ before after, HasBody n body before after := by
  unfold checkedBody? controlBody? at h
  rw [Option.filter_eq_some_iff] at h
  obtain ⟨hbody, hchain⟩ := h
  split at hbody
  · rename_i hcontrol
    obtain ⟨hs, before, after, hparts, hpath, hstart, hfirst⟩ := Node.find?_place hbody
    refine ⟨before, after, hcontrol, hs, hparts, by simpa using hpath, hstart, hfirst, ?_⟩
    rwa [Bool.not_eq_true'] at hchain
  · cases hbody

namespace HasBody

variable {n body : Node} {before after : List Tree}

theorem kind_ne_root (h : HasBody n body before after) : n.kind ≠ .compilationUnit := by
  intro hk
  have hc := h.control
  rw [hk] at hc
  exact absurd hc (by decide)

theorem kind_ne_block (h : HasBody n body before after) : n.kind ≠ .block := by
  intro hk
  have hc := h.control
  rw [hk] at hc
  exact absurd hc (by decide)

theorem tree_eq (h : HasBody n body before after) :
    n.tree = .node n.kind (before ++ body.tree :: after) := by
  rw [Node.tree, h.parts]

/-- What is seen of a statement in the place of the body. -/
theorem bodyOutline?_eq (h : HasBody n body before after) {t : Tree} {o : Outline}
    (ht : t.outline? = some o) (ho : o.kind.isStatement = true)
    (hchain : (n.kind == .elseClause && o.kind == .ifStatement) = false) :
    bodyOutline? n.kind (Tree.outlines (before ++ t :: after)) = some o := by
  have hbefore : (Tree.outlines before).find? (fun o => o.kind.isStatement) = none := by
    rw [List.find?_eq_none]
    intro u hu
    obtain ⟨t, ht, htu⟩ := List.mem_filterMap.1 hu
    cases t with
    | node kind inner =>
      cases htu
      simpa using h.first kind inner ht
    | leaf token => cases htu
  have hfind : (Tree.outlines (before ++ t :: after)).find? (fun o => o.kind.isStatement) =
      some o := by
    have hsplit : Tree.outlines (before ++ t :: after) =
        Tree.outlines before ++ o :: Tree.outlines after := by
      simp [Tree.outlines, List.filterMap_append, ht]
    rw [hsplit, List.find?_append, hbefore, Option.none_or, List.find?_cons, ho]
  rw [bodyOutline?, if_pos h.control, hfind]
  simp [Option.filter, hchain]

/-- The body stands behind the token with which the node begins. -/
theorem leading_lt (h : HasBody n body before after) (hn : n.tree.Solid) :
    Trivia.width (Tree.node n.kind (before ++ body.tree :: after)).leading <
      Tree.widthAll before + Trivia.width body.leading := by
  have hsolid := hn
  rw [h.tree_eq] at hsolid
  obtain ⟨token, rest, htoken⟩ := (Tree.every_node.1 hsolid.formed).1.headed h.control
  cases before with
  | nil => cases htoken
  | cons t before =>
    cases htoken
    have hpos : 0 < token.text.utf8ByteSize := by
      rw [Nat.pos_iff_ne_zero, ne_eq, String.utf8ByteSize_eq_zero_iff]
      exact hsolid.texts token (by simp)
    rw [Tree.leading_eq]
    simp only [Tree.tokens_node, List.cons_append, Tree.tokensAll_cons, Tree.tokens_leaf,
      Token.frontTrivia, List.head?_cons, Option.map_some, Option.getD_some, Tree.widthAll_cons,
      Tree.width_leaf, Token.width]
    omega

end HasBody

end Rules

namespace SourceFile

open Rules

section body

variable {tokens : List Token} {f : SourceFile} {n body : Node} {before after : List Tree}
  {pre post : List Token}

theorem Stands.of_body (hn : f.Stands n pre post) (hb : HasBody n body before after) :
    f.Stands body (pre ++ Tree.tokensAll before) (Tree.tokensAll after ++ post) := by
  have hholds := hn.holds
  rw [hb.tree_eq] at hholds
  have hin : Tree.Holds (.node n.kind (before ++ body.tree :: after)) [before.length] body.tree
      (Tree.tokensAll before ++ []) ([] ++ Tree.tokensAll after) := .inside .here
  rw [List.append_nil, List.nil_append] at hin
  refine ⟨hb.path ▸ hholds.trans hin, ?_⟩
  rw [hb.start, hn.start, Token.widthAll_append, Tree.widthAll_eq]

/-- The body of a node is found by its span. -/
theorem Parsed.locate_body (hf : Parsed tokens f) (hn : f.Stands n pre post)
    (hb : HasBody n body before after) {fix : Fix} (hfix : fix.accepts body = true) :
    f.locate ⟨body.span, fix⟩ = .ok body := by
  have hsolid := hf.solid hn hb.kind_ne_root
  have hbody := hf.solid (hn.of_body hb) (Fix.kind_ne_of_accepts hfix)
  rw [locate_eq_ok]
  refine Node.findIn_of_holds (hb.tree_eq ▸ hn.holds) hbody.text_pos hfix ?_ ?_
    (hb.leading_lt hsolid)
  · rw [hb.path]
    rfl
  · rw [hb.start, hn.start]
    simp [root]

/-- With another body in its place a node may be seen differently, and no other node is. -/
theorem Stands.count_replaceAt (hn : f.Stands n pre post) (hb : HasBody n body before after)
    {S : NodeKind → List Outline → Bool} {new : Tree} {g : SourceFile}
    (hg : Tree.replaceAt new body.path f.root.tree = some g.root.tree)
    (hnew : new.count S = body.tree.count S) :
    g.root.tree.outline? = f.root.tree.outline? ∧
      g.root.tree.count S + (S n.kind (Tree.outlines (before ++ body.tree :: after))).toNat =
      f.root.tree.count S + (S n.kind (Tree.outlines (before ++ new :: after))).toNat := by
  rw [hb.path] at hg
  have hbody : ∃ kind parts, body.tree = .node kind parts := ⟨_, _, rfl⟩
  obtain ⟨houtline, hcount⟩ := Tree.Holds.count_replaceAt (S := S) (hb.tree_eq ▸ hn.holds)
    hb.kind_ne_block hbody hg
  refine ⟨houtline, ?_⟩
  rw [Tree.count_node, Tree.count_node, Tree.countAll_append, Tree.countAll_append,
    Tree.countAll_cons, Tree.countAll_cons, hnew] at hcount
  omega

end body

end SourceFile

namespace Node

/-- Braces around a statement count for nothing. -/
theorem count_wrapped {S : NodeKind → List Outline → Bool} (hS : ∀ os, S .block os = false)
    (n : Node) : n.wrapped.count S = n.tree.count S := by
  simp [wrapped, hS, Tree.withoutOuterTrivia, Tree.count_withOuterTrivia]

theorem outline?_wrapped (n : Node) : n.wrapped.outline? = some ⟨.block, [n.kind]⟩ := by
  have hkind : n.tree.withoutOuterTrivia.kind? = some n.kind := by
    rw [Tree.withoutOuterTrivia, Tree.withOuterTrivia, Tree.kind?_mapLast, Tree.kind?_mapFirst]
    rfl
  rw [wrapped, Tree.outline?, if_pos rfl, List.filterMap_cons_none rfl,
    List.filterMap_cons_some hkind, List.filterMap_cons_none rfl, List.filterMap_nil]

/-- A block with a single statement counts as that statement. -/
theorem count_of_singleStatement? {S : NodeKind → List Outline → Bool}
    (hS : ∀ os, S .block os = false) {block s : Node} (h : block.singleStatement? = some s) :
    block.tree.count S = s.tree.count S := by
  obtain ⟨hk, hc, -⟩ := childNodes_of_singleStatement? h
  have hparts := map_tree_childNodes block
  rw [hc] at hparts
  rw [tree, Tree.count_node, hk, hS, ← Tree.countAll_filter, ← hparts]
  simp

/-- What a fix puts in place counts as much as the node. -/
theorem count_replacement {S : NodeKind → List Outline → Bool} (hS : ∀ os, S .block os = false)
    {fix : Fix} {n : Node} {new : Tree} (h : SourceFile.replacement fix n = .ok new) :
    new.count S = n.tree.count S := by
  cases fix with
  | addBraces =>
    cases h
    exact count_wrapped hS n
  | removeBraces =>
    obtain ⟨s, hs, -, rfl⟩ := unwrapped_cases h
    rw [Tree.count_withOuterTrivia, count_of_singleStatement? hS hs]

end Node

namespace Rules

theorem seesBareBody_block (os : List Outline) : seesBareBody .block os = false := rfl

theorem seesBracedJump_block (os : List Outline) : seesBracedJump .block os = false := rfl

theorem findings_bracesForControlFlow (context : RuleContext) (n : Node) :
    bracesForControlFlow.findings context n =
      (bareBody n).map (bracesForControlFlow.diagnostic context.file) := rfl

theorem findings_noBracesForControlFlow (context : RuleContext) (n : Node) :
    noBracesForControlFlow.findings context n =
      (bracedJump n).map (noBracesForControlFlow.diagnostic context.file) := rfl

/-- The number of nodes that break the rule, at every node of a file and in its tree. -/
theorem countOf_bracesForControlFlow {c : Catalog} (hstamped : c.Stamped)
    (hc : bracesForControlFlow ∈ c.rules)
    {f : SourceFile} {model : SemanticModel} {report : DispatchReport}
    (h : report.diagnostics = f.nodes.flatMap (c.findings ⟨f, model⟩)) :
    report.countOf "CT0001" = f.root.tree.count seesBareBody := by
  have hflag : ∀ n : Node, (if bracesForControlFlow.triggeredBy n.kind then
      (bracesForControlFlow.findings ⟨f, model⟩ n).length else 0) =
        (seesBareBody n.kind (Tree.outlines n.parts)).toNat := by
    intro n
    rw [← length_bareBody]
    split
    · rw [findings_bracesForControlFlow, List.length_map]
    · rename_i hn
      have hnone : checkedBody? n = none := by
        have hcontrol : ¬controlKinds.contains n.kind = true := hn
        unfold checkedBody? controlBody?
        rw [if_neg hcontrol]
        rfl
      rw [bareBody, hnone]
      rfl
  rw [DispatchReport.countOf, h, ← Tree.countP_nodesOf [] 0]
  exact Catalog.countP_flatMap_findings hstamped hc _ hflag f.nodes

theorem countOf_noBracesForControlFlow {c : Catalog} (hstamped : c.Stamped)
    (hc : noBracesForControlFlow ∈ c.rules)
    {f : SourceFile} {model : SemanticModel} {report : DispatchReport}
    (h : report.diagnostics = f.nodes.flatMap (c.findings ⟨f, model⟩)) :
    report.countOf "CT0004" = f.root.tree.count seesBracedJump := by
  have hflag : ∀ n : Node, (if noBracesForControlFlow.triggeredBy n.kind then
      (noBracesForControlFlow.findings ⟨f, model⟩ n).length else 0) =
        (seesBracedJump n.kind (Tree.outlines n.parts)).toNat := by
    intro n
    split
    · rename_i hn
      rw [← length_bracedJump n hn]
      rw [findings_noBracesForControlFlow, List.length_map]
    · rename_i hn
      simp [seesBracedJump, hn]
  rw [DispatchReport.countOf, h, ← Tree.countP_nodesOf [] 0]
  exact Catalog.countP_flatMap_findings hstamped hc _ hflag f.nodes

/-! ### What is found -/

theorem exists_of_mem_bareBody {n : Node} {v : Violation} (h : v ∈ bareBody n) :
    ∃ body, checkedBody? n = some body ∧ v.span = body.span ∧
      isBare body.outline = true := by
  unfold bareBody at h
  split at h
  · rename_i body hbody
    split at h
    · cases h
    · rename_i hk
      obtain rfl := List.mem_singleton.1 h
      exact ⟨body, hbody, rfl, by simpa [isBare, Node.outline] using hk⟩
  · cases h

theorem exists_of_mem_bracedJump {n : Node} {v : Violation} (h : v ∈ bracedJump n) :
    ∃ block s, checkedBody? n = some block ∧ v.span = block.span ∧
      block.singleStatement? = some s ∧ isJump s.kind = true := by
  unfold bracedJump at h
  split at h
  · rename_i block hblock
    split at h
    · rename_i word hword
      obtain rfl := List.mem_singleton.1 h
      obtain ⟨s, hs, hjump⟩ := Option.bind_eq_some_iff.1 hword
      exact ⟨block, s, hblock, rfl, hs, by simp [isJump, hjump]⟩
    · cases h
  · cases h

end Rules

namespace SourceFile

open Rules

/-- A fix at a body is made. What the two rules see changes only in this body. -/
theorem Parsed.applyFix_body {tokens : List Token} {f : SourceFile} (hf : Parsed tokens f)
    {n body : Node} {before after : List Tree} {pre post : List Token} (hn : f.Stands n pre post)
    (hb : HasBody n body before after) {fix : Fix} (hfix : fix.accepts body = true) {new : Tree}
    (hnew : replacement fix body = .ok new) {o : Outline} (ho : new.outline? = some o)
    (hstatement : o.kind.isStatement = true)
    (hchain : (n.kind == .elseClause && o.kind == .ifStatement) = false) :
    ∃ g, f.applyFix ⟨body.span, fix⟩ false = .ok g ∧ g.kind = f.kind ∧
      g.root.tree.count seesBareBody + (isBare body.outline).toNat =
        f.root.tree.count seesBareBody + (isBare o).toNat ∧
      g.root.tree.count seesBracedJump +
          (noBracesForControlFlow.triggeredBy n.kind && isBracedJump body.outline).toNat =
        f.root.tree.count seesBracedJump +
          (noBracesForControlFlow.triggeredBy n.kind && isBracedJump o).toNat := by
  have hlocate := hf.locate_body hn hb hfix
  have hbody := hn.of_body hb
  have hx := Node.exchange_replacement (hf.solid hbody (Fix.kind_ne_of_accepts hfix)) hnew
  obtain ⟨g, hg, hreplaced, -⟩ := hbody.exists_replace hx.node
  have hbefore := hb.bodyOutline?_eq body.outline?_tree hb.statement hb.unchained
  have hafter := hb.bodyOutline?_eq ho hstatement hchain
  obtain ⟨houtline, hbare⟩ :=
    hn.count_replaceAt hb hreplaced (Node.count_replacement seesBareBody_block hnew)
  obtain ⟨-, hbraced⟩ :=
    hn.count_replaceAt hb hreplaced (Node.count_replacement seesBracedJump_block hnew)
  refine ⟨g, ?_, ?_, ?_, ?_⟩
  · simp only [applyFix, hlocate, hnew, hg, bind, Except.bind]
    rfl
  · rw [root, root, Node.tree_mk, Node.tree_mk, Tree.outline?, Tree.outline?, Option.some.injEq,
      Outline.mk.injEq] at houtline
    exact houtline.1
  · simpa only [seesBareBody, hbefore, hafter, Option.any_some] using hbare
  · simpa only [seesBracedJump, hbefore, hafter, Option.any_some] using hbraced

end SourceFile

/-- The edit that a finding asks for. -/
def Diagnostic.AsksFor (d : Diagnostic) (edit : Edit) : Prop :=
  d.fix? = some edit.fix ∧ edit.span = .ofLength d.location.offset d.location.length

theorem Diagnostic.AsksFor.edit?_eq {d : Diagnostic} {edit : Edit} (h : d.AsksFor edit)
    (hsize : edit.span.stop < Text.wordLimit) : d.edit? = .ok (some edit) := by
  obtain ⟨span, fix⟩ := edit
  obtain ⟨hfix, rfl⟩ := h
  have hspan : d.location.span? = some (.ofLength d.location.offset d.location.length) :=
    if_pos hsize
  rw [edit?, hfix]
  simp only [hspan]

theorem Rule.asksFor_diagnostic {r : Rule} {fix : Fix} (hr : r.fix? = some fix) (f : SourceFile)
    {v : Violation} (hv : v.span.start ≤ v.span.stop) :
    (r.diagnostic f v).AsksFor ⟨v.span, fix⟩ := by
  refine ⟨by simp [diagnostic, Violation.diagnostic, Diagnostic.fix?, hr, Suggestion.ofFix], ?_⟩
  have hlength : v.span.start + (v.span.stop - v.span.start) = v.span.stop := by omega
  simp only [diagnostic, Violation.diagnostic, SourceFile.location, Span.ofLength, Span.length,
    hlength]

namespace SourceFile

open Rules

/-- Braces are put around a bare body, and there is one bare body less. -/
theorem Parsed.fix_bareBody {tokens : List Token} {f : SourceFile} (hf : Parsed tokens f) {n : Node}
    (hn : n ∈ f.nodes) {v : Violation} (hv : v ∈ bareBody n) :
    v.span.start < v.span.stop ∧ v.span.stop ≤ f.text.utf8ByteSize ∧
    ∃ g, f.applyFix ⟨v.span, .addBraces⟩ false = .ok g ∧ g.kind = f.kind ∧
      g.root.tree.count seesBareBody + 1 = f.root.tree.count seesBareBody ∧
      g.root.tree.count seesBracedJump = f.root.tree.count seesBracedJump := by
  obtain ⟨body, hbody, hspan, hbare⟩ := exists_of_mem_bareBody hv
  obtain ⟨before, after, hb⟩ := hasBody_of_checkedBody? hbody
  obtain ⟨pre, post, hstands⟩ := stands_of_mem_nodes hn
  have hkind : (body.kind == .block) = false ∧ isJump body.kind = false := by
    simpa [isBare, Node.outline] using hbare
  have hfix : Fix.addBraces.accepts body = true := by
    simp [Fix.accepts, hb.statement, bne, hkind.1]
  have hbounds := hf.span_bounds (hf.locate_body hstands hb hfix)
  obtain ⟨g, hg, hgk, hcount, hcount'⟩ := hf.applyFix_body hstands hb hfix rfl
    body.outline?_wrapped rfl (by simp)
  have hold : isBracedJump body.outline = false := by
    simp [isBracedJump, Node.outline, hkind.1]
  have hnew : isBracedJump ⟨.block, [body.kind]⟩ = false := by
    simp [isBracedJump, hkind.2]
  rw [hspan]
  refine ⟨hbounds.1, hbounds.2, g, hg, hgk, ?_, ?_⟩
  · have hwrapped : isBare ⟨.block, [body.kind]⟩ = false := rfl
    simpa [hbare, hwrapped] using hcount
  · simpa [hold, hnew] using hcount'

/-- The braces around a jump are removed, unless there are comments inside. -/
theorem Parsed.fix_bracedJump {tokens : List Token} {f : SourceFile} (hf : Parsed tokens f)
    {n : Node} (hn : n ∈ f.nodes) (hk : noBracesForControlFlow.triggeredBy n.kind = true)
    {v : Violation} (hv : v ∈ bracedJump n) :
    v.span.start < v.span.stop ∧ v.span.stop ≤ f.text.utf8ByteSize ∧
    (f.applyFix ⟨v.span, .removeBraces⟩ false = .error (.commentsInside v.span) ∨
    ∃ g, f.applyFix ⟨v.span, .removeBraces⟩ false = .ok g ∧ g.kind = f.kind ∧
      g.root.tree.count seesBareBody = f.root.tree.count seesBareBody ∧
      g.root.tree.count seesBracedJump + 1 = f.root.tree.count seesBracedJump) := by
  obtain ⟨block, s, hblock, hspan, hs, hjump⟩ := exists_of_mem_bracedJump hv
  obtain ⟨before, after, hb⟩ := hasBody_of_checkedBody? hblock
  obtain ⟨pre, post, hstands⟩ := stands_of_mem_nodes hn
  obtain ⟨hbk, -, hsk⟩ := Node.childNodes_of_singleStatement? hs
  have hfix : Fix.removeBraces.accepts block = true := by simp [Fix.accepts, hbk]
  have hlocate := hf.locate_body hstands hb hfix
  have hbounds := hf.span_bounds hlocate
  rw [hspan]
  refine ⟨hbounds.1, hbounds.2, ?_⟩
  by_cases hcomments : (block.innerTrivia s).any Trivia.isComment = true
  · left
    have hrefused : block.unwrapped = .error (.commentsInside block.span) := by
      simp only [Node.unwrapped, hbk, if_true, hs, hcomments]
    simp only [applyFix, hlocate, replacement, hrefused, bind, Except.bind]
    rfl
  · right
    have hunwrapped : block.unwrapped =
        .ok (s.tree.withOuterTrivia block.leading block.trailing) := by
      simp only [Node.unwrapped, hbk, if_true, hs, hcomments]
      rfl
    have hnotif : (s.kind == .ifStatement) = false := by
      rw [beq_eq_false_iff_ne]
      intro hif
      rw [hif] at hjump
      exact absurd hjump (by decide)
    have hnotblock : (s.kind == .block) = false := by
      rw [beq_eq_false_iff_ne]
      intro hif
      rw [hif] at hjump
      exact absurd hjump (by decide)
    obtain ⟨g, hg, hgk, hcount, hcount'⟩ := hf.applyFix_body hstands hb hfix hunwrapped
      ((Tree.outline?_withOuterTrivia _ _ _).trans s.outline?_tree) hsk
      (by simp [Node.outline, hnotif])
    have hold : isBracedJump block.outline = true := by
      rw [isBracedJump_outline, hs]
      exact hjump
    refine ⟨g, hg, hgk, ?_, ?_⟩
    · simpa [isBare, Node.outline, hbk, hjump] using hcount
    · have hnew : isBracedJump s.outline = false := by simp [isBracedJump, Node.outline, hnotblock]
      simpa [hold, hnew, hk] using hcount'

/-- Every finding of the two rules about braces can be fixed, save for comments that would be lost,
and a fix removes this finding and no other: neither rule finds more or less elsewhere. -/
theorem applyFix_removes_one_finding (path : String) {source : String} {tokens : List Token}
    (h : Lexer.tokenize source = .ok tokens) {c : Catalog} (hstamped : c.Stamped)
    (hadd : bracesForControlFlow ∈ c.rules) (hremove : noBracesForControlFlow ∈ c.rules)
    (model model' : SemanticModel) :
    ∃ f report, parse path source = .ok f ∧ Dispatch.run c f model false = .ok report ∧
      ∀ d ∈ report.diagnostics, d.code = "CT0001" ∨ d.code = "CT0004" →
        ∃ edit, d.AsksFor edit ∧
          (source.utf8ByteSize < Text.wordLimit → d.edit? = .ok (some edit)) ∧
          (d.code = "CT0004" ∧ f.applyFix edit false = .error (.commentsInside edit.span) ∨
          ∃ g report', f.applyFix edit false = .ok g ∧
            Dispatch.run c g model' false = .ok report' ∧
            ∀ code ∈ ["CT0001", "CT0004"],
              report'.countOf code + (if d.code = code then 1 else 0) = report.countOf code) := by
  obtain ⟨f, hparse, hf⟩ := exists_parsed_of_tokenize path h
  have htext := hf.text_eq h
  obtain ⟨report, hrun, hreport⟩ := Dispatch.run_eq_ok hf.kind c model
  refine ⟨f, report, hparse, hrun, fun d hd hcode => ?_⟩
  rw [hreport] at hd
  obtain ⟨n, hn, hdn⟩ := List.mem_flatMap.1 hd
  -- What is counted in the tree is what a run over the file reports.
  have hruns : ∀ g : SourceFile, g.kind = f.kind → ∃ report',
      Dispatch.run c g model' false = .ok report' ∧
      report'.countOf "CT0001" = g.root.tree.count seesBareBody ∧
      report'.countOf "CT0004" = g.root.tree.count seesBracedJump := by
    intro g hgk
    obtain ⟨report', hrun', hreport'⟩ := Dispatch.run_eq_ok (hgk.trans hf.kind) c model'
    exact ⟨report', hrun', countOf_bracesForControlFlow hstamped hadd hreport',
      countOf_noBracesForControlFlow hstamped hremove hreport'⟩
  have hbare := countOf_bracesForControlFlow hstamped hadd hreport
  have hbraced := countOf_noBracesForControlFlow hstamped hremove hreport
  rcases hcode with hcode | hcode
  · obtain ⟨-, hdr⟩ := Catalog.mem_findings_of_code hstamped hadd hdn hcode
    rw [findings_bracesForControlFlow] at hdr
    obtain ⟨v, hv, rfl⟩ := List.mem_map.1 hdr
    obtain ⟨hpos, hsize, g, hg, hgk, hcount, hcount'⟩ := hf.fix_bareBody hn hv
    have hasks : (bracesForControlFlow.diagnostic f v).AsksFor ⟨v.span, .addBraces⟩ :=
      Rule.asksFor_diagnostic rfl f (Nat.le_of_lt hpos)
    obtain ⟨report', hrun', hbare', hbraced'⟩ := hruns g hgk
    refine ⟨_, hasks, fun hlimit => hasks.edit?_eq ?_, .inr ⟨g, report', hg, hrun', ?_⟩⟩
    · rw [htext] at hsize
      exact Nat.lt_of_le_of_lt hsize hlimit
    · rw [hcode]
      simp
      omega
  · obtain ⟨hk, hdr⟩ := Catalog.mem_findings_of_code hstamped hremove hdn hcode
    rw [findings_noBracesForControlFlow] at hdr
    obtain ⟨v, hv, rfl⟩ := List.mem_map.1 hdr
    obtain ⟨hpos, hsize, hfixed⟩ := hf.fix_bracedJump hn hk hv
    have hasks : (noBracesForControlFlow.diagnostic f v).AsksFor ⟨v.span, .removeBraces⟩ :=
      Rule.asksFor_diagnostic rfl f (Nat.le_of_lt hpos)
    refine ⟨_, hasks, fun hlimit => hasks.edit?_eq ?_, ?_⟩
    · rw [htext] at hsize
      exact Nat.lt_of_le_of_lt hsize hlimit
    · rcases hfixed with hrefused | ⟨g, hg, hgk, hcount, hcount'⟩
      · exact .inl ⟨hcode, hrefused⟩
      · obtain ⟨report', hrun', hbare', hbraced'⟩ := hruns g hgk
        refine .inr ⟨g, report', hg, hrun', ?_⟩
        rw [hcode]
        simp
        omega

/-- One finding of each rule, of which the first is fixed. -/
theorem applyFix_removes_one_finding_bare :
    ∃ f report d edit g report',
      parse "C.cs" "class C\x7bvoid M()\x7bif(a)b();else\x7breturn;\x7d\x7d\x7d" = .ok f ∧
      Dispatch.run .all f .empty false = .ok report ∧ d ∈ report.diagnostics ∧ d.code = "CT0001" ∧
      d.edit? = .ok (some edit) ∧ f.applyFix edit false = .ok g ∧
      Dispatch.run .all g .empty false = .ok report' ∧
      report'.countOf "CT0001" + 1 = report.countOf "CT0001" ∧
      report'.countOf "CT0004" = report.countOf "CT0004" := by
  have hseen : (parse "C.cs"
      "class C\x7bvoid M()\x7bif(a)b();else\x7breturn;\x7d\x7d\x7d").toOption.map
        (fun f => (f.kind, f.root.tree.count seesBareBody)) = some (.compilationUnit, 1) := by
    rw [parse_ofList]
    decide +kernel
  have hadd : bracesForControlFlow ∈ Catalog.all.rules := by simp [Catalog.all, Rules.all]
  have hremove : noBracesForControlFlow ∈ Catalog.all.rules := by simp [Catalog.all, Rules.all]
  obtain ⟨f, hf, hseen⟩ := Option.map_eq_some_iff.1 hseen
  have hf := eq_ok_of_toOption hf
  rw [Prod.mk.injEq] at hseen
  obtain ⟨tokens, h, -⟩ := exists_parsed hf
  obtain ⟨f', report, hf', hrun, hall⟩ :=
    applyFix_removes_one_finding "C.cs" h Catalog.stamped_all hadd hremove .empty .empty
  obtain rfl : f = f' := Except.ok.inj (hf.symm.trans hf')
  obtain ⟨report₀, hrun₀, hreport⟩ := Dispatch.run_eq_ok hseen.1 .all .empty
  obtain rfl : report = report₀ := by simpa [hrun] using hrun₀
  have hcount := countOf_bracesForControlFlow Catalog.stamped_all hadd hreport
  rw [hseen.2] at hcount
  obtain ⟨d, hd, hcode⟩ := List.countP_pos_iff.1 (Nat.lt_of_lt_of_eq Nat.one_pos hcount.symm)
  have hcode : d.code = "CT0001" := by simpa using hcode
  obtain ⟨edit, -, hedit, hfixed⟩ := hall d hd (.inl hcode)
  rcases hfixed with ⟨hother, -⟩ | ⟨g, report', hg, hrun', hcounts⟩
  · rw [hcode] at hother
    exact absurd hother (by decide)
  · refine ⟨f, report, d, edit, g, report', hf, hrun, hd, hcode, hedit (by decide), hg, hrun', ?_⟩
    simpa [hcode] using hcounts

end SourceFile

end PluginLint
