import PluginLint.Proofs.Running
import PluginLint.Proofs.Trees.Positions
import PluginLint.Rules.Presets

/-!
# Where findings point

Each rule picks a place of its own: the node it looks at, a node it finds below, or a token there.
Whatever it picks is a node or a token of the file, so a finding points at text of the file.
-/
namespace PluginLint

/-! ### Nodes and tokens of a file -/

namespace SourceFile

variable {f : SourceFile} {n c : Node}

theorem mem_nodes_of_child (hn : n ∈ f.nodes) (hc : c ∈ n.childNodes) : c ∈ f.nodes :=
  Node.mem_descendants_trans hn (Node.mem_descendants_of_child hc c.mem_descendants_self)

/-- The tokens of a file, where they stand. -/
def tokens (f : SourceFile) : List PlacedToken := f.root.placedTokens

theorem mem_tokens {t : PlacedToken} (hn : n ∈ f.nodes) (ht : t ∈ n.childTokens) :
    t ∈ f.tokens := by
  have hall : ∀ r : Node, n ∈ r.descendants → t ∈ r.placedTokens := by
    intro r
    induction r using Node.induct with
    | step r ih =>
      intro hr
      rw [Node.placedTokens_eq_flatMap, List.mem_flatMap]
      rcases Node.mem_descendants.1 hr with rfl | ⟨c, hc, hn⟩
      · obtain ⟨e, he, het⟩ := List.mem_filterMap.1 ht
        cases e with
        | node m => cases het
        | token u =>
          cases het
          exact ⟨_, he, List.mem_singleton_self _⟩
      · exact ⟨.node c, Node.mem_filterMap_node?.1 hc, ih c hc hn⟩
  exact hall f.root hn

/-- At a span there is a node or a token of the file, with this text. -/
inductive Marks (f : SourceFile) : Span → String → Prop
  | node {n : Node} (hn : n ∈ f.nodes) : Marks f n.span n.text
  | token {t : PlacedToken} (ht : t ∈ f.tokens) : Marks f t.span t.text

/-- At the span of a node or token the file reads what that says. -/
theorem Marks.slice {span : Span} {text : String} (h : f.Marks span text) :
    Text.slice? f.text span.start span.stop = some text := by
  cases h with
  | node hn =>
    obtain ⟨pre, post, hstands⟩ := stands_of_mem_nodes hn
    exact hstands.slice_span
  | token ht =>
    obtain ⟨pre, post, hstands⟩ := stands_of_mem_nodes f.root.mem_descendants_self
    exact (hstands.slice_token ht).2

end SourceFile

/-- A violation is at a node or a token of the file. -/
def Violation.StandsIn (v : Violation) (f : SourceFile) : Prop := ∃ text, f.Marks v.span text

/-! ### The places that rules pick -/

namespace Rules

variable {f : SourceFile} {n : Node} {v : Violation}

theorem child_of_checkedBody? {body : Node} (h : checkedBody? n = some body) :
    body ∈ n.childNodes := by
  obtain ⟨hbody, -⟩ := Option.filter_eq_some_iff.1 h
  rw [controlBody?] at hbody
  split at hbody
  · exact List.mem_of_find?_eq_some hbody
  · cases hbody

theorem bareBody_standsIn (hn : n ∈ f.nodes) (hv : v ∈ bareBody n) : v.StandsIn f := by
  unfold bareBody at hv
  split at hv
  · rename_i body hbody
    split at hv
    · cases hv
    · obtain rfl := List.mem_singleton.1 hv
      exact ⟨_, .node (f.mem_nodes_of_child hn (child_of_checkedBody? hbody))⟩
  · cases hv

theorem bracedJump_standsIn (hn : n ∈ f.nodes) (hv : v ∈ bracedJump n) : v.StandsIn f := by
  unfold bracedJump at hv
  split at hv
  · rename_i block hblock
    split at hv
    · obtain rfl := List.mem_singleton.1 hv
      exact ⟨_, .node (f.mem_nodes_of_child hn (child_of_checkedBody? hblock))⟩
    · cases hv
  · cases hv

/-- The value is a child of the assignment, or of the clause behind the name. -/
theorem value_of_assignment? {target value : Node} (hn : n ∈ f.nodes)
    (h : assignment? n = some (target, value)) : value ∈ f.nodes := by
  unfold assignment? at h
  split at h
  · split at h
    · rename_i left right _ hchildren
      obtain ⟨-, rfl⟩ := Prod.mk.inj (Option.some.inj h)
      exact f.mem_nodes_of_child hn (by simp [hchildren])
    · cases h
  · obtain ⟨value', hvalue, heq⟩ := Option.map_eq_some_iff.1 h
    obtain ⟨-, rfl⟩ := Prod.mk.inj heq
    obtain ⟨clause, hclause, hhead⟩ := Option.bind_eq_some_iff.1 hvalue
    exact f.mem_nodes_of_child (f.mem_nodes_of_child hn (List.mem_of_find?_eq_some hclause))
      (List.mem_of_head? hhead)

theorem numberForEnum_standsIn {model : SemanticModel} (hn : n ∈ f.nodes)
    (hv : v ∈ numberForEnum model n) : v.StandsIn f := by
  unfold numberForEnum at hv
  split at hv
  · cases hv
  · rename_i target value hassignment
    split at hv
    · split at hv
      · obtain rfl := List.mem_singleton.1 hv
        exact ⟨_, .node (value_of_assignment? hn hassignment)⟩
      · cases hv
    · cases hv

theorem emptyParentheses_standsIn (hn : n ∈ f.nodes) (hv : v ∈ emptyParentheses n) :
    v.StandsIn f := by
  unfold emptyParentheses at hv
  split at hv
  · rename_i arguments _ harguments
    split at hv
    · obtain rfl := List.mem_singleton.1 hv
      exact ⟨_, .node (f.mem_nodes_of_child hn (List.mem_of_find?_eq_some harguments))⟩
    · cases hv
  · cases hv

theorem repeatedServices_standsIn {model : SemanticModel} (hn : n ∈ f.nodes)
    (hv : v ∈ repeatedServices model n) : v.StandsIn f := by
  unfold repeatedServices at hv
  split at hv
  · cases hv
  · rename_i list hlist
    obtain ⟨group, -, rfl⟩ := List.mem_map.1 hv
    exact ⟨_, .node (f.mem_nodes_of_child hn (List.mem_of_find?_eq_some hlist))⟩

theorem undocumentedPlugin_standsIn {model : SemanticModel} (hn : n ∈ f.nodes)
    (hv : v ∈ undocumentedPlugin model n) : v.StandsIn f := by
  unfold undocumentedPlugin at hv
  split at hv
  · cases hv
  · rename_i name hname
    split at hv
    · obtain rfl := List.mem_singleton.1 hv
      exact ⟨_, .token (f.mem_tokens hn (List.mem_of_find?_eq_some hname))⟩
    · cases hv

theorem entityContainsCall_standsIn {model : SemanticModel} (hn : n ∈ f.nodes)
    (hv : v ∈ entityContainsCall model n) : v.StandsIn f := by
  unfold entityContainsCall at hv
  split at hv
  · cases hv
  · split at hv
    · obtain rfl := List.mem_singleton.1 hv
      exact ⟨_, .node hn⟩
    · cases hv

theorem filterOnCreate_standsIn (hn : n ∈ f.nodes) (hv : v ∈ filterOnCreate n) :
    v.StandsIn f := by
  unfold filterOnCreate at hv
  split at hv
  · split at hv
    · obtain rfl := List.mem_singleton.1 hv
      exact ⟨_, .node hn⟩
    · cases hv
  · cases hv

theorem missingImage_standsIn {operation image : String} (hn : n ∈ f.nodes)
    (hv : v ∈ missingImage operation image n) : v.StandsIn f := by
  unfold missingImage at hv
  split at hv
  · split at hv
    · obtain rfl := List.mem_singleton.1 hv
      exact ⟨_, .node hn⟩
    · cases hv
  · cases hv

theorem misnamed_standsIn {method expected : String} (hn : n ∈ f.nodes)
    (hv : v ∈ misnamed method expected n) : v.StandsIn f := by
  unfold misnamed at hv
  split at hv
  · cases hv
  · rename_i declaration hdeclaration
    obtain ⟨declarator, hdeclarator, hfound⟩ := List.mem_filterMap.1 hv
    split at hfound
    · obtain ⟨name, hname, rfl⟩ := Option.map_eq_some_iff.1 hfound
      obtain ⟨hname, -⟩ := Option.filter_eq_some_iff.1 hname
      have hdeclaration := f.mem_nodes_of_child hn (List.mem_of_find?_eq_some hdeclaration)
      have hdeclarator := f.mem_nodes_of_child hdeclaration (List.mem_of_mem_filter hdeclarator)
      exact ⟨_, .token (f.mem_tokens hdeclarator (List.mem_of_find?_eq_some hname))⟩
    · cases hfound

end Rules

/-- The violations of a rule at a node of a file are at nodes or tokens of that file. -/
def Rule.PointsInside (r : Rule) : Prop :=
  ∀ (context : RuleContext) (n : Node) (violations : List Violation), n ∈ context.file.nodes →
    r.check context n = .ok violations → ∀ v ∈ violations, v.StandsIn context.file

theorem Rules.pointsInside_all : ∀ r ∈ Rules.all, r.PointsInside := by
  intro r hr context n violations hn hcheck v hv
  simp only [Rules.all, List.mem_cons, List.not_mem_nil, or_false] at hr
  rcases hr with rfl | rfl | rfl | rfl | rfl | rfl | rfl | rfl | rfl | rfl | rfl | rfl <;>
    cases hcheck
  · exact bareBody_standsIn hn hv
  · exact numberForEnum_standsIn hn hv
  · exact emptyParentheses_standsIn hn hv
  · exact bracedJump_standsIn hn hv
  · exact repeatedServices_standsIn hn hv
  · exact undocumentedPlugin_standsIn hn hv
  · exact entityContainsCall_standsIn hn hv
  · exact filterOnCreate_standsIn hn hv
  · exact missingImage_standsIn hn hv
  · exact missingImage_standsIn hn hv
  · exact misnamed_standsIn hn hv
  · exact misnamed_standsIn hn hv

/-! ### Findings -/

namespace SourceFile

/-- A location is in the file: it is where a node or a token with some text stands, the text of the
file reads the same there, and line and column are those of the offset. -/
structure Locates (f : SourceFile) (l : Location) : Prop where
  file : l.file = f.path
  bound : l.offset + l.length ≤ f.text.utf8ByteSize
  reads : ∃ inner, Text.slice? f.text l.offset (l.offset + l.length) = some inner ∧
    ((∃ n ∈ f.nodes, n.text = inner) ∨ ∃ t ∈ f.tokens, t.text = inner)
  lineCol : (l.line, l.column) = f.lineCol l.offset

theorem Marks.locates {f : SourceFile} {span : Span} {text : String} (h : f.Marks span text) :
    f.Locates (f.location span) := by
  have hslice := h.slice
  obtain ⟨before, after, htext, hstart, hstop⟩ := Text.slice?_eq_some_iff.1 hslice
  have hend : (f.location span).offset + (f.location span).length = span.stop := by
    change span.start + (span.stop - span.start) = span.stop
    omega
  refine ⟨rfl, ?_, ⟨text, ?_, ?_⟩, rfl⟩
  · rw [hend, htext, String.utf8ByteSize_append, String.utf8ByteSize_append]
    omega
  · rw [hend]
    exact hslice
  · cases h with
    | node hn => exact .inl ⟨_, hn, rfl⟩
    | token ht => exact .inr ⟨_, ht, rfl⟩

end SourceFile

theorem Rule.PointsInside.locates {r : Rule} (hr : r.PointsInside)
    (hreports : r.ReportsViolations) {context : RuleContext} {n : Node}
    (hn : n ∈ context.file.nodes) {d : Diagnostic} (hd : d ∈ r.findings context n) :
    context.file.Locates d.location := by
  obtain ⟨violations, hcheck, v, hv, rfl⟩ := hreports.mem_findings.1 hd
  obtain ⟨text, hmarks⟩ := hr context n violations hn hcheck v hv
  exact hmarks.locates

namespace Dispatch

/-- Every finding of all rules is located in the file that was looked at. -/
theorem run_all_locates {f : SourceFile} (hf : f.kind = .compilationUnit) (model : SemanticModel) :
    ∃ report, run Catalog.all f model false = .ok report ∧
      ∀ d ∈ report.diagnostics, f.Locates d.location := by
  obtain ⟨report, hrun, hdiagnostics⟩ := run_eq_ok hf Catalog.all model
  refine ⟨report, hrun, fun d hd => ?_⟩
  rw [hdiagnostics] at hd
  obtain ⟨n, hn, hd⟩ := List.mem_flatMap.1 hd
  rw [Catalog.findings, Catalog.rulesFor_eq] at hd
  obtain ⟨r, hr, hd⟩ := List.mem_flatMap.1 hd
  have hmem : r ∈ Rules.all := List.mem_of_mem_filter hr
  exact (Rules.pointsInside_all r hmem).locates (Rules.reportsViolations_all r hmem) hn hd

/-- A body without braces on a line of its own, behind letters of two bytes. -/
theorem run_all_locates_body :
    let f : SourceFile := ⟨"t.cs", .compilationUnit,
      [.node .ifStatement
        [.leaf ⟨.keyword, "if", [], [.space]⟩, .leaf ⟨.punct, "(", [], []⟩,
         .node .identifierName [.leaf ⟨.identifier, "é", [], []⟩],
         .leaf ⟨.punct, ")", [], [⟨.endOfLine, "\n"⟩]⟩,
         .node .expressionStatement
          [.node .identifierName [.leaf ⟨.identifier, "ü", [.space], []⟩],
           .leaf ⟨.punct, ";", [], []⟩]],
       .leaf (.endOfFile [])], []⟩
    ∃ report, run Catalog.all f .empty false = .ok report ∧
      report.diagnostics.map (fun d => (d.code, d.location)) =
        [("CT0001", ⟨"t.cs", 2, 2, 9, 3⟩)] ∧
      ∀ d ∈ report.diagnostics, f.Locates d.location := by
  intro f
  obtain ⟨report, hrun, hlocates⟩ := run_all_locates (f := f) rfl .empty
  obtain ⟨report', hrun', hdiagnostics⟩ := run_eq_ok (f := f) rfl Catalog.all .empty
  obtain rfl : report = report' := Except.ok.inj (hrun.symm.trans hrun')
  refine ⟨report, hrun, ?_, hlocates⟩
  rw [hdiagnostics]
  decide +kernel

end Dispatch

end PluginLint
