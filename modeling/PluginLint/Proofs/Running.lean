import Mathlib.Data.List.Nodup
import PluginLint.Proofs.Trees.Nodes
import PluginLint.Rules.Dispatch
import PluginLint.Rules.Presets

/-!
# What a run does

The table of a catalog gives, for each kind of node, the rules that name it, in their order. The
nodes of a file are visited in the order in which they are listed, so that a run carries out one
evaluation for each node and each rule that names its kind, node by node, and notes what comes of
them in that order. A rule is known by its code, so its findings can be picked out of those of the
whole catalog.
-/
namespace PluginLint

/-! ### The table of a catalog -/

namespace Routes

theorem count_eraseDups (kind : NodeKind) (kinds : List NodeKind) :
    kinds.eraseDups.count kind = if kind ∈ kinds then 1 else 0 := by
  match kinds with
  | [] => rfl
  | k :: kinds =>
    have ih := count_eraseDups kind (kinds.filter fun b => !b == k)
    rw [List.eraseDups_cons, List.count_cons, ih]
    by_cases hk : k = kind
    · simp [hk]
    · simp [hk, Ne.symm hk]
termination_by kinds.length
decreasing_by exact Nat.lt_succ_of_le (List.length_filter_le _ _)

/-- A rule stands once under each of its kinds. -/
theorem get_addRule (t : Routes) (r : Rule) (i : Nat) (kind : NodeKind) :
    (t.addRule r i).get kind = if r.triggeredBy kind then t.get kind ++ [i] else t.get kind := by
  have hall : ∀ (kinds : List NodeKind) (t : Routes),
      (kinds.foldl (fun t k => t.add k i) t).get kind =
        t.get kind ++ List.replicate (kinds.count kind) i := by
    intro kinds
    induction kinds with
    | nil => simp
    | cons k kinds ih =>
      intro t
      rw [List.foldl_cons, ih, get_add, List.count_cons]
      by_cases hk : kind = k
      · simp [hk, List.replicate_succ]
      · simp [hk, Ne.symm hk]
  rw [addRule, hall, count_eraseDups, Rule.triggeredBy]
  by_cases hk : kind ∈ r.triggers <;> simp [hk]

theorem get_ofRules (rules : List Rule) (kind : NodeKind) :
    (ofRules rules).get kind =
      (rules.zipIdx.filter fun (r, _) => r.triggeredBy kind).map Prod.snd := by
  have hall : ∀ (entries : List (Rule × Nat)) (t : Routes),
      (entries.foldl (fun t (r, i) => t.addRule r i) t).get kind =
        t.get kind ++ (entries.filter fun (r, _) => r.triggeredBy kind).map Prod.snd := by
    intro entries
    induction entries with
    | nil => simp
    | cons entry entries ih =>
      intro t
      rw [List.foldl_cons, ih, get_addRule, List.filter_cons]
      by_cases hr : entry.1.triggeredBy kind = true <;> simp [hr]
  rw [ofRules, hall, get_nil, List.nil_append]

end Routes

namespace Catalog

/-- The table of a catalog leads to the rules that name a kind, in their order. -/
theorem rulesFor_eq (c : Catalog) (kind : NodeKind) :
    c.rulesFor kind = c.rules.filter fun r => r.triggeredBy kind := by
  have hfound : ∀ entries : List (Rule × Nat), (∀ e ∈ entries, c.rules[e.2]? = some e.1) →
      (entries.map Prod.snd).filterMap (fun i => c.rules[i]?) = entries.map Prod.fst := by
    intro entries hentries
    induction entries with
    | nil => rfl
    | cons entry entries ih =>
      have hentry := hentries entry List.mem_cons_self
      have hrest := ih fun e he => hentries e (List.mem_cons_of_mem _ he)
      simp [hentry, hrest]
  have hentries : ∀ e ∈ c.rules.zipIdx.filter (fun (r, _) => r.triggeredBy kind),
      c.rules[e.2]? = some e.1 := by
    intro e he
    exact List.mem_zipIdx_iff_getElem?.1 (List.mem_of_mem_filter he)
  have hrules : c.rules.filter (fun r => r.triggeredBy kind) =
      (c.rules.zipIdx.filter fun (r, _) => r.triggeredBy kind).map Prod.fst := by
    conv_lhs => rw [← List.zipIdx_map_fst 0 c.rules]
    rw [List.filter_map]
    rfl
  rw [rulesFor, indicesFor, c.routed, Routes.get_ofRules, hfound _ hentries, hrules]

theorem ofRules_eq_ok (rules : List Rule)
    (h : firstRepeated? [] (rules.map Rule.code) = none) : ∃ c, ofRules rules = .ok c := by
  unfold ofRules
  split
  · rename_i code hcode
    rw [h] at hcode
    cases hcode
  · exact ⟨_, rfl⟩

theorem rules_of_ofRules {rules : List Rule} {c : Catalog} (h : ofRules rules = .ok c) :
    c.rules = rules := by
  unfold ofRules at h
  split at h
  · cases h
  · cases h
    rfl

end Catalog

/-! ### What comes of an evaluation -/

namespace Rule

/-- What a rule finds at a node; nothing if it breaks down. -/
def findings (r : Rule) (context : RuleContext) (n : Node) : List Diagnostic :=
  match r.report context n with
  | .ok found => found
  | .error _ => []

/-- How a rule breaks down at a node, if it does. -/
def failure? (r : Rule) (context : RuleContext) (n : Node) : Option RuleFailure :=
  match r.report context n with
  | .ok _ => none
  | .error message => some ⟨r.code, context.file.location n.span, message⟩

/-- All that the rule finds bears its code. -/
def Stamps (r : Rule) : Prop :=
  ∀ (context : RuleContext) (n : Node), ∀ d ∈ r.findings context n, d.code = r.code

/-- The rule reports its violations and nothing else, each with its own code, name, severity and
message, and with its fix. -/
def ReportsViolations (r : Rule) : Prop :=
  ∀ (context : RuleContext) (n : Node), r.report context n =
    (r.check context n).map fun violations => violations.map (r.diagnostic context.file)

theorem ReportsViolations.mem_findings {r : Rule} (h : r.ReportsViolations) {context : RuleContext}
    {n : Node} {d : Diagnostic} : d ∈ r.findings context n ↔
      ∃ violations, r.check context n = .ok violations ∧
        ∃ v ∈ violations, d = r.diagnostic context.file v := by
  rw [findings, h]
  cases r.check context n with
  | ok violations => simp [Except.map, eq_comm]
  | error message => simp [Except.map]

theorem code_of_failure? {r : Rule} {context : RuleContext} {n : Node} {e : RuleFailure}
    (h : r.failure? context n = some e) : e.code = r.code := by
  unfold failure? at h
  split at h <;> cases h
  rfl

theorem ReportsViolations.stamps {r : Rule} (h : r.ReportsViolations) : r.Stamps := by
  intro context n d hd
  obtain ⟨_, -, v, -, rfl⟩ := h.mem_findings.1 hd
  rfl

end Rule

/-- Each rule of the catalog puts its own code on what it finds. -/
def Catalog.Stamped (c : Catalog) : Prop := ∀ r ∈ c.rules, r.Stamps

/-- Every one of the twelve rules makes its findings in the same way. -/
theorem Rules.reportsViolations_all : ∀ r ∈ Rules.all, r.ReportsViolations := by
  intro r hr context n
  simp only [Rules.all, List.mem_cons, List.not_mem_nil, or_false] at hr
  rcases hr with rfl | rfl | rfl | rfl | rfl | rfl | rfl | rfl | rfl | rfl | rfl | rfl <;> rfl

theorem Catalog.stamped_all : Catalog.all.Stamped := fun r hr =>
  (Rules.reportsViolations_all r hr).stamps

namespace Task

def findings (context : RuleContext) (t : Task) : List Diagnostic := t.rule.findings context t.node

def failure? (context : RuleContext) (t : Task) : Option RuleFailure :=
  t.rule.failure? context t.node

end Task

namespace DispatchReport

/-- The report after some evaluations, in order. -/
def after (context : RuleContext) (r : DispatchReport) (tasks : List Task) : DispatchReport :=
  { r with
    diagnostics := r.diagnostics ++ tasks.flatMap (Task.findings context)
    evaluations := r.evaluations + tasks.length
    failures := r.failures ++ tasks.filterMap (Task.failure? context) }

theorem perform_eq (context : RuleContext) (r : DispatchReport) (t : Task) :
    r.perform context t = r.after context [t] := by
  unfold perform after Rule.evaluate
  simp only [List.flatMap_singleton, List.filterMap_cons, List.filterMap_nil, Task.findings,
    Task.failure?, Rule.findings, Rule.failure?]
  cases t.rule.report context t.node with
  | ok found => simp
  | error message => simp

theorem after_append (context : RuleContext) (r : DispatchReport) (tasks tasks' : List Task) :
    r.after context (tasks ++ tasks') = (r.after context tasks).after context tasks' := by
  simp [after, List.append_assoc, Nat.add_assoc]

/-- Evaluations are noted one after the other. -/
theorem foldl_perform (context : RuleContext) (r : DispatchReport) (tasks : List Task) :
    tasks.foldl (perform context) r = r.after context tasks := by
  induction tasks generalizing r with
  | nil => simp [after]
  | cons t tasks ih =>
    rw [List.foldl_cons, ih, perform_eq, ← after_append]
    rfl

end DispatchReport

namespace Catalog

/-- What the rules of a catalog find at a node. -/
def findings (c : Catalog) (context : RuleContext) (n : Node) : List Diagnostic :=
  (c.rulesFor n.kind).flatMap fun r => r.findings context n

/-- Findings with the code of a rule are its own. -/
theorem mem_findings_of_code {c : Catalog} (hc : c.Stamped) {r : Rule} (hr : r ∈ c.rules)
    {context : RuleContext} {n : Node} {d : Diagnostic} (hd : d ∈ c.findings context n)
    (hcode : d.code = r.code) :
    r.triggeredBy n.kind = true ∧ d ∈ r.findings context n := by
  rw [findings, rulesFor_eq] at hd
  obtain ⟨s, hs, hds⟩ := List.mem_flatMap.1 hd
  obtain ⟨hmem, htriggered⟩ := List.mem_filter.1 hs
  have hsame : s.code = r.code := (hc s hmem context n d hds).symm.trans hcode
  obtain rfl : s = r := List.inj_on_of_nodup_map c.nodup hmem hr hsame
  exact ⟨htriggered, hds⟩

theorem countP_findings {c : Catalog} (hc : c.Stamped) {r : Rule} (hr : r ∈ c.rules)
    (context : RuleContext) (n : Node) : (c.findings context n).countP (fun d => d.code == r.code) =
      if r.triggeredBy n.kind then (r.findings context n).length else 0 := by
  obtain ⟨before, after, hrules⟩ := List.append_of_mem hr
  have hnodup := c.nodup
  rw [hrules, List.map_append, List.map_cons, List.nodup_append, List.nodup_cons] at hnodup
  obtain ⟨-, ⟨hafter, -⟩, hbefore⟩ := hnodup
  have hzero : ∀ rules : List Rule, (∀ s ∈ rules, s ∈ c.rules ∧ s.code ≠ r.code) →
      (rules.flatMap fun s => s.findings context n).countP (fun d => d.code == r.code) = 0 := by
    intro rules hother
    rw [List.countP_eq_zero]
    intro d hd
    obtain ⟨s, hs, hds⟩ := List.mem_flatMap.1 hd
    obtain ⟨hmem, hne⟩ := hother s hs
    simpa [hc s hmem context n d hds] using hne
  have hown : (r.findings context n).countP (fun d => d.code == r.code) =
      (r.findings context n).length := by
    rw [List.countP_eq_length]
    intro d hd
    simp [hc r hr context n d hd]
  have hfront := hzero (before.filter fun s => s.triggeredBy n.kind) fun s hs =>
    ⟨by simp [hrules, List.mem_of_mem_filter hs],
      hbefore _ (List.mem_map_of_mem (List.mem_of_mem_filter hs)) _ List.mem_cons_self⟩
  have hback := hzero (after.filter fun s => s.triggeredBy n.kind) fun s hs =>
    ⟨by simp [hrules, List.mem_of_mem_filter hs],
      fun heq => hafter (heq ▸ List.mem_map_of_mem (List.mem_of_mem_filter hs))⟩
  rw [findings, rulesFor_eq, hrules, List.filter_append, List.flatMap_append, List.countP_append,
    hfront, Nat.zero_add, List.filter_cons]
  split
  · rw [List.flatMap_cons, List.countP_append, hback, hown, Nat.add_zero]
  · exact hback

/-- The findings of one rule at some nodes, for a rule that finds at most one thing at a node. -/
theorem countP_flatMap_findings {c : Catalog} (hc : c.Stamped) {r : Rule} (hr : r ∈ c.rules)
    (context : RuleContext) {p : Node → Bool} (hp : ∀ n, (if r.triggeredBy n.kind then (r.findings context n).length else 0)
      = (p n).toNat) (nodes : List Node) :
    (nodes.flatMap (c.findings context)).countP (fun d => d.code == r.code) = nodes.countP p := by
  induction nodes with
  | nil => rfl
  | cons n nodes ih =>
    rw [List.flatMap_cons, List.countP_append, ih, countP_findings hc hr, hp, List.countP_cons,
      Nat.add_comm]
    cases p n <;> rfl

end Catalog

/-- The number of findings with a code. -/
def DispatchReport.countOf (r : DispatchReport) (code : String) : Nat :=
  r.diagnostics.countP fun d => d.code == code

/-! ### Runs -/

namespace Dispatch

/-- The evaluations at a node, in the order of the table. -/
def tasksAt (c : Catalog) (n : Node) : List Task := (c.rulesFor n.kind).map fun r => ⟨n, r⟩

theorem flatMap_findings_tasksAt (c : Catalog) (context : RuleContext) (n : Node) :
    (tasksAt c n).flatMap (Task.findings context) = c.findings context n := by
  simp [tasksAt, List.flatMap_map, Task.findings, Catalog.findings]

/-- A node is counted, and its evaluations are carried out. -/
theorem visit_eq (c : Catalog) (context : RuleContext) (r : DispatchReport) (n : Node) :
    visit c context r n =
      { r with nodesVisited := r.nodesVisited + 1 }.after context (tasksAt c n) := by
  rw [visit, ← DispatchReport.foldl_perform, tasksAt, List.foldl_map]

/-- Nodes are visited one by one, each before those below it. -/
theorem walk_eq_foldl (c : Catalog) (context : RuleContext) (r : DispatchReport)
    (stack : List Node) :
    walk c context r stack = (stack.flatMap Node.descendants).foldl (visit c context) r := by
  induction r, stack using walk.induct c context with
  | case1 r => simp [walk]
  | case2 r n stack ih =>
    rw [walk, ih, List.flatMap_append, List.flatMap_cons, Node.descendants_eq n, List.cons_append,
      List.foldl_cons]

/-- What visiting some nodes adds to a report. -/
theorem foldl_visit (c : Catalog) (context : RuleContext) (r : DispatchReport)
    (nodes : List Node) :
    nodes.foldl (visit c context) r =
      { r with nodesVisited := r.nodesVisited + nodes.length }.after context
        (nodes.flatMap (tasksAt c)) := by
  induction nodes generalizing r with
  | nil => simp [DispatchReport.after]
  | cons n nodes ih =>
    rw [List.foldl_cons, ih, visit_eq, List.flatMap_cons, DispatchReport.after_append]
    simp [DispatchReport.after, Nat.add_assoc, Nat.add_comm 1]

theorem walk_eq (c : Catalog) (context : RuleContext) (f : SourceFile) :
    walk c context {} [f.root] =
      DispatchReport.after context { nodesVisited := f.nodes.length }
        (f.nodes.flatMap (tasksAt c)) := by
  rw [walk_eq_foldl, foldl_visit]
  simp [SourceFile.nodes]

theorem run_of_compilationUnit {f : SourceFile} (hf : f.kind = .compilationUnit) (c : Catalog)
    (model : SemanticModel) :
    run c f model false = .ok (DispatchReport.after ⟨f, model⟩ { nodesVisited := f.nodes.length }
      (f.nodes.flatMap (tasksAt c))) := by
  rw [← walk_eq]
  simp [run, SourceFile.isCompilationUnit, hf]

/-- A file with the right root is run over. -/
theorem run_eq_ok {f : SourceFile} (hf : f.kind = .compilationUnit) (c : Catalog)
    (model : SemanticModel) : ∃ report, run c f model false = .ok report ∧
      report.diagnostics = f.nodes.flatMap (c.findings ⟨f, model⟩) := by
  refine ⟨_, run_of_compilationUnit hf c model, ?_⟩
  simp [DispatchReport.after, List.flatMap_assoc, flatMap_findings_tasksAt]

/-- The evaluations that rules ask for in a file: node by node, each before those below it, and for
each node the rules that name its kind, in their order. -/
def pairs (rules : List Rule) (f : SourceFile) : List Task :=
  f.nodes.flatMap fun n => (rules.filter fun r => n.kind ∈ r.triggers).map fun r => ⟨n, r⟩

theorem flatMap_tasksAt {rules : List Rule} {c : Catalog} (hc : c.rules = rules) (f : SourceFile) :
    f.nodes.flatMap (tasksAt c) = pairs rules f := by
  have hsame : tasksAt c = fun n =>
      (rules.filter fun r => n.kind ∈ r.triggers).map fun r => ⟨n, r⟩ := by
    funext n
    simp only [tasksAt, Catalog.rulesFor_eq, hc, Rule.triggeredBy, List.contains_eq_mem]
  rw [hsame, pairs]

/-- A run carries out each evaluation that the rules of the catalog ask for, once and in order, and
notes what comes of it: the findings of a rule that ends, and the failure of one that breaks down. -/
theorem run_evaluates_each_pair {rules : List Rule} {c : Catalog}
    (hc : Catalog.ofRules rules = .ok c) {f : SourceFile} (hf : f.kind = .compilationUnit)
    (model : SemanticModel) :
    ∃ report, run c f model false = .ok report ∧
      report.nodesVisited = f.nodes.length ∧
      report.evaluations = (pairs rules f).length ∧
      report.diagnostics = (pairs rules f).flatMap (Task.findings ⟨f, model⟩) ∧
      report.failures = (pairs rules f).filterMap (Task.failure? ⟨f, model⟩) := by
  have hrules := Catalog.rules_of_ofRules hc
  refine ⟨_, run_of_compilationUnit hf c model, ?_⟩
  rw [flatMap_tasksAt hrules]
  simp [DispatchReport.after]

/-- A rule that names a kind twice, and one that always breaks down, at a file with an empty block. -/
theorem run_evaluates_each_pair_block :
    ∃ c report,
      Catalog.ofRules
        [{ code := "A", name := "a", category := .style, message := "seen \x7b0\x7d",
           triggers := [.block, .block], check := fun _ n => .ok [⟨n.span, [n.text]⟩] },
         { code := "B", name := "b", category := .style, message := "",
           triggers := [.compilationUnit, .block], check := fun _ _ => .error "broken" }] = .ok c ∧
      run c ⟨"t.cs", .compilationUnit, [.node .block [.leaf ⟨.punct, "\x7b", [], []⟩,
        .leaf ⟨.punct, "\x7d", [], []⟩], .leaf (.endOfFile [])], []⟩ .empty false = .ok report ∧
      report.nodesVisited = 2 ∧ report.evaluations = 3 ∧
      report.diagnostics.map Diagnostic.message = ["seen \x7b\x7d"] ∧
      report.failures.map (fun e => (e.code, e.location.length)) = [("B", 2), ("B", 2)] := by
  obtain ⟨c, hc⟩ := Catalog.ofRules_eq_ok
    [{ code := "A", name := "a", category := .style, message := "seen \x7b0\x7d",
       triggers := [.block, .block], check := fun _ n => .ok [⟨n.span, [n.text]⟩] },
     { code := "B", name := "b", category := .style, message := "",
       triggers := [.compilationUnit, .block], check := fun _ _ => .error "broken" }] (by decide)
  obtain ⟨report, hrun, hnodes, hevaluations, hdiagnostics, hfailures⟩ :=
    run_evaluates_each_pair hc (f := ⟨"t.cs", .compilationUnit, [.node .block
      [.leaf ⟨.punct, "\x7b", [], []⟩, .leaf ⟨.punct, "\x7d", [], []⟩], .leaf (.endOfFile [])], []⟩)
      rfl .empty
  refine ⟨c, report, hc, hrun, ?_, ?_, ?_, ?_⟩
  · rw [hnodes]
    decide +kernel
  · rw [hevaluations]
    decide +kernel
  · rw [hdiagnostics]
    decide +kernel
  · rw [hfailures]
    decide +kernel

end Dispatch

end PluginLint
