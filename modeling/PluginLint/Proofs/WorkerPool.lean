import Mathlib.Data.List.Count
import Mathlib.Logic.Relation
import PluginLint.Proofs.Running

/-!
# Several workers at one file

The workers take the nodes in any order, and at a node the rules in the order of the table. An
evaluation is counted when it begins, and noted in one piece when it is over, so that between the two
the other workers may do anything. Whatever they do, the evaluations that are over and those to come
are together those of the file. A report at the end has therefore what a run by one worker has, in
another order.
-/
namespace PluginLint

namespace DispatchReport

/-- Two reports with the same content, up to the order of findings and of failures. -/
structure Agrees (r r' : DispatchReport) : Prop where
  diagnostics : r.diagnostics.Perm r'.diagnostics
  failures : r.failures.Perm r'.failures
  nodesVisited : r.nodesVisited = r'.nodesVisited
  evaluations : r.evaluations = r'.evaluations

theorem after_agrees {tasks tasks' : List Task} (h : tasks.Perm tasks') (context : RuleContext)
    (r : DispatchReport) : (r.after context tasks).Agrees (r.after context tasks') where
  diagnostics := (h.flatMap_right _).append_left _
  failures := (h.filterMap _).append_left _
  nodesVisited := rfl
  evaluations := by simp only [after, h.length_eq]

/-- Counts an evaluation that begins. -/
def begin (r : DispatchReport) : DispatchReport := { r with evaluations := r.evaluations + 1 }

/-- Notes what comes of an evaluation. -/
def note (context : RuleContext) (r : DispatchReport) (t : Task) : DispatchReport :=
  match t.rule.evaluate context t.node with
  | .ok found => { r with diagnostics := r.diagnostics ++ found }
  | .error failure => { r with failures := r.failures ++ [failure] }

theorem note_eq (context : RuleContext) (r : DispatchReport) (t : Task) :
    r.note context t =
      { r with
        diagnostics := r.diagnostics ++ t.findings context
        failures := r.failures ++ (t.failure? context).toList } := by
  unfold note Rule.evaluate Task.findings Task.failure? Rule.findings Rule.failure?
  cases t.rule.report context t.node <;> simp

end DispatchReport

namespace Dispatch

theorem tasks_eq (c : Catalog) (f : SourceFile) : tasks c f = f.nodes.flatMap (tasksAt c) := by
  have hall : ∀ nodes : List Node, (nodes.filter fun n => !(c.rulesFor n.kind).isEmpty).flatMap
      (tasksAt c) = nodes.flatMap (tasksAt c) := by
    intro nodes
    induction nodes with
    | nil => rfl
    | cons n nodes ih =>
      by_cases hn : c.rulesFor n.kind = []
      · simp [hn, ih, tasksAt]
      · simp [hn, ih]
  exact hall f.nodes

end Dispatch

/-- A worker has begun at most one evaluation, and has some left at its node. -/
structure Worker where
  current : Option Task := none
  waiting : List Task := []

/-- The evaluations of a worker that are not over. -/
def Worker.pending (w : Worker) : List Task := w.current.toList ++ w.waiting

/-- Workers, with the nodes that nobody has taken and the report that they share. -/
structure Pool where
  report : DispatchReport
  nodes : List Node
  workers : List Worker

namespace Pool
open Relation

/-- The workers before they start, with the nodes that some rule looks at. -/
def start (c : Catalog) (f : SourceFile) (workers : Nat) : Pool where
  report := { nodesVisited := f.nodes.length }
  nodes := Dispatch.workNodes c f
  workers := List.replicate workers {}

/-- Nothing is left to do. -/
def Finished (p : Pool) : Prop := p.nodes = [] ∧ ∀ w ∈ p.workers, w.pending = []

/-- What one worker can do while the others stand still. -/
inductive Step (c : Catalog) (context : RuleContext) : Pool → Pool → Prop
  /-- A worker with nothing to do takes a node. -/
  | take (report : DispatchReport) (front back : List Node) (n : Node) (left right : List Worker) :
    Step c context ⟨report, front ++ n :: back, left ++ {} :: right⟩
      ⟨report, front ++ back, left ++ ⟨none, Dispatch.tasksAt c n⟩ :: right⟩
  /-- A worker begins the next evaluation at its node. -/
  | begin (report : DispatchReport) (nodes : List Node) (t : Task) (waiting : List Task)
      (left right : List Worker) :
    Step c context ⟨report, nodes, left ++ ⟨none, t :: waiting⟩ :: right⟩
      ⟨report.begin, nodes, left ++ ⟨some t, waiting⟩ :: right⟩
  /-- A worker notes what came of its evaluation. -/
  | note (report : DispatchReport) (nodes : List Node) (t : Task) (waiting : List Task)
      (left right : List Worker) :
    Step c context ⟨report, nodes, left ++ ⟨some t, waiting⟩ :: right⟩
      ⟨report.note context t, nodes, left ++ ⟨none, waiting⟩ :: right⟩

/-- The workers go on for some steps. -/
abbrev Steps (c : Catalog) (context : RuleContext) : Pool → Pool → Prop :=
  ReflTransGen (Step c context)

/-- The evaluations that are not over. -/
def pending (c : Catalog) (p : Pool) : List Task :=
  p.workers.flatMap Worker.pending ++ p.nodes.flatMap (Dispatch.tasksAt c)

/-- The evaluations that have begun and are not over. -/
def begun (p : Pool) : List Task := p.workers.flatMap fun w => w.current.toList

theorem pending_of_finished {p : Pool} (h : p.Finished) (c : Catalog) : p.pending c = [] := by
  have hworkers : p.workers.flatMap Worker.pending = [] := List.flatMap_eq_nil_iff.2 h.2
  rw [pending, hworkers, h.1]
  rfl

theorem begun_le_pending (p : Pool) (c : Catalog) : p.begun.length ≤ (p.pending c).length := by
  have hworkers : ∀ workers : List Worker,
      (workers.flatMap fun w => w.current.toList).length ≤
        (workers.flatMap Worker.pending).length := by
    intro workers
    induction workers with
    | nil => simp
    | cons w workers ih =>
      simp only [List.flatMap_cons, List.length_append, Worker.pending]
      omega
  have hp := hworkers p.workers
  rw [pending, List.length_append]
  unfold begun
  omega

/-- What becomes of the evaluations in a step: none of them moves on but by being begun or noted. -/
theorem Step.effect {c : Catalog} {context : RuleContext} {p q : Pool} (h : Step c context p q) :
    (q.report = p.report ∧ (q.pending c).Perm (p.pending c) ∧
      q.begun.length = p.begun.length ∧ q.nodes.length + 1 = p.nodes.length) ∨
    (q.report = p.report.begin ∧ (q.pending c).Perm (p.pending c) ∧
      q.begun.length = p.begun.length + 1 ∧ q.nodes.length = p.nodes.length) ∨
    ∃ t, q.report = p.report.note context t ∧ (t :: q.pending c).Perm (p.pending c) ∧
      q.begun.length + 1 = p.begun.length ∧ q.nodes.length = p.nodes.length := by
  classical
  cases h with
  | take report front back n left right =>
    refine .inl ⟨rfl, ?_, ?_, ?_⟩
    · rw [List.perm_iff_count]
      intro t
      simp only [pending, Worker.pending, Option.toList_none, List.flatMap_append,
        List.flatMap_cons, List.count_append, List.nil_append]
      omega
    · simp [begun]
    · simp only [List.length_append, List.length_cons]
      omega
  | begin report nodes t waiting left right =>
    refine .inr (.inl ⟨rfl, ?_, ?_, rfl⟩)
    · simp [pending, Worker.pending]
    · simp only [begun, List.flatMap_append, List.flatMap_cons, List.length_append,
        Option.toList_none, Option.toList_some, List.length_nil, List.length_singleton]
      omega
  | note report nodes t waiting left right =>
    refine .inr (.inr ⟨t, rfl, ?_, ?_, rfl⟩)
    · rw [List.perm_iff_count]
      intro s
      simp only [pending, Worker.pending, Option.toList_none, Option.toList_some,
        List.flatMap_append, List.flatMap_cons, List.count_append, List.count_cons, List.count_nil,
        List.nil_append]
      omega
    · simp only [begun, List.flatMap_append, List.flatMap_cons, List.length_append,
        Option.toList_none, Option.toList_some, List.length_nil, List.length_singleton]
      omega

/-! ### What the report says at any time -/

section Report
variable {c : Catalog} {f : SourceFile} {model : SemanticModel}

/-- What the report says after some evaluations are over, in order, while others have begun. -/
structure Records (c : Catalog) (f : SourceFile) (model : SemanticModel) (ended : List Task)
    (p : Pool) : Prop where
  perm : (ended ++ p.pending c).Perm (Dispatch.tasks c f)
  report : p.report =
    { DispatchReport.after ⟨f, model⟩ { nodesVisited := f.nodes.length } ended with
      evaluations := ended.length + p.begun.length }

theorem records_start (c : Catalog) (f : SourceFile) (model : SemanticModel) (workers : Nat) :
    Records c f model [] (start c f workers) := by
  have hidle : ∀ w ∈ (start c f workers).workers, w.pending = [] := by
    intro w hw
    rw [List.eq_of_mem_replicate hw]
    rfl
  have hpending : (start c f workers).pending c = Dispatch.tasks c f := by
    rw [pending, List.flatMap_eq_nil_iff.2 hidle]
    rfl
  have hbegun : (start c f workers).begun = [] := by
    have hle := begun_le_pending ⟨{}, [], (start c f workers).workers⟩ c
    rw [pending, List.flatMap_eq_nil_iff.2 hidle] at hle
    exact List.eq_nil_of_length_eq_zero (Nat.le_zero.1 hle)
  constructor
  · rw [hpending, List.nil_append]
  · rw [hbegun]
    rfl

/-- A step ends at most one evaluation, and loses none. -/
theorem Records.step {ended : List Task} {p q : Pool} (h : Records c f model ended p)
    (hstep : Step c ⟨f, model⟩ p q) : ∃ ended', Records c f model ended' q := by
  obtain ⟨hperm, hreport⟩ := h
  obtain ⟨hq, hpending, hbegun, -⟩ | ⟨hq, hpending, hbegun, -⟩ | ⟨t, hq, hpending, hbegun, -⟩ :=
    hstep.effect
  · refine ⟨ended, (hpending.append_left ended).trans hperm, ?_⟩
    rw [hq, hreport, hbegun]
  · refine ⟨ended, (hpending.append_left ended).trans hperm, ?_⟩
    rw [hq, hreport, hbegun]
    rfl
  · refine ⟨ended ++ [t], ?_, ?_⟩
    · rw [List.append_assoc]
      exact (hpending.append_left ended).trans hperm
    · have hcount : ended.length + p.begun.length = (ended ++ [t]).length + q.begun.length := by
        rw [List.length_append, List.length_singleton]
        omega
      have hfailures : (Task.failure? ⟨f, model⟩ t).toList =
          [t].filterMap (Task.failure? ⟨f, model⟩) := by
        cases h : Task.failure? ⟨f, model⟩ t <;> simp [h]
      rw [hq, hreport, DispatchReport.note_eq, hcount, hfailures]
      simp [DispatchReport.after]

theorem Records.steps {ended : List Task} {p q : Pool} (h : Records c f model ended p)
    (hsteps : Steps c ⟨f, model⟩ p q) : ∃ ended', Records c f model ended' q := by
  induction hsteps with
  | refl => exact ⟨ended, h⟩
  | tail _ hstep ih =>
    obtain ⟨ended', h'⟩ := ih
    exact h'.step hstep

/-- At the end, all evaluations of the file are over, in some order. -/
theorem Records.report_of_finished {ended : List Task} {p : Pool} (h : Records c f model ended p)
    (hp : p.Finished) : ended.Perm (Dispatch.tasks c f) ∧
      p.report = DispatchReport.after ⟨f, model⟩ { nodesVisited := f.nodes.length } ended := by
  have hpending := pending_of_finished hp c
  have hbegun : p.begun.length = 0 := by
    have hle := begun_le_pending p c
    rwa [hpending, List.length_nil, Nat.le_zero] at hle
  constructor
  · have hperm := h.perm
    rwa [hpending, List.append_nil] at hperm
  · rw [h.report, hbegun]
    simp [DispatchReport.after]

end Report

/-! ### Workers get to the end -/

section Progress
variable {c : Catalog} {context : RuleContext}

/-- The steps that are left: one for each node, two for each evaluation. -/
def work (c : Catalog) (p : Pool) : Nat :=
  p.nodes.length + 2 * (p.pending c).length - p.begun.length

theorem Step.work_lt {p q : Pool} (h : Step c context p q) : q.work c < p.work c := by
  have hp := begun_le_pending p c
  have hq := begun_le_pending q c
  unfold work
  obtain ⟨-, hpending, hbegun, hnodes⟩ | ⟨-, hpending, hbegun, hnodes⟩ |
    ⟨t, -, hpending, hbegun, hnodes⟩ := h.effect
  · have hlength := hpending.length_eq
    omega
  · have hlength := hpending.length_eq
    omega
  · have hlength := hpending.length_eq
    rw [List.length_cons] at hlength
    omega

theorem Step.workers_ne_nil {p q : Pool} (h : Step c context p q) : q.workers ≠ [] := by
  cases h <;> simp

/-- As long as something is left to do, some worker can go on. -/
theorem exists_step {p : Pool} (hworkers : p.workers ≠ []) (hp : ¬p.Finished) :
    ∃ q, Step c context p q := by
  obtain ⟨report, nodes, workers⟩ := p
  by_cases hbusy : ∀ w ∈ workers, w.pending = []
  · obtain ⟨w, right, rfl⟩ := List.exists_cons_of_ne_nil hworkers
    have hidle : w = {} := by
      obtain ⟨current, waiting⟩ := w
      simpa [Worker.pending] using hbusy _ List.mem_cons_self
    have hnodes : nodes ≠ [] := fun h => hp ⟨h, hbusy⟩
    obtain ⟨n, back, rfl⟩ := List.exists_cons_of_ne_nil hnodes
    subst hidle
    exact ⟨_, .take report [] back n [] right⟩
  · push Not at hbusy
    obtain ⟨⟨current, waiting⟩, hw, hpending⟩ := hbusy
    obtain ⟨left, right, rfl⟩ := List.append_of_mem hw
    cases current with
    | some t => exact ⟨_, .note report nodes t waiting left right⟩
    | none =>
      have hwaiting : waiting ≠ [] := hpending
      obtain ⟨t, waiting, rfl⟩ := List.exists_cons_of_ne_nil hwaiting
      exact ⟨_, .begin report nodes t waiting left right⟩

/-- Workers can always be brought to the end; as each step leaves less work, they get there. -/
theorem exists_finished {p : Pool} (hworkers : p.workers ≠ []) :
    ∃ q, Steps c context p q ∧ q.Finished := by
  by_cases hp : p.Finished
  · exact ⟨p, .refl, hp⟩
  · obtain ⟨q, hstep⟩ : ∃ q, Step c context p q := exists_step hworkers hp
    have hless := hstep.work_lt
    obtain ⟨r, hsteps, hr⟩ : ∃ r, Steps c context q r ∧ r.Finished :=
      exists_finished hstep.workers_ne_nil
    exact ⟨r, hsteps.head hstep, hr⟩
termination_by p.work c

theorem Steps.workers_ne_nil {p q : Pool} (h : Steps c context p q) (hp : p.workers ≠ []) :
    q.workers ≠ [] := by
  cases h with
  | refl => exact hp
  | tail _ hstep => exact hstep.workers_ne_nil

end Progress

end Pool

namespace Dispatch

theorem runParallel_of_compilationUnit {f : SourceFile} (hf : f.kind = .compilationUnit)
    (c : Catalog) (model : SemanticModel) (s : Schedule c f) :
    runParallel c f model false s =
      .ok (DispatchReport.after ⟨f, model⟩ { nodesVisited := f.nodes.length } s.order) := by
  rw [← DispatchReport.foldl_perform]
  simp [runParallel, SourceFile.isCompilationUnit, hf]

/-- Several workers report what one worker reports, up to order: when the evaluations are carried out
one after the other in any order, and when they are interleaved in any way. Then the workers can
always be brought to the end, and their report is one for some order of the evaluations. -/
theorem runParallel_agrees_with_run {f : SourceFile} (hf : f.kind = .compilationUnit) (c : Catalog)
    (model : SemanticModel) :
    ∃ report, run c f model false = .ok report ∧
      (∀ s : Schedule c f, ∃ r, runParallel c f model false s = .ok r ∧ r.Agrees report) ∧
      ∀ workers p, Pool.Steps c ⟨f, model⟩ (.start c f workers) p →
        (p.Finished → p.report.Agrees report ∧
          ∃ s, runParallel c f model false s = .ok p.report) ∧
        (0 < workers → ∃ q, Pool.Steps c ⟨f, model⟩ p q ∧ q.Finished) := by
  have hrun := run_of_compilationUnit hf c model
  rw [← tasks_eq] at hrun
  refine ⟨_, hrun, ?_, ?_⟩
  · intro s
    exact ⟨_, runParallel_of_compilationUnit hf c model s, DispatchReport.after_agrees s.perm _ _⟩
  · intro workers p hsteps
    constructor
    · intro hp
      obtain ⟨ended, hended⟩ := (Pool.records_start c f model workers).steps hsteps
      obtain ⟨hperm, hreport⟩ := hended.report_of_finished hp
      rw [hreport]
      exact ⟨DispatchReport.after_agrees hperm _ _, ⟨ended, hperm⟩,
        runParallel_of_compilationUnit hf c model _⟩
    · intro hworkers
      have hstart : (Pool.start c f workers).workers ≠ [] := by
        simpa [Pool.start] using Nat.ne_of_gt hworkers
      exact Pool.exists_finished (hsteps.workers_ne_nil hstart)

/-- One rule at two blocks: in turn, in reverse, and by two workers. -/
theorem runParallel_agrees_with_run_blocks :
    ∃ (c : Catalog) (f : SourceFile) (s : Schedule c f) (report r : DispatchReport) (p : Pool),
      f.kind = .compilationUnit ∧ run c f .empty false = .ok report ∧
      report.diagnostics.map Diagnostic.message = ["x", "y"] ∧
      runParallel c f .empty false s = .ok r ∧
      r.diagnostics.map Diagnostic.message = ["y", "x"] ∧ r.Agrees report ∧
      Pool.Steps c ⟨f, .empty⟩ (.start c f 2) p ∧ p.Finished ∧ p.report.Agrees report := by
  let c : Catalog :=
    { rules := [{ code := "A", name := "a", category := .style, message := "\x7b0\x7d",
                  triggers := [.block], check := fun _ n => .ok [⟨n.span, [n.text]⟩] }]
      nodup := by decide }
  let f : SourceFile := ⟨"t.cs", .compilationUnit, [.node .block [.leaf ⟨.identifier, "x", [], []⟩],
    .node .block [.leaf ⟨.identifier, "y", [], []⟩]], []⟩
  let s : Schedule c f := ⟨(tasks c f).reverse, List.reverse_perm _⟩
  have hf : f.kind = .compilationUnit := rfl
  obtain ⟨report, hrun, horders, hpool⟩ := runParallel_agrees_with_run hf c .empty
  obtain ⟨r, hr, hagrees⟩ := horders s
  obtain ⟨p, hsteps, hp⟩ := (hpool 2 (.start c f 2) .refl).2 (by decide)
  have hreport : report.diagnostics.map Diagnostic.message = ["x", "y"] := by
    rw [run_of_compilationUnit hf] at hrun
    cases hrun
    decide +kernel
  have hreversed : r.diagnostics.map Diagnostic.message = ["y", "x"] := by
    rw [runParallel_of_compilationUnit hf] at hr
    cases hr
    decide +kernel
  exact ⟨c, f, s, report, r, p, hf, hrun, hreport, hr, hreversed, hagrees, hsteps, hp,
    ((hpool 2 p hsteps).1 hp).1⟩

end Dispatch

end PluginLint
