import PluginLint.Proofs.Running

/-!
# Selecting rules

A selection of rules is a catalog of its own, with a table that is made anew. Its run over a file
notes what the run of the whole catalog notes, less what the rules that were left out have noted.
-/
namespace PluginLint

namespace Catalog

/-! ### Which rules are selected -/

/-- A selector means some of the rules, by their name or by their code in upper or lower case. -/
def Means (rules : List Rule) (selector : String) : Prop :=
  ∃ r ∈ rules, r.name = Text.trim selector ∨ Text.eqIgnoreCase r.code (Text.trim selector) = true

/-- Of the rules that a selector means it selects the first. -/
def selected? (rules : List Rule) (selector : String) : Option Rule :=
  rules.find? (selects (Text.trim selector))

theorem isSome_selected? {rules : List Rule} {selector : String} :
    (selected? rules selector).isSome = true ↔ Means rules selector := by
  rw [selected?, List.find?_isSome]
  simp only [Means, selects, Bool.or_eq_true, beq_iff_eq, or_comm]

theorem selected?_eq_none {rules : List Rule} {selector : String} :
    selected? rules selector = none ↔ ¬Means rules selector := by
  rw [← isSome_selected?, Bool.not_eq_true, Option.isSome_eq_false_iff, Option.isNone_iff_eq_none]

/-- Selectors that all mean something select one rule each. -/
theorem wantedCodes_of_means {c : Catalog} {selectors : List String}
    (h : ∀ s ∈ selectors, Means c.rules s) : c.wantedCodes selectors =
      .ok (selectors.filterMap fun s => (selected? c.rules s).map Rule.code) := by
  induction selectors with
  | nil => rfl
  | cons s selectors ih =>
    rw [List.forall_mem_cons] at h
    obtain ⟨r, hr⟩ := Option.isSome_iff_exists.1 (isSome_selected?.2 h.1)
    have hget : c.get? (Text.trim s) = some r := hr
    simp only [wantedCodes, hget, ih h.2, List.filterMap_cons, hr, Option.map_some]
    rfl

/-- The first selector that means nothing is the one that is complained about. -/
theorem wantedCodes_of_not_means {c : Catalog} {before after : List String} {s : String}
    (hbefore : ∀ b ∈ before, Means c.rules b) (hs : ¬Means c.rules s) :
    c.wantedCodes (before ++ s :: after) = .error (.unknownRule (Text.trim s)) := by
  induction before with
  | nil =>
    have hget : c.get? (Text.trim s) = none := selected?_eq_none.2 hs
    rw [List.nil_append, wantedCodes, hget]
    rfl
  | cons b before ih =>
    rw [List.forall_mem_cons] at hbefore
    obtain ⟨r, hr⟩ := Option.isSome_iff_exists.1 (isSome_selected?.2 hbefore.1)
    have hget : c.get? (Text.trim b) = some r := hr
    rw [List.cons_append, wantedCodes, hget, ih hbefore.2]
    rfl

/-- Either all selectors mean something, or there is a first one that does not. -/
theorem means_all_or_first (rules : List Rule) (selectors : List String) :
    (∀ s ∈ selectors, Means rules s) ∨ ∃ before s after, selectors = before ++ s :: after ∧
      (∀ b ∈ before, Means rules b) ∧ ¬Means rules s := by
  cases hfind : selectors.find? fun s => (selected? rules s).isNone with
  | none =>
    refine .inl fun s hs => isSome_selected?.1 ?_
    simpa [Option.isSome_iff_ne_none] using List.find?_eq_none.1 hfind s hs
  | some s =>
    obtain ⟨hs, before, after, hselectors, hbefore⟩ := List.find?_eq_some_iff_append.1 hfind
    refine .inr ⟨before, s, after, hselectors, fun b hb => isSome_selected?.1 ?_, ?_⟩
    · simpa [Option.isSome_iff_ne_none] using hbefore b hb
    · exact selected?_eq_none.1 (Option.isNone_iff_eq_none.1 hs)

/-! ### The catalog of a selection -/

theorem firstRepeated?_of_nodup {seen codes : List String} (hcodes : codes.Nodup)
    (hseen : ∀ c ∈ codes, c ∉ seen) : firstRepeated? seen codes = none := by
  induction codes generalizing seen with
  | nil => rfl
  | cons c codes ih =>
    rw [List.nodup_cons] at hcodes
    rw [List.forall_mem_cons] at hseen
    rw [firstRepeated?, if_neg (by simpa using hseen.1)]
    refine ih hcodes.2 fun d hd => ?_
    rw [List.mem_cons, not_or]
    exact ⟨fun heq => hcodes.1 (heq ▸ hd), hseen.2 d hd⟩

/-- The rules of a catalog make that catalog, since their codes differ. -/
theorem ofRules_rules (c : Catalog) : ofRules c.rules = .ok c := by
  obtain ⟨c', hc'⟩ := ofRules_eq_ok c.rules
    (firstRepeated?_of_nodup c.nodup fun _ _ => List.not_mem_nil)
  have hrules := rules_of_ofRules hc'
  rw [hc', Except.ok.injEq]
  obtain ⟨rules, nodup, routes, hroutes⟩ := c
  obtain ⟨rules', nodup', routes', hroutes'⟩ := c'
  subst hroutes hroutes' hrules
  rfl

/-- The codes that selectors ask for. -/
def asksFor (c : Catalog) (selectors : List String) (r : Rule) : Bool :=
  (selectors.filterMap fun s => (selected? c.rules s).map Rule.code).contains r.code

theorem select_of_means {c : Catalog} {selectors : List String}
    (h : ∀ s ∈ selectors, Means c.rules s) :
    c.select selectors = .ok (c.restrict (c.asksFor selectors)) := by
  rw [select, wantedCodes_of_means h]
  exact ofRules_rules (c.restrict _)

theorem select_of_not_means {c : Catalog} {before after : List String} {s : String}
    (hbefore : ∀ b ∈ before, Means c.rules b) (hs : ¬Means c.rules s) :
    c.select (before ++ s :: after) = .error (.unknownRule (Text.trim s)) := by
  rw [select, wantedCodes_of_not_means hbefore hs]
  rfl

theorem select_eq_error_iff {c : Catalog} {selectors : List String} {e : CatalogError} :
    c.select selectors = .error e ↔ ∃ before s after, selectors = before ++ s :: after ∧
      (∀ b ∈ before, Means c.rules b) ∧ ¬Means c.rules s ∧ e = .unknownRule (Text.trim s) := by
  constructor
  · intro h
    rcases means_all_or_first c.rules selectors with hall | ⟨before, s, after, rfl, hbefore, hs⟩
    · rw [select_of_means hall] at h
      cases h
    · rw [select_of_not_means hbefore hs, Except.error.injEq] at h
      exact ⟨before, s, after, rfl, hbefore, hs, h.symm⟩
  · rintro ⟨before, s, after, rfl, hbefore, hs, rfl⟩
    exact select_of_not_means hbefore hs

theorem select_eq_ok {c c' : Catalog} {selectors : List String} (h : c.select selectors = .ok c') :
    c' = c.restrict (c.asksFor selectors) := by
  rcases means_all_or_first c.rules selectors with hall | ⟨before, s, after, rfl, hbefore, hs⟩
  · rw [select_of_means hall, Except.ok.injEq] at h
    exact h.symm
  · rw [select_of_not_means hbefore hs] at h
    cases h

/-- A rule is asked for if some selector selects it, since no other rule has its code. -/
theorem asksFor_iff {c : Catalog} {selectors : List String} {r : Rule} (hr : r ∈ c.rules) :
    c.asksFor selectors r = true ↔ ∃ s ∈ selectors, selected? c.rules s = some r := by
  rw [asksFor, List.contains_iff_mem, List.mem_filterMap]
  refine exists_congr fun s => and_congr_right fun _ => ?_
  rw [Option.map_eq_some_iff]
  constructor
  · rintro ⟨t, ht, hcode⟩
    obtain rfl : t = r :=
      List.inj_on_of_nodup_map c.nodup (List.mem_of_find?_eq_some ht) hr hcode
    exact ht
  · exact fun h => ⟨r, h, rfl⟩

theorem mem_codes_restrict {c : Catalog} {p : Rule → Bool} {r : Rule} (hr : r ∈ c.rules) :
    r.code ∈ (c.restrict p).codes ↔ p r = true := by
  rw [codes, List.mem_map]
  constructor
  · rintro ⟨t, ht, hcode⟩
    obtain ⟨htmem, hp⟩ := List.mem_filter.1 ht
    obtain rfl : t = r := List.inj_on_of_nodup_map c.nodup htmem hr hcode
    exact hp
  · exact fun hp => ⟨r, List.mem_filter.2 ⟨hr, hp⟩, rfl⟩

end Catalog

/-! ### Runs -/

namespace Dispatch

theorem tasksAt_restrict (c : Catalog) (p : Rule → Bool) (n : Node) :
    tasksAt (c.restrict p) n = (tasksAt c n).filter fun t => p t.rule := by
  rw [tasksAt, tasksAt, Catalog.rulesFor_eq, Catalog.rulesFor_eq, List.filter_map]
  simp only [Catalog.restrict, List.filter_filter, Function.comp_def, Bool.and_comm]

theorem rule_of_mem_tasksAt {c : Catalog} {n : Node} {t : Task} (h : t ∈ tasksAt c n) :
    t.rule ∈ c.rules := by
  obtain ⟨r, hr, rfl⟩ := List.mem_map.1 h
  rw [Catalog.rulesFor_eq] at hr
  exact List.mem_of_mem_filter hr

section kept

variable (context : RuleContext) {q : Task → Bool} {codes : List String} {tasks : List Task}

/-- What is found by tasks that are kept is what is found by all of them, as far as it bears the code
of a rule that is kept. -/
theorem findings_filter (hstamps : ∀ t ∈ tasks, t.rule.Stamps)
    (h : ∀ t ∈ tasks, t.rule.code ∈ codes ↔ q t = true) :
    (tasks.filter q).flatMap (Task.findings context) =
      (tasks.flatMap (Task.findings context)).filter (fun d => d.code ∈ codes) := by
  induction tasks with
  | nil => rfl
  | cons t tasks ih =>
    rw [List.forall_mem_cons] at h hstamps
    have hcode : ∀ d ∈ t.findings context, d.code = t.rule.code := hstamps.1 context t.node
    rw [List.flatMap_cons, List.filter_append, ← ih hstamps.2 h.2]
    cases hq : q t with
    | true =>
      have hmem := h.1.2 hq
      have hown : (t.findings context).filter (fun d => d.code ∈ codes) = t.findings context :=
        List.filter_eq_self.2 fun d hd => by simpa [hcode d hd] using hmem
      rw [List.filter_cons_of_pos hq, List.flatMap_cons, hown]
    | false =>
      have hmem : t.rule.code ∉ codes := fun hin => by simp [h.1.1 hin] at hq
      have hown : (t.findings context).filter (fun d => d.code ∈ codes) = [] :=
        List.filter_eq_nil_iff.2 fun d hd => by simpa [hcode d hd] using hmem
      rw [List.filter_cons_of_neg (by simp [hq]), hown, List.nil_append]

theorem failures_filter (h : ∀ t ∈ tasks, t.rule.code ∈ codes ↔ q t = true) :
    (tasks.filter q).filterMap (Task.failure? context) =
      (tasks.filterMap (Task.failure? context)).filter (fun e => e.code ∈ codes) := by
  induction tasks with
  | nil => rfl
  | cons t tasks ih =>
    rw [List.forall_mem_cons] at h
    rw [List.filterMap_cons, List.filter_cons]
    cases hfail : t.failure? context with
    | none =>
      split
      · rw [List.filterMap_cons, hfail, ih h.2]
      · exact ih h.2
    | some e =>
      have hcode : e.code = t.rule.code := Rule.code_of_failure? hfail
      rw [List.filter_cons, ← ih h.2]
      by_cases hq : q t = true
      · rw [if_pos hq, if_pos (by simpa [hcode] using h.1.2 hq), List.filterMap_cons, hfail]
      · rw [if_neg hq, if_neg (by simpa [hcode] using fun hin => hq (h.1.1 hin))]

end kept

/-- Leaving rules out of a catalog leaves their findings and failures out of its runs. -/
theorem run_restrict {f : SourceFile} (hf : f.kind = .compilationUnit) (c : Catalog)
    (p : Rule → Bool) (model : SemanticModel) :
    ∃ report report', run c f model false = .ok report ∧
      run (c.restrict p) f model false = .ok report' ∧
      (c.Stamped → report'.diagnostics =
        report.diagnostics.filter (fun d => d.code ∈ (c.restrict p).codes)) ∧
      report'.failures = report.failures.filter (fun e => e.code ∈ (c.restrict p).codes) := by
  have htasks : f.nodes.flatMap (tasksAt (c.restrict p)) =
      (f.nodes.flatMap (tasksAt c)).filter fun t => p t.rule := by
    rw [List.filter_flatMap]
    congr 1
    funext n
    exact tasksAt_restrict c p n
  have hcodes : ∀ t ∈ f.nodes.flatMap (tasksAt c),
      t.rule.code ∈ (c.restrict p).codes ↔ p t.rule = true := by
    intro t ht
    obtain ⟨n, -, ht⟩ := List.mem_flatMap.1 ht
    exact Catalog.mem_codes_restrict (rule_of_mem_tasksAt ht)
  refine ⟨_, _, run_of_compilationUnit hf c model, run_of_compilationUnit hf _ model,
    fun hc => ?_, ?_⟩
  · have hstamps : ∀ t ∈ f.nodes.flatMap (tasksAt c), t.rule.Stamps := by
      intro t ht
      obtain ⟨n, -, ht⟩ := List.mem_flatMap.1 ht
      exact hc _ (rule_of_mem_tasksAt ht)
    simpa [DispatchReport.after, htasks] using findings_filter ⟨f, model⟩ hstamps hcodes
  · simpa [DispatchReport.after, htasks] using failures_filter ⟨f, model⟩ hcodes

/-- The rules that are selected make a catalog, in their order, whose runs note what the whole
catalog notes with their codes: of the failures in any case, and of the findings if each rule puts
its own code on them. The selection fails at the first selector that means no rule, and for no other
reason. -/
theorem run_select {rules : List Rule} {c : Catalog} (hc : Catalog.ofRules rules = .ok c)
    (selectors : List String) :
    (∀ c', c.select selectors = .ok c' →
      (c'.rules.Sublist rules ∧
        ∀ r ∈ rules, r ∈ c'.rules ↔ ∃ s ∈ selectors, Catalog.selected? rules s = some r) ∧
      ∀ (f : SourceFile) (model : SemanticModel), f.kind = .compilationUnit →
        ∃ report report', run c f model false = .ok report ∧ run c' f model false = .ok report' ∧
          (c.Stamped → report'.diagnostics = report.diagnostics.filter (fun d => d.code ∈ c'.codes)) ∧
          report'.failures = report.failures.filter (fun e => e.code ∈ c'.codes)) ∧
    ∀ e, c.select selectors = .error e ↔ ∃ before s after, selectors = before ++ s :: after ∧
      (∀ b ∈ before, Catalog.Means rules b) ∧ ¬Catalog.Means rules s ∧
      e = .unknownRule (Text.trim s) := by
  obtain rfl := Catalog.rules_of_ofRules hc
  refine ⟨fun c' hc' => ?_, fun e => Catalog.select_eq_error_iff⟩
  obtain rfl := Catalog.select_eq_ok hc'
  refine ⟨⟨List.filter_sublist, fun r hr => ?_⟩, fun f model hf => run_restrict hf c _ model⟩
  rw [← Catalog.asksFor_iff hr]
  exact ⟨fun h => (List.mem_filter.1 h).2, fun h => List.mem_filter.2 ⟨hr, h⟩⟩

/-- One rule selected twice, by its name and by its code, of two that look at blocks; and a
selection with two selectors that mean nothing. -/
theorem run_select_twice :
    let first : Rule :=
      { code := "CT1", name := "a", category := .style, message := "seen \x7b0\x7d",
        triggers := [.block], check := fun _ n => .ok [⟨n.span, [n.text]⟩] }
    let second : Rule :=
      { code := "CT2", name := "b", category := .style, message := "",
        triggers := [.compilationUnit, .block], check := fun _ _ => .error "broken" }
    let f : SourceFile := ⟨"t.cs", .compilationUnit, [.node .block [.leaf ⟨.punct, "\x7b", [], []⟩,
      .leaf ⟨.punct, "\x7d", [], []⟩], .leaf (.endOfFile [])], []⟩
    let c : Catalog := { rules := [first, second], nodup := by decide }
    Catalog.ofRules [first, second] = .ok c ∧
      (∃ c' report report', c.select [" a ", "ct1"] = .ok c' ∧ c'.codes = ["CT1"] ∧
        run c f .empty false = .ok report ∧ run c' f .empty false = .ok report' ∧
        report'.diagnostics = report.diagnostics.filter (fun d => d.code ∈ c'.codes) ∧
        report'.failures = report.failures.filter (fun e => e.code ∈ c'.codes) ∧
        report.failures.map RuleFailure.code = ["CT2", "CT2"]) ∧
      c.select ["CT2", " x", "y"] = .error (.unknownRule "x") := by
  intro first second f c
  have hc : Catalog.ofRules [first, second] = .ok c := Catalog.ofRules_rules c
  have hselect : c.select [" a ", "ct1"] = .ok (c.restrict (c.asksFor [" a ", "ct1"])) :=
    Catalog.select_of_means fun s hs => by
      rcases List.mem_pair.1 hs with rfl | rfl
      · exact ⟨first, List.mem_cons_self, .inl (by decide +kernel)⟩
      · exact ⟨first, List.mem_cons_self, .inr (by decide +kernel)⟩
  obtain ⟨report, report', hrun, hrun', hdiagnostics, hfailures⟩ :=
    ((run_select hc [" a ", "ct1"]).1 _ hselect).2 f .empty rfl
  have hreport := Except.ok.inj (hrun.symm.trans (run_of_compilationUnit rfl c .empty))
  have hstamped : c.Stamped := by
    have hreports : ∀ r ∈ [first, second], r.ReportsViolations := by
      rintro r hr context n
      rcases List.mem_pair.1 hr with rfl | rfl <;> rfl
    exact fun r hr => (hreports r hr).stamps
  refine ⟨hc, ⟨_, report, report', hselect, ?_, hrun, hrun', hdiagnostics hstamped, hfailures, ?_⟩, ?_⟩
  · decide +kernel
  · rw [hreport]
    decide +kernel
  · refine ((run_select hc ["CT2", " x", "y"]).2 _).2 ⟨["CT2"], " x", ["y"], rfl, ?_, ?_, ?_⟩
    · rintro b hb
      obtain rfl := List.mem_singleton.1 hb
      exact ⟨second, by simp, .inr (by decide +kernel)⟩
    · rintro ⟨r, hr, hmeans⟩
      revert hmeans
      rcases List.mem_pair.1 hr with rfl | rfl <;> decide +kernel
    · decide +kernel

end Dispatch

end PluginLint
