import PluginLint.Project.Check
import PluginLint.Project.Repair
import PluginLint.Proofs.Edits.BraceRules
import PluginLint.Proofs.Edits.Wholeness

/-!
# The edits that a check asks for

The rules with a fix are the two about braces. At a node they ask for one edit at most, for the body
that the node has. A check of several files puts together what is asked for in each of them, so the
edits for a path are those of all files with this path.
-/
namespace PluginLint

namespace Rules

/-- The edit that the two rules about braces ask for at a node. -/
def askedAt? (n : Node) : Option Edit :=
  (checkedBody? n).bind fun body =>
    if isBare body.outline then some ⟨body.span, .addBraces⟩
    else if noBracesForControlFlow.triggeredBy n.kind && isBracedJump body.outline then
      some ⟨body.span, .removeBraces⟩
    else none

/-- A node has a body for which one of the two rules asks for an edit. -/
structure Asks (n body : Node) (edit : Edit) : Prop where
  checked : checkedBody? n = some body
  span : edit.span = body.span
  faulty : edit.fix = .addBraces ∧ isBare body.outline = true ∨
    edit.fix = .removeBraces ∧ noBracesForControlFlow.triggeredBy n.kind = true ∧
      isBracedJump body.outline = true

theorem isBracedJump_of_isBare {o : Outline} (h : isBare o = true) : isBracedJump o = false := by
  simp only [isBare, Bool.not_eq_true', Bool.or_eq_false_iff] at h
  simp [isBracedJump, h.1]

theorem askedAt?_eq_some {n : Node} {edit : Edit} :
    askedAt? n = some edit ↔ ∃ body, Asks n body edit := by
  obtain ⟨span, fix⟩ := edit
  unfold askedAt?
  rw [Option.bind_eq_some_iff]
  refine exists_congr fun body => ⟨fun ⟨hbody, h⟩ => ?_, fun h => ⟨h.checked, ?_⟩⟩
  · split at h
    · rename_i hbare
      cases h
      exact ⟨hbody, rfl, .inl ⟨rfl, hbare⟩⟩
    · split at h
      · rename_i hbraced
        cases h
        rw [Bool.and_eq_true] at hbraced
        exact ⟨hbody, rfl, .inr ⟨rfl, hbraced⟩⟩
      · cases h
  · obtain ⟨-, hspan, hfaulty⟩ := h
    dsimp only at hspan hfaulty
    subst hspan
    rcases hfaulty with ⟨rfl, hbare⟩ | ⟨rfl, htriggered, hbraced⟩
    · rw [if_pos hbare]
    · have hnot : ¬isBare body.outline = true := fun hbare => by
        rw [isBracedJump_of_isBare hbare] at hbraced
        cases hbraced
      rw [if_neg hnot, if_pos (by simp [htriggered, hbraced])]

namespace Asks

variable {n body : Node} {edit : Edit}

theorem accepts (h : Asks n body edit) : edit.fix.accepts body = true := by
  obtain ⟨before, after, hb⟩ := hasBody_of_checkedBody? h.checked
  rcases h.faulty with ⟨hfix, hbare⟩ | ⟨hfix, -, hbraced⟩
  · have hkind : (body.kind == .block) = false := by
      simp only [isBare, Node.outline, Bool.not_eq_true', Bool.or_eq_false_iff] at hbare
      exact hbare.1
    simp [hfix, Fix.accepts, hb.statement, bne, hkind]
  · rw [isBracedJump, Bool.and_eq_true] at hbraced
    simpa [hfix, Fix.accepts, Node.outline] using hbraced.1

/-- The body of a braced jump is a block with a single statement. -/
theorem exists_statement (h : Asks n body edit) (hfix : edit.fix = .removeBraces) :
    body.kind = .block ∧ ∃ s, body.singleStatement? = some s ∧ isJump s.kind = true := by
  rcases h.faulty with ⟨hother, -⟩ | ⟨-, -, hbraced⟩
  · rw [hfix] at hother
    cases hother
  · rw [isBracedJump_outline] at hbraced
    obtain ⟨word, hword⟩ := Option.isSome_iff_exists.1 hbraced
    obtain ⟨s, hs, hjump⟩ := Option.bind_eq_some_iff.1 hword
    exact ⟨(Node.childNodes_of_singleStatement? hs).1, s, hs, by simp [isJump, hjump]⟩

/-- The edit can be made, or there are comments in its way. -/
theorem replacement_cases (h : Asks n body edit) :
    (∃ new, SourceFile.replacement edit.fix body = .ok new) ∨
      edit.fix = .removeBraces ∧
        SourceFile.replacement edit.fix body = .error (.commentsInside edit.span) := by
  cases hfix : edit.fix with
  | addBraces => exact .inl ⟨_, rfl⟩
  | removeBraces =>
    obtain ⟨hkind, s, hs, -⟩ := h.exists_statement hfix
    rw [h.span, SourceFile.replacement, Node.unwrapped, if_pos hkind, hs]
    dsimp only
    split
    · exact .inr ⟨rfl, rfl⟩
    · exact .inl ⟨_, rfl⟩

end Asks

end Rules

namespace SourceFile

open Rules

/-- The edits that the two rules about braces ask for in a file. -/
def asked (f : SourceFile) : List Edit := f.nodes.filterMap askedAt?

theorem mem_asked {f : SourceFile} {edit : Edit} :
    edit ∈ f.asked ↔ ∃ n ∈ f.nodes, ∃ body, Asks n body edit := by
  rw [asked, List.mem_filterMap]
  exact exists_congr fun n => and_congr_right fun _ => askedAt?_eq_some

/-- The body for which an edit is asked is found by its span. -/
theorem Parsed.locate_asked {tokens : List Token} {f : SourceFile} (hf : Parsed tokens f)
    {n body : Node} (hn : n ∈ f.nodes) {edit : Edit} (h : Asks n body edit) :
    f.locate edit = .ok body := by
  obtain ⟨span, fix⟩ := edit
  obtain ⟨before, after, hb⟩ := hasBody_of_checkedBody? h.checked
  obtain ⟨pre, post, hstands⟩ := stands_of_mem_nodes hn
  obtain rfl : span = body.span := h.span
  exact hf.locate_body hstands hb h.accepts

/-- An edit that is asked for lies in the file. -/
theorem Parsed.span_of_asked {tokens : List Token} {f : SourceFile} (hf : Parsed tokens f)
    {edit : Edit} (h : edit ∈ f.asked) :
    edit.span.start < edit.span.stop ∧ edit.span.stop ≤ f.text.utf8ByteSize := by
  obtain ⟨n, hn, body, hasks⟩ := mem_asked.1 h
  exact hf.span_bounds (hf.locate_asked hn hasks)

end SourceFile

namespace Catalog

open Rules SourceFile

theorem rules_fixable : fixable.rules = [bracesForControlFlow, noBracesForControlFlow] := rfl

/-- What is found at a node is what is asked for there. -/
theorem findings_fixable {f : SourceFile} (model : SemanticModel) {n : Node}
    (hspan : ∀ edit, askedAt? n = some edit → edit.span.start ≤ edit.span.stop) :
    List.Forall₂ (fun d edit => d.AsksFor edit ∧ d.location.file = f.path)
      (fixable.findings ⟨f, model⟩ n) (askedAt? n).toList := by
  have hfindings : fixable.findings ⟨f, model⟩ n =
      (if bracesForControlFlow.triggeredBy n.kind then
        (bareBody n).map (bracesForControlFlow.diagnostic f) else []) ++
      (if noBracesForControlFlow.triggeredBy n.kind then
        (bracedJump n).map (noBracesForControlFlow.diagnostic f) else []) := by
    rw [findings, rulesFor_eq, rules_fixable, List.filter_cons, List.filter_cons, List.filter_nil]
    split <;> split <;> simp [findings_bracesForControlFlow, findings_noBracesForControlFlow]
  rw [hfindings]
  cases hbody : checkedBody? n with
  | none => simp [bareBody, bracedJump, askedAt?, hbody]
  | some body =>
    have hcontrol : bracesForControlFlow.triggeredBy n.kind = true :=
      (hasBody_of_checkedBody? hbody).choose_spec.choose_spec.control
    have hbare : bareBody n = if isBare body.outline then [⟨body.span, [controlKeyword n]⟩] else [] := by
      simp only [bareBody, hbody, isBare, Node.outline]
      by_cases h : (body.kind == .block || isJump body.kind) = true <;> simp [h]
    rw [if_pos hcontrol, hbare]
    by_cases hb : isBare body.outline = true
    · have hnone : bracedJump n = [] := by
        have hbraced := isBracedJump_outline body
        rw [isBracedJump_of_isBare hb] at hbraced
        have hword := Option.not_isSome_iff_eq_none.1 (Bool.eq_false_iff.1 hbraced.symm)
        simp only [bracedJump, hbody, hword]
      have hasked : askedAt? n = some ⟨body.span, .addBraces⟩ := by
        simp [askedAt?, hbody, hb]
      simp only [hb, if_true, hnone, hasked, Option.toList_some, List.map_nil, ite_self,
        List.append_nil, List.map_cons]
      exact .cons ⟨Rule.asksFor_diagnostic rfl f (hspan _ hasked), rfl⟩ .nil
    · rw [if_neg hb]
      by_cases htriggered : noBracesForControlFlow.triggeredBy n.kind = true
      · rw [if_pos htriggered, bracedJump, hbody]
        dsimp only
        have hbraced := isBracedJump_outline body
        split
        · rename_i word hword
          rw [hword] at hbraced
          have hasked : askedAt? n = some ⟨body.span, .removeBraces⟩ := by
            simp [askedAt?, hbody, hb, htriggered, hbraced]
          rw [hasked]
          exact .cons ⟨Rule.asksFor_diagnostic rfl f (hspan _ hasked), rfl⟩ .nil
        · rename_i hword
          rw [hword] at hbraced
          simp [askedAt?, hbody, hb, hbraced]
      · rw [if_neg htriggered]
        simp [askedAt?, hbody, hb, htriggered]

end Catalog

/-! ### Checks of several files -/

theorem exists_of_mem_forall₂ {α β : Type} {R : α → β → Prop} {as : List α} {bs : List β} {a : α}
    (h : List.Forall₂ R as bs) (ha : a ∈ as) : ∃ b ∈ bs, R a b := by
  induction h with
  | nil => cases ha
  | cons hab _ ih =>
    rcases List.mem_cons.1 ha with rfl | ha
    · exact ⟨_, List.mem_cons_self, hab⟩
    · obtain ⟨b, hb, hrel⟩ := ih ha
      exact ⟨b, List.mem_cons_of_mem _ hb, hrel⟩

/-- A list goes with its pairs, if there is a partner for each of its elements. -/
theorem forall₂_zip_left {α β : Type} {R : α × β → α → Prop} {as : List α} {bs : List β}
    (hlength : bs.length = as.length) (h : ∀ a ∈ as, ∀ b, R (a, b) a) :
    List.Forall₂ R (as.zip bs) as := by
  induction as generalizing bs with
  | nil => exact .nil
  | cons a as ih =>
    cases bs with
    | nil => cases hlength
    | cons b bs =>
      rw [List.forall_mem_cons] at h
      exact .cons (h.1 b) (ih (by simpa using hlength) h.2)

theorem Binding.length_bind (files : List SourceFile) : (bind files).length = files.length := by
  have hscopes : ∀ (everywhere : Imports) (files : List SourceFile) (d : Declarations),
      (Compilation.collectAll everywhere d files).2.length = files.length := by
    intro everywhere files
    induction files with
    | nil => intro d; rfl
    | cons f fs ih =>
      intro d
      rw [Compilation.collectAll, List.length_cons, ih, List.length_cons]
  simp [bind, Compilation.ofFiles, hscopes]

/-- Files with the right root are checked, one after the other. -/
theorem checkFiles_eq_ok (c : Catalog) {files : List SourceFile}
    (h : ∀ f ∈ files, f.kind = .compilationUnit) :
    ∃ result, checkFiles c files false = .ok result ∧
      result.diagnostics = (files.zip (Binding.bind files)).flatMap fun p =>
        p.1.nodes.flatMap (c.findings ⟨p.1, p.2⟩) := by
  have hall : ∀ pairs : List (SourceFile × SemanticModel),
      (∀ p ∈ pairs, p.1.kind = .compilationUnit) → ∃ reports,
        pairs.mapM (fun p => Workers.one.run c p.1 p.2 false) = .ok reports ∧
        reports.flatMap DispatchReport.diagnostics = pairs.flatMap fun p =>
          p.1.nodes.flatMap (c.findings ⟨p.1, p.2⟩) := by
    intro pairs hpairs
    induction pairs with
    | nil => exact ⟨[], rfl, rfl⟩
    | cons p pairs ih =>
      rw [List.forall_mem_cons] at hpairs
      obtain ⟨report, hrun, hreport⟩ := Dispatch.run_eq_ok hpairs.1 c p.2
      obtain ⟨reports, hruns, hreports⟩ := ih hpairs.2
      have hrun' : Workers.one.run c p.1 p.2 false = .ok report := hrun
      refine ⟨report :: reports, ?_, by simp [hreport, hreports]⟩
      rw [List.mapM_cons, hrun', hruns]
      rfl
  obtain ⟨reports, hruns, hreports⟩ := hall _ fun p hp => h p.1 (List.of_mem_zip hp).1
  refine ⟨.ofReports reports, ?_, hreports⟩
  rw [checkFiles, checkEach, hruns]
  rfl

namespace Repair

open SourceFile Rules

section check

variable {files : List SourceFile} {result : LintResult}

/-- The edits that are asked for, each with its file. -/
def placedEdits (files : List SourceFile) : List (SourceFile × Edit) :=
  files.flatMap fun f => f.asked.map (Prod.mk f)

theorem mem_placedEdits {p : SourceFile × Edit} :
    p ∈ placedEdits files ↔ p.1 ∈ files ∧ p.2 ∈ p.1.asked := by
  obtain ⟨f, edit⟩ := p
  simp only [placedEdits, List.mem_flatMap, List.mem_map, Prod.mk.injEq]
  constructor
  · rintro ⟨g, hg, e, he, rfl, rfl⟩
    exact ⟨hg, he⟩
  · rintro ⟨hf, he⟩
    exact ⟨f, hf, edit, he, rfl, rfl⟩

/-- A finding that asks for an edit in a file. -/
def Concerns (d : Diagnostic) (p : SourceFile × Edit) : Prop :=
  d.AsksFor p.2 ∧ d.location.file = p.1.path

theorem forall₂_findings {f : SourceFile} (hf : f.Whole) (model : SemanticModel) :
    List.Forall₂ Concerns (f.nodes.flatMap (Catalog.fixable.findings ⟨f, model⟩))
      (f.asked.map (Prod.mk f)) := by
  obtain ⟨tokens, hf⟩ := hf
  have hspans : ∀ n ∈ f.nodes, ∀ edit, askedAt? n = some edit →
      edit.span.start ≤ edit.span.stop := fun n hn edit hedit =>
    Nat.le_of_lt (hf.span_of_asked (List.mem_filterMap.2 ⟨n, hn, hedit⟩)).1
  rw [List.forall₂_map_right_iff, asked]
  generalize f.nodes = nodes at hspans ⊢
  induction nodes with
  | nil => exact .nil
  | cons n nodes ih =>
    have hn := Catalog.findings_fixable (f := f) model (hspans n List.mem_cons_self)
    have hrest := ih fun m hm => hspans m (List.mem_cons_of_mem _ hm)
    rw [List.flatMap_cons, List.filterMap_cons]
    cases hasked : askedAt? n with
    | none =>
      rw [hasked] at hn
      exact List.rel_append hn hrest
    | some edit =>
      rw [hasked] at hn
      exact List.rel_append hn hrest

/-- The findings of a check and the edits that are asked for are the same, one for one. -/
theorem forall₂_concerns (hwhole : ∀ f ∈ files, f.Whole)
    (h : checkFiles .fixable files false = .ok result) :
    List.Forall₂ Concerns result.diagnostics (placedEdits files) := by
  obtain ⟨result', hresult', hdiagnostics⟩ :=
    checkFiles_eq_ok .fixable fun f hf => (hwhole f hf).choose_spec.kind
  obtain rfl : result = result' := Except.ok.inj (h.symm.trans hresult')
  have hpairs : List.Forall₂ (fun (p : SourceFile × SemanticModel) f => p.1 = f ∧ f.Whole)
      (files.zip (Binding.bind files)) files :=
    forall₂_zip_left (Binding.length_bind files) fun f hf _ => ⟨rfl, hwhole f hf⟩
  rw [hdiagnostics, placedEdits]
  refine List.rel_flatMap hpairs ?_
  rintro ⟨f, model⟩ _ ⟨rfl, hf⟩
  exact forall₂_findings hf model

/-- The edits for a path are those that are asked for in the files with this path. -/
theorem editsFor_eq (hwhole : ∀ f ∈ files, f.Whole)
    (hsize : ∀ f ∈ files, f.text.utf8ByteSize < Text.wordLimit)
    (h : checkFiles .fixable files false = .ok result) (path : String) :
    editsFor path result.diagnostics =
      (files.filter fun f => Files.Path.same f.path path).flatMap asked := by
  have hbounds : ∀ p ∈ placedEdits files, p.2.span.stop < Text.wordLimit := by
    intro p hp
    obtain ⟨hmem, hasked⟩ := mem_placedEdits.1 hp
    obtain ⟨tokens, hf⟩ := hwhole p.1 hmem
    exact Nat.lt_of_le_of_lt (hf.span_of_asked hasked).2 (hsize p.1 hmem)
  have hpairs : ∀ {ds : List Diagnostic} {ps : List (SourceFile × Edit)},
      List.Forall₂ Concerns ds ps → (∀ p ∈ ps, p.2.span.stop < Text.wordLimit) →
      editsFor path ds = (ps.filter fun p => Files.Path.same p.1.path path).map Prod.snd := by
    intro ds ps hds
    induction hds with
    | nil => intro _; rfl
    | @cons d p ds ps hd _ ih =>
      intro hps
      rw [List.forall_mem_cons] at hps
      have hrest := ih hps.2
      have hedit := hd.1.edit?_eq hps.1
      unfold editsFor at hrest ⊢
      rw [List.filter_cons, List.filter_cons, hd.2]
      split
      · rw [List.filterMap_cons, hedit, hrest]
        rfl
      · exact hrest
  rw [hpairs (forall₂_concerns hwhole h) hbounds]
  clear hpairs hbounds h hwhole hsize
  induction files with
  | nil => rfl
  | cons f files ih =>
    rw [placedEdits, List.flatMap_cons, List.filter_append, List.map_append, ← placedEdits, ih,
      List.filter_cons]
    split
    · rename_i hsame
      rw [List.filter_eq_self.2 (by simp [hsame])]
      simp [Function.comp_def]
    · rename_i hother
      rw [List.filter_eq_nil_iff.2 (by simp [hother])]
      rfl

end check

end Repair

end PluginLint
