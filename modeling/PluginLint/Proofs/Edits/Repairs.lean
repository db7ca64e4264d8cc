import PluginLint.Proofs.Edits.BraceRemoval
import PluginLint.Proofs.Edits.Nesting
import PluginLint.Proofs.Edits.Outermost

/-!
# Repairing as often as allowed

Each round of repairs makes one pass over the tree of every file. So the bodies at fault that stand
inside each other are repaired one a round, from the outside in, and what is left after the last round
depends on how deep they are nested. If there are enough rounds, or if a round changes nothing, then
the edits that are still asked for are all refused, for comments that would be lost.
-/
namespace PluginLint

namespace SourceFile

open Rules

/-- The length of the longest chain of nested bodies at which a fix is asked for. -/
def askedDepth (f : SourceFile) : Nat := nesting isAsked isAsked f.root.tree

/-- The length of the longest chain of nested bodies at which a fix is asked for and can be made. -/
def fixableDepth (f : SourceFile) : Nat := nesting isFixable isFixable f.root.tree

/-- The most bytes that a file can get by its repairs. -/
def room (f : SourceFile) : Nat := f.root.tree.width + 4 * f.root.tree.count seesBareBody

theorem utf8ByteSize_text (f : SourceFile) : f.text.utf8ByteSize = f.root.tree.width := by
  rw [text_eq_render, Token.utf8ByteSize_renderAll, Tree.width_eq]

/-- There is no chain if and only if no edit that is asked for can be made. -/
theorem nesting_isFixable_eq_zero_iff {f : SourceFile} {P : NodeKind → Tree → Bool} :
    nesting isFixable P f.root.tree = 0 ↔
      ∀ n ∈ f.nodes, ∀ body edit, Asks n body edit → ∀ new, replacement edit.fix body ≠ .ok new := by
  constructor
  · intro h n hn body edit hasks new hnew
    obtain ⟨before, after, hb⟩ := hasBody_of_checkedBody? hasks.checked
    obtain ⟨pre, post, hstands⟩ := stands_of_mem_nodes hn
    obtain ⟨hawaited, hrepaired⟩ := hasks.repaired? hb hnew
    have hnone := any_awaited?_eq_false h (hb.tree_eq ▸ hstands.holds)
    rw [hawaited, Option.any_some, isFixable, hrepaired] at hnone
    cases hnone
  · intro h
    refine nesting_eq_zero fun q kind before u after pre post hholds => ?_
    have hstands : f.Stands ⟨kind, before ++ u :: after, Token.widthAll pre, q⟩ pre post :=
      ⟨hholds, rfl⟩
    cases hawaited : awaited? kind before with
    | none => rfl
    | some k =>
      cases hnew : repaired? k u with
      | none => rw [Option.any_some, isFixable, hnew, Option.isSome_none]
      | some new =>
        obtain ⟨body, edit, hasks, -, hreplaced⟩ :=
          exists_asks_of_repaired? (n := ⟨kind, before ++ u :: after, Token.widthAll pre, q⟩) rfl
            hawaited hnew
        exact absurd hreplaced (h _ hstands.mem_nodes body edit hasks new)

/-- What a batch reports of the edits it has taken and left out. -/
theorem Parsed.applyBatch_outcome {tokens : List Token} {f : SourceFile} (hf : Parsed tokens f)
    {edits : List Edit} {o : BatchOutcome} (ho : f.applyBatch edits false = .ok o) :
    o.applied = ((Batch.select f edits).accepted.map Prod.fst).reverse ∧
      o.skipped = (Batch.select f edits).skipped.reverse := by
  obtain ⟨happlied, hskipped, -⟩ :=
    (Batch.midway_select hf edits (Batch.select f edits).skipped.reverse).make hf
  obtain rfl := Except.ok.inj ho
  exact ⟨by simpa using happlied, hskipped⟩

end SourceFile

namespace Repair

open SourceFile Rules

/-- Every finding that is left asks for an edit that is refused for the comments it would lose. -/
def AllRefused (repaired : List RepairedFile) (result : LintResult) : Prop :=
  ∀ d ∈ result.diagnostics, ∃ r ∈ repaired, ∃ edit o, d.location.file = r.file.path ∧
    d.edit? = .ok (some edit) ∧
    r.file.applyBatch (editsFor r.file.path result.diagnostics) false = .ok o ∧
    ⟨edit, .invalid (.commentsInside edit.span)⟩ ∈ o.skipped

/-- Every finding in a file asks for an edit that is refused for the comments it would lose. -/
def RefusedIn (r : RepairedFile) (result : LintResult) : Prop :=
  ∀ d ∈ result.diagnostics, d.location.file = r.file.path → ∃ edit o,
    d.edit? = .ok (some edit) ∧
    r.file.applyBatch (editsFor r.file.path result.diagnostics) false = .ok o ∧
    ⟨edit, .invalid (.commentsInside edit.span)⟩ ∈ o.skipped

/-- No two files have the same path. -/
def Distinct (files : List SourceFile) : Prop :=
  files.Pairwise fun f g => Files.Path.same f.path g.path = false

/-! ### What is left when nothing can be made -/

section check

variable {files : List SourceFile} {result : LintResult}

theorem same_self (path : String) : Files.Path.same path path = true := beq_self_eq_true _

theorem same_comm (a b : String) : Files.Path.same a b = Files.Path.same b a := by
  rw [Files.Path.same, Files.Path.same, Bool.beq_comm]

/-- The only file with the path of a file is this file. -/
theorem Distinct.filter_eq (h : Distinct files) {f : SourceFile} (hf : f ∈ files) :
    files.filter (fun g => Files.Path.same g.path f.path) = [f] := by
  induction files with
  | nil => cases hf
  | cons g files ih =>
    obtain ⟨hg, hfiles⟩ := List.pairwise_cons.1 h
    rcases List.mem_cons.1 hf with rfl | hf
    · rw [List.filter_cons_of_pos (by simpa using same_self f.path), List.filter_eq_nil_iff.2]
      intro k hk
      rw [same_comm, hg k hk]
      decide
    · rw [List.filter_cons_of_neg (by simp [hg f hf]), ih hfiles hf]

theorem Distinct.eq_of_path (h : Distinct files) {f g : SourceFile} (hf : f ∈ files) (hg : g ∈ files)
    (hpath : g.path = f.path) : g = f := by
  have hmem : g ∈ files.filter fun k => Files.Path.same k.path f.path :=
    List.mem_filter.2 ⟨hg, hpath ▸ same_self _⟩
  rw [h.filter_eq hf] at hmem
  exact List.mem_singleton.1 hmem

/-- The edits for the path of a file are those that are asked for in it. -/
theorem Distinct.editsFor_eq (h : Distinct files) (hwhole : ∀ f ∈ files, f.Whole)
    (hsize : ∀ f ∈ files, f.text.utf8ByteSize < Text.wordLimit)
    (hcheck : checkFiles .fixable files false = .ok result) {f : SourceFile} (hf : f ∈ files) :
    editsFor f.path result.diagnostics = f.asked := by
  rw [Repair.editsFor_eq hwhole hsize hcheck, h.filter_eq hf, List.flatMap_singleton]

end check

section refused

variable {repaired : List RepairedFile} {result : LintResult} {r : RepairedFile}
  (hwhole : ∀ r ∈ repaired, r.file.Whole)
  (hsize : ∀ r ∈ repaired, r.file.text.utf8ByteSize < Text.wordLimit)
  (hcheck : checkFiles .fixable (repaired.map RepairedFile.file) false = .ok result)

include hwhole hsize hcheck

/-- A finding asks for an edit in one of the files. -/
theorem exists_asked {d : Diagnostic} (hd : d ∈ result.diagnostics) :
    ∃ r ∈ repaired, ∃ edit ∈ r.file.asked, d.location.file = r.file.path ∧
      d.edit? = .ok (some edit) := by
  obtain ⟨⟨f, edit⟩, hplaced, hasksFor, hpath⟩ :=
    exists_of_mem_forall₂ (forall₂_concerns (by simpa using hwhole) hcheck) hd
  obtain ⟨hf, hasked⟩ := mem_placedEdits.1 hplaced
  obtain ⟨r, hr, rfl⟩ := List.mem_map.1 hf
  obtain ⟨tokens, hparsed⟩ := hwhole r hr
  exact ⟨r, hr, edit, hasked, hpath,
    hasksFor.edit?_eq (Nat.lt_of_le_of_lt (hparsed.span_of_asked hasked).2 (hsize r hr))⟩

/-- An edit that is asked for in a file is asked for by a finding. -/
theorem exists_finding (hr : r ∈ repaired) {edit : Edit} (hasked : edit ∈ r.file.asked) :
    ∃ d ∈ result.diagnostics, d.location.file = r.file.path ∧ d.edit? = .ok (some edit) := by
  obtain ⟨tokens, hparsed⟩ := hwhole r hr
  obtain ⟨d, hd, hasksFor, hpath⟩ :=
    exists_of_mem_forall₂ (forall₂_concerns (by simpa using hwhole) hcheck).flip
      (mem_placedEdits.2 ⟨List.mem_map.2 ⟨r, hr, rfl⟩, hasked⟩ :
        (r.file, edit) ∈ placedEdits (repaired.map RepairedFile.file))
  exact ⟨d, hd, hpath,
    hasksFor.edit?_eq (Nat.lt_of_le_of_lt (hparsed.span_of_asked hasked).2 (hsize r hr))⟩

/-- If no edit of a file can be taken, each that is asked for is refused for comments. -/
theorem refused_of_accepted (hr : r ∈ repaired)
    (hnone : (Batch.select r.file (editsFor r.file.path result.diagnostics)).accepted = [])
    {edit : Edit} (hasked : edit ∈ r.file.asked) :
    ∃ o, r.file.applyBatch (editsFor r.file.path result.diagnostics) false = .ok o ∧
      ⟨edit, .invalid (.commentsInside edit.span)⟩ ∈ o.skipped := by
  obtain ⟨tokens, hparsed⟩ := hwhole r hr
  obtain ⟨n, hn, body, before, after, hasks, hb, hlocate⟩ := exists_body_of_asked hparsed hasked
  have hgiven : edit ∈ editsFor r.file.path result.diagnostics := by
    rw [editsFor_eq (by simpa using hwhole) (by simpa using hsize) hcheck, List.mem_flatMap]
    exact ⟨r.file, List.mem_filter.2 ⟨List.mem_map.2 ⟨r, hr, rfl⟩, same_self _⟩, hasked⟩
  obtain ⟨o, ho, -⟩ := r.exists_apply_eq (editsFor r.file.path result.diagnostics)
  refine ⟨o, ho, ?_⟩
  rw [(hparsed.applyBatch_outcome ho).2, List.mem_reverse]
  cases (Batch.decided_select r.file _).fates edit hgiven with
  | taken hn' hnew h =>
    rw [hnone] at h
    cases h
  | overlapped hprior hover hle h =>
    rw [hnone] at hprior
    cases hprior
  | notFound hn' h =>
    rw [hlocate] at hn'
    cases hn'
  | invalid hn' hwhy h =>
    obtain rfl := Except.ok.inj (hlocate.symm.trans hn')
    rcases hasks.replacement_cases with ⟨new, hnew⟩ | ⟨-, hcomments⟩
    · rw [hnew] at hwhy
      cases hwhy
    · rw [hcomments] at hwhy
      cases hwhy
      exact h

/-- If no edit can be taken, all are refused for comments. -/
theorem allRefused_of_accepted (hnone : ∀ r ∈ repaired,
      (Batch.select r.file (editsFor r.file.path result.diagnostics)).accepted = []) :
    AllRefused repaired result := by
  intro d hd
  obtain ⟨r, hr, edit, hasked, hpath, hedit⟩ := exists_asked hwhole hsize hcheck hd
  obtain ⟨o, ho, hskipped⟩ := refused_of_accepted hwhole hsize hcheck hr (hnone r hr) hasked
  exact ⟨r, hr, edit, o, hpath, hedit, ho, hskipped⟩

section distinct

variable (hdistinct : Distinct (repaired.map RepairedFile.file))

include hdistinct

theorem editsFor_repaired (hr : r ∈ repaired) :
    editsFor r.file.path result.diagnostics = r.file.asked :=
  hdistinct.editsFor_eq (by simpa using hwhole) (by simpa using hsize) hcheck
    (List.mem_map.2 ⟨r, hr, rfl⟩)

omit hwhole hsize hcheck in
theorem file_eq_of_path {r' : RepairedFile} (hr : r ∈ repaired) (hr' : r' ∈ repaired)
    (hpath : r'.file.path = r.file.path) : r'.file = r.file :=
  hdistinct.eq_of_path (List.mem_map.2 ⟨r, hr, rfl⟩) (List.mem_map.2 ⟨r', hr', rfl⟩) hpath

/-- All is refused if and only if it is in each file. -/
theorem allRefused_iff : AllRefused repaired result ↔ ∀ r ∈ repaired, RefusedIn r result := by
  constructor
  · intro h r hr d hd hfile
    obtain ⟨r', hr', edit, o, hpath, hedit, ho, hskipped⟩ := h d hd
    rw [file_eq_of_path hdistinct hr hr' (hpath.symm.trans hfile)] at ho
    exact ⟨edit, o, hedit, ho, hskipped⟩
  · intro h d hd
    obtain ⟨r, hr, -, -, hpath, -⟩ := exists_asked hwhole hsize hcheck hd
    obtain ⟨edit, o, hedit, ho, hskipped⟩ := h r hr d hd hpath
    exact ⟨r, hr, edit, o, hpath, hedit, ho, hskipped⟩

/-- Where no body of a file can be repaired, all edits in it are refused. -/
theorem refusedIn_of_nesting (P : NodeKind → Tree → Bool) (hr : r ∈ repaired)
    (hzero : nesting isFixable P r.file.root.tree = 0) : RefusedIn r result := by
  obtain ⟨tokens, hparsed⟩ := hwhole r hr
  have hnone : (Batch.select r.file (editsFor r.file.path result.diagnostics)).accepted = [] := by
    rw [editsFor_repaired hwhole hsize hcheck hdistinct hr, List.eq_nil_iff_forall_not_mem]
    intro p hp
    obtain ⟨n, hn, body, -, -, hasks, -, hlocate⟩ :=
      exists_body_of_asked hparsed ((Batch.decided_select _ _).given p hp)
    obtain ⟨m, hm, hnew⟩ := (Batch.valid_select hparsed _).ready p hp
    obtain rfl := Except.ok.inj (hlocate.symm.trans hm)
    exact nesting_isFixable_eq_zero_iff.1 hzero n hn body p.1 hasks p.2 hnew
  intro d hd hfile
  obtain ⟨r', hr', edit, hasked, hpath, hedit⟩ := exists_asked hwhole hsize hcheck hd
  rw [file_eq_of_path hdistinct hr hr' (hpath.symm.trans hfile)] at hasked
  obtain ⟨o, ho, hskipped⟩ := refused_of_accepted hwhole hsize hcheck hr hnone hasked
  exact ⟨edit, o, hedit, ho, hskipped⟩

/-- If all edits in a file are refused, no body of it can be repaired. -/
theorem nesting_of_refusedIn (hr : r ∈ repaired) (h : RefusedIn r result)
    {P : NodeKind → Tree → Bool} : nesting isFixable P r.file.root.tree = 0 := by
  refine nesting_isFixable_eq_zero_iff.2 fun n hn body edit hasks new hnew => ?_
  obtain ⟨tokens, hparsed⟩ := hwhole r hr
  obtain ⟨d, hd, hpath, hedit⟩ := exists_finding hwhole hsize hcheck hr
    (mem_asked.2 ⟨n, hn, body, hasks⟩)
  obtain ⟨edit', o, hedit', ho, hskipped⟩ := h d hd hpath
  obtain rfl : edit = edit' := Option.some.inj (Except.ok.inj (hedit.symm.trans hedit'))
  rw [(hparsed.applyBatch_outcome ho).2, List.mem_reverse,
    editsFor_repaired hwhole hsize hcheck hdistinct hr] at hskipped
  obtain ⟨m, hm, herror⟩ := (Batch.decided_select _ _).refused _ hskipped _ rfl
  obtain rfl := Except.ok.inj ((hparsed.locate_asked hn hasks).symm.trans hm)
  rw [hnew] at herror
  cases herror

end distinct

end refused

/-! ### Rounds -/

/-- The files after one more round. -/
def afterRound (found : LintResult) (files : List RepairedFile) : List RepairedFile :=
  files.map fun r => r.apply (editsFor r.file.path found.diagnostics)

theorem run_succ {ε : Type} {check : List SourceFile → Except ε LintResult}
    {files : List RepairedFile} {found : LintResult}
    (h : check (files.map RepairedFile.file) = .ok found) (n : Nat) :
    run check (n + 1) files =
      if changeCount (afterRound found files) = changeCount files then .ok files
      else run check n (afterRound found files) := by
  rw [run, h]
  by_cases hsame : changeCount (afterRound found files) = changeCount files
  · rw [if_pos hsame]
    exact if_pos (beq_iff_eq.2 hsame)
  · rw [if_neg hsame]
    exact if_neg fun h => hsame (beq_iff_eq.1 h)

/-- What holds after every round holds in the end; there were as many rounds as allowed, or one more
changes nothing. -/
theorem exists_run {ε : Type} (check : List SourceFile → Except ε LintResult)
    (I : Nat → List RepairedFile → Prop)
    (hstep : ∀ k files, I k files → ∃ found, check (files.map RepairedFile.file) = .ok found ∧
      (changeCount (afterRound found files) ≠ changeCount files → I (k + 1) (afterRound found files)))
    (n : Nat) {m : Nat} {files : List RepairedFile} (h : I m files) :
    ∃ k repaired, run check n files = .ok repaired ∧ I k repaired ∧ k ≤ m + n ∧
      (k = m + n ∨ ∃ found, check (repaired.map RepairedFile.file) = .ok found ∧
        changeCount (afterRound found repaired) = changeCount repaired) := by
  induction n generalizing m files with
  | zero => exact ⟨m, files, rfl, h, Nat.le_refl _, .inl rfl⟩
  | succ n ih =>
    obtain ⟨found, hfound, hnext⟩ := hstep m files h
    by_cases hsame : changeCount (afterRound found files) = changeCount files
    · refine ⟨m, files, ?_, h, by omega, .inr ⟨found, hfound, hsame⟩⟩
      rw [run_succ hfound, if_pos hsame]
    · obtain ⟨k, repaired, hrepaired, hk, hle, hend⟩ := ih (hnext hsame)
      refine ⟨k, repaired, ?_, hk, by omega, ?_⟩
      · rw [run_succ hfound, if_neg hsame, hrepaired]
      · rwa [show m + (n + 1) = m + 1 + n by omega]

section round

variable {r : RepairedFile} {tokens : List Token} {edits : List Edit} {o : BatchOutcome}

/-- A round notes as many changes as it makes. -/
theorem length_changes_take (r : RepairedFile) (o : BatchOutcome) :
    (r.take o).changes.length = r.changes.length + o.applied.length := by
  rw [RepairedFile.take]
  split
  · rename_i hnone
    rw [List.isEmpty_iff.1 hnone, List.length_nil, Nat.add_zero]
  · simp

/-- A round leaves the file that comes out of the batch. -/
theorem file_apply (hf : Parsed tokens r.file) (ho : r.file.applyBatch edits false = .ok o) :
    (r.apply edits).file = o.file := by
  rw [RepairedFile.apply_of_ok ho, RepairedFile.take]
  split
  · rename_i hnone
    have happlied := (hf.applyBatch_outcome ho).1
    rw [List.isEmpty_iff.1 hnone, eq_comm, List.reverse_eq_nil_iff, List.map_eq_nil_iff] at happlied
    obtain rfl := Except.ok.inj ho
    rw [happlied]
    rfl
  · rfl

/-- Edits that change nothing were all left out. -/
theorem accepted_of_changes (hf : Parsed tokens r.file)
    (h : (r.apply edits).changes.length ≤ r.changes.length) :
    (Batch.select r.file edits).accepted = [] := by
  obtain ⟨o, ho, happly⟩ := r.exists_apply_eq edits
  rw [happly, length_changes_take, (hf.applyBatch_outcome ho).1, List.length_reverse,
    List.length_map] at h
  exact List.eq_nil_of_length_eq_zero (by omega)

end round

/-- The number of changes grows, and if it stays the same no file got a new one. -/
theorem changeCount_afterRound (found : LintResult) (files : List RepairedFile) :
    changeCount files ≤ changeCount (afterRound found files) ∧
      (changeCount (afterRound found files) = changeCount files → ∀ r ∈ files,
        (r.apply (editsFor r.file.path found.diagnostics)).changes.length ≤ r.changes.length) := by
  induction files with
  | nil => simp [changeCount, afterRound]
  | cons r files ih =>
    obtain ⟨hle, hsame⟩ := ih
    obtain ⟨o, -, happly⟩ := r.exists_apply_eq (editsFor r.file.path found.diagnostics)
    have hlength := length_changes_take r o
    unfold changeCount afterRound at hle hsame ⊢
    rw [List.map_cons, total_cons, total_cons, List.forall_mem_cons, happly]
    exact ⟨by omega, fun heq => ⟨by omega, hsame (by omega)⟩⟩

/-- If one more round changes nothing, all edits that are asked for are refused. -/
theorem allRefused_of_changeCount {repaired : List RepairedFile} {result : LintResult}
    (hwhole : ∀ r ∈ repaired, r.file.Whole)
    (hsize : ∀ r ∈ repaired, r.file.text.utf8ByteSize < Text.wordLimit)
    (hcheck : checkFiles .fixable (repaired.map RepairedFile.file) false = .ok result)
    (h : changeCount (afterRound result repaired) = changeCount repaired) :
    AllRefused repaired result := by
  refine allRefused_of_accepted hwhole hsize hcheck fun r hr => ?_
  obtain ⟨tokens, hparsed⟩ := hwhole r hr
  exact accepted_of_changes hparsed ((changeCount_afterRound result repaired).2 h r hr)

/-! ### What a number of rounds makes of a file -/

/-- A file after a number of rounds. -/
structure After (k : Nat) (f g : SourceFile) : Prop where
  whole : g.Whole
  path : g.path = f.path
  errors : g.errors = f.errors
  room : g.room ≤ f.room
  asked : nesting isFixable isAsked g.root.tree ≤ nesting isFixable isAsked f.root.tree - k
  fixable : f.errors = [] → g.fixableDepth = f.fixableDepth - k

theorem isAsked_of_isFixable (kind : NodeKind) (t : Tree) (h : isFixable kind t = true) :
    isAsked kind t = true := by
  obtain ⟨new, hnew⟩ := Option.isSome_iff_exists.1 h
  obtain ⟨fix, hfix, -⟩ := Option.bind_eq_some_iff.1 hnew
  obtain ⟨o, ho, hasked⟩ := Option.bind_eq_some_iff.1 hfix
  rw [isAsked, ho, Option.any_some, hasked, Option.isSome_some]

theorem every_formed {tokens : List Token} {f : SourceFile} (hf : Parsed tokens f) :
    f.root.tree.Every Formed := by
  have hroot : f.root.tree = .node .compilationUnit f.parts := by
    rw [root, Node.tree_mk, hf.kind]
  obtain ⟨items, leading, hparts, -⟩ := hf.last
  rw [hroot, Tree.every_node]
  exact ⟨.of_plain rfl (by simp [hparts]), hf.formed⟩

/-- One more round makes one more pass. -/
theorem After.succ {k : Nat} {f g g' : SourceFile} (h : After k f g) (hwhole : g'.Whole)
    (hpath : g'.path = g.path) (herrors : g'.errors = g.errors)
    (htree : g'.root.tree = repairedOnce g.root.tree) : After (k + 1) f g' := by
  obtain ⟨tokens, hg⟩ := h.whole
  have hformed := every_formed hg
  refine ⟨hwhole, hpath.trans h.path, herrors.trans h.errors, ?_, ?_, fun he => ?_⟩
  · refine Nat.le_trans ?_ h.room
    rw [SourceFile.room, htree]
    exact width_repairedOnce_le hformed
  · have hless := nesting_repairedOnce_le lasting_formed steady_isAsked isAsked_of_isFixable hformed
      hformed
    have hasked := h.asked
    rw [htree]
    omega
  · have hcomplete := hg.every_complete (h.errors.trans he)
    have hless := nesting_repairedOnce_le lasting_complete steady_isFixable (fun _ _ h => h) hformed
      hcomplete
    have hmore := nesting_repairedOnce_ge hformed hcomplete
    have hfixable := h.fixable he
    unfold fixableDepth at hfixable ⊢
    rw [htree]
    omega

theorem exists_check {rs : List RepairedFile} (h : ∀ r ∈ rs, r.file.Whole) :
    ∃ found, checkFiles .fixable (rs.map RepairedFile.file) false = .ok found := by
  have hkind : ∀ f ∈ rs.map RepairedFile.file, f.kind = .compilationUnit := by
    simpa using fun r hr => (h r hr).choose_spec.kind
  obtain ⟨found, hfound, -⟩ := checkFiles_eq_ok .fixable hkind
  exact ⟨found, hfound⟩

/-- The files of a list after a number of rounds. -/
def AllAfter (files : List SourceFile) (k : Nat) (repaired : List RepairedFile) : Prop :=
  List.Forall₂ (fun f r => After k f r.file) files repaired

theorem forall₂_imp_right {α β : Type} {R S : α → β → Prop} {as : List α} {bs : List β}
    (h : List.Forall₂ R as bs) (himp : ∀ a, ∀ b ∈ bs, R a b → S a b) : List.Forall₂ S as bs := by
  induction h with
  | nil => exact .nil
  | cons hab _ ih =>
    exact .cons (himp _ _ List.mem_cons_self hab)
      (ih fun a b hb => himp a b (List.mem_cons_of_mem _ hb))

section rounds

variable {files : List SourceFile} {repaired : List RepairedFile} {k : Nat}

theorem allAfter_zero (hwhole : ∀ f ∈ files, f.Whole) :
    AllAfter files 0 (files.map fun f => { file := f }) := by
  rw [AllAfter, List.forall₂_map_right_iff, List.forall₂_same]
  exact fun f hf => ⟨hwhole f hf, rfl, rfl, Nat.le_refl _, Nat.le_refl _, fun _ => rfl⟩

theorem AllAfter.exists_of_mem (h : AllAfter files k repaired) {r : RepairedFile}
    (hr : r ∈ repaired) : ∃ f ∈ files, After k f r.file := by
  obtain ⟨f, hf, hafter⟩ := exists_of_mem_forall₂ h.flip hr
  exact ⟨f, hf, hafter⟩

theorem AllAfter.whole (h : AllAfter files k repaired) : ∀ r ∈ repaired, r.file.Whole := by
  intro r hr
  obtain ⟨f, -, hafter⟩ := h.exists_of_mem hr
  exact hafter.whole

theorem AllAfter.size_lt (h : AllAfter files k repaired)
    (hroom : ∀ f ∈ files, f.room < Text.wordLimit) :
    ∀ r ∈ repaired, r.file.text.utf8ByteSize < Text.wordLimit := by
  intro r hr
  obtain ⟨f, hf, hafter⟩ := h.exists_of_mem hr
  have hlimit := hroom f hf
  have hle := hafter.room
  rw [utf8ByteSize_text]
  rw [SourceFile.room] at hle
  omega

theorem AllAfter.distinct (h : AllAfter files k repaired) (hdistinct : Distinct files) :
    Distinct (repaired.map RepairedFile.file) := by
  have hpaths : (repaired.map RepairedFile.file).map SourceFile.path = files.map SourceFile.path := by
    induction h with
    | nil => rfl
    | cons hafter _ ih =>
      rw [List.map_cons, List.map_cons, List.map_cons, hafter.path,
        ih (List.pairwise_cons.1 hdistinct).2]
  have hpairs : (files.map SourceFile.path).Pairwise fun a b => Files.Path.same a b = false :=
    List.pairwise_map.2 hdistinct
  rw [← hpaths] at hpairs
  exact List.pairwise_map.1 hpairs

/-- One more round for all files. -/
theorem AllAfter.succ (h : AllAfter files k repaired) (hdistinct : Distinct files)
    (hroom : ∀ f ∈ files, f.room < Text.wordLimit) {found : LintResult}
    (hfound : checkFiles .fixable (repaired.map RepairedFile.file) false = .ok found) :
    AllAfter files (k + 1) (afterRound found repaired) := by
  have hedits := fun {r} (hr : r ∈ repaired) =>
    editsFor_repaired h.whole (h.size_lt hroom) hfound (h.distinct hdistinct) hr
  have hstep : ∀ r ∈ repaired, ∀ f, After k f r.file →
      After (k + 1) f (r.apply (editsFor r.file.path found.diagnostics)).file := by
    intro r hr f hafter
    obtain ⟨tokens, hparsed⟩ := hafter.whole
    obtain ⟨o, ho, hwhole, hpath, herrors⟩ := hafter.whole.applyBatch r.file.asked
    rw [hedits hr, file_apply hparsed ho]
    exact hafter.succ hwhole hpath herrors (hparsed.tree_applyBatch ho)
  rw [AllAfter, afterRound, List.forall₂_map_right_iff]
  exact forall₂_imp_right h fun f r hr => hstep r hr f

/-- The rounds end, after as many passes as allowed or with a round that changes nothing. -/
theorem exists_run_after (hwhole : ∀ f ∈ files, f.Whole) (hdistinct : Distinct files)
    (hroom : ∀ f ∈ files, f.room < Text.wordLimit) (n : Nat) :
    ∃ k repaired result, run (checkFiles .fixable · false) n (files.map fun f => { file := f }) =
        .ok repaired ∧
      checkFiles .fixable (repaired.map RepairedFile.file) false = .ok result ∧
      AllAfter files k repaired ∧ k ≤ n ∧ (k = n ∨ AllRefused repaired result) := by
  have hstep : ∀ k rs, AllAfter files k rs →
      ∃ found, checkFiles .fixable (rs.map RepairedFile.file) false = .ok found ∧
        (changeCount (afterRound found rs) ≠ changeCount rs →
          AllAfter files (k + 1) (afterRound found rs)) := by
    intro k rs hrs
    obtain ⟨found, hfound⟩ := exists_check hrs.whole
    exact ⟨found, hfound, fun _ => hrs.succ hdistinct hroom hfound⟩
  obtain ⟨k, repaired, hrun, hafter, hle, hend⟩ :=
    exists_run (checkFiles .fixable · false) (AllAfter files) hstep n (allAfter_zero hwhole)
  rw [Nat.zero_add] at hle hend
  obtain ⟨result, hresult⟩ := exists_check hafter.whole
  refine ⟨k, repaired, result, hrun, hresult, hafter, hle, hend.imp_right ?_⟩
  rintro ⟨found, hfound, hsame⟩
  obtain rfl := Except.ok.inj (hresult.symm.trans hfound)
  exact allRefused_of_changeCount hafter.whole (hafter.size_lt hroom) hresult hsame

/-- What as many rounds as `n` leave of each file, whatever the others are: with no more bodies nested
than rounds, what is left in it is refused; and if the file has no problems, exactly with no more
bodies nested that can be repaired. -/
theorem forall₂_refusedIn (hwhole : ∀ f ∈ files, f.Whole) (hdistinct : Distinct files)
    (hroom : ∀ f ∈ files, f.room < Text.wordLimit) {n : Nat} {result : LintResult}
    (hrun : run (checkFiles .fixable · false) n (files.map fun f => { file := f }) = .ok repaired)
    (hresult : checkFiles .fixable (repaired.map RepairedFile.file) false = .ok result) :
    (AllRefused repaired result ↔ ∀ r ∈ repaired, RefusedIn r result) ∧
      List.Forall₂ (fun f r => r.file.path = f.path ∧
        (f.askedDepth ≤ n → RefusedIn r result) ∧
        (f.errors = [] → (RefusedIn r result ↔ f.fixableDepth ≤ n))) files repaired := by
  obtain ⟨k, repaired', result', hrun', hresult', hafter, hk, hend⟩ :=
    exists_run_after hwhole hdistinct hroom n
  obtain rfl := Except.ok.inj (hrun.symm.trans hrun')
  obtain rfl := Except.ok.inj (hresult.symm.trans hresult')
  have hwhole' := hafter.whole
  have hsize' := hafter.size_lt hroom
  have hdistinct' := hafter.distinct hdistinct
  have hiff := allRefused_iff hwhole' hsize' hresult hdistinct'
  refine ⟨hiff, forall₂_imp_right hafter fun f r hr hfile => ?_⟩
  -- Either there were as many rounds as allowed, or all that is left is refused.
  have hdone (P : NodeKind → Tree → Bool) (hzero : k = n → nesting isFixable P r.file.root.tree = 0) :
      RefusedIn r result := by
    rcases hend with hlast | hrefused
    · exact refusedIn_of_nesting hwhole' hsize' hresult hdistinct' P hr (hzero hlast)
    · exact hiff.1 hrefused r hr
  refine ⟨hfile.path, fun hdepth => hdone isAsked fun hlast => ?_, fun herrors =>
    ⟨fun hrefused => ?_, fun hdepth => hdone isFixable fun hlast => ?_⟩⟩
  · have hle := nesting_mono isAsked_of_isFixable (fun _ _ h => h) (P := isAsked) f.root.tree
    have hasked := hfile.asked
    rw [askedDepth] at hdepth
    omega
  · have hzero : r.file.fixableDepth = 0 :=
      nesting_of_refusedIn hwhole' hsize' hresult hdistinct' hr hrefused
    have hless := hfile.fixable herrors
    omega
  · have hless := hfile.fixable herrors
    rw [fixableDepth] at hless
    omega

/-- In files without problems what is left is refused if and only if there are as many rounds as
bodies that can be repaired are nested. -/
theorem allRefused_iff_fixableDepth (hwhole : ∀ f ∈ files, f.Whole) (hdistinct : Distinct files)
    (hroom : ∀ f ∈ files, f.room < Text.wordLimit) (herrors : ∀ f ∈ files, f.errors = []) {n : Nat}
    {result : LintResult}
    (hrun : run (checkFiles .fixable · false) n (files.map fun f => { file := f }) = .ok repaired)
    (hresult : checkFiles .fixable (repaired.map RepairedFile.file) false = .ok result) :
    AllRefused repaired result ↔ ∀ f ∈ files, f.fixableDepth ≤ n := by
  obtain ⟨hiff, hfiles⟩ := forall₂_refusedIn hwhole hdistinct hroom hrun hresult
  rw [hiff]
  constructor
  · intro hrefused f hf
    obtain ⟨r, hr, -, -, hfixable⟩ := exists_of_mem_forall₂ hfiles hf
    exact (hfixable (herrors f hf)).1 (hrefused r hr)
  · intro hdepth r hr
    obtain ⟨f, hf, -, -, hfixable⟩ := exists_of_mem_forall₂ hfiles.flip hr
    exact (hfixable (herrors f hf)).2 (hdepth f hf)

end rounds

/-- If one more round would leave the same files, it would change nothing. -/
theorem changeCount_of_run_succ {ε : Type} {check : List SourceFile → Except ε LintResult} {n : Nat}
    {files repaired : List RepairedFile} {found : LintResult} (hrun : run check n files = .ok repaired)
    (hagain : run check (n + 1) files = .ok repaired)
    (hfound : check (repaired.map RepairedFile.file) = .ok found) :
    changeCount (afterRound found repaired) = changeCount repaired := by
  have hsucc : ∀ {m files'}, run check (m + 1) files' = .ok repaired →
      ∃ found', check (files'.map RepairedFile.file) = .ok found' ∧
        (changeCount (afterRound found' files') = changeCount files' ∧ files' = repaired ∨
          run check m (afterRound found' files') = .ok repaired) := by
    intro m files' h
    cases hcheck : check (files'.map RepairedFile.file) with
    | error e =>
      rw [run, hcheck] at h
      cases h
    | ok found' =>
      rw [run_succ hcheck] at h
      refine ⟨found', rfl, ?_⟩
      split at h
      · rename_i hsame
        exact .inl ⟨hsame, Except.ok.inj h⟩
      · exact .inr h
  induction n generalizing files with
  | zero =>
    obtain rfl := Except.ok.inj hrun
    obtain ⟨found', hfound', hend⟩ := hsucc hagain
    obtain rfl := Except.ok.inj (hfound.symm.trans hfound')
    rcases hend with ⟨hsame, -⟩ | hnext
    · exact hsame
    · exact congrArg changeCount (Except.ok.inj hnext)
  | succ n ih =>
    obtain ⟨found', hfound', hend⟩ := hsucc hagain
    rcases hend with ⟨hsame, rfl⟩ | hnext
    · obtain rfl := Except.ok.inj (hfound.symm.trans hfound')
      exact hsame
    · obtain ⟨found'', hfound'', hend'⟩ := hsucc hrun
      obtain rfl := Except.ok.inj (hfound'.symm.trans hfound'')
      rcases hend' with ⟨hsame, rfl⟩ | hnext'
      · obtain rfl := Except.ok.inj (hfound.symm.trans hfound')
        exact hsame
      · exact ih hnext' hnext

/-- Files are repaired, whatever they are. If one more round would leave them as they are, the edits
that are still asked for are all refused for the comments they would lose. Of files with different
paths this holds if no more bodies at fault are nested than there are rounds; and if the files have no
problems, exactly if no more bodies that can be repaired are nested. The same holds of each file by
itself, whatever the others are. -/
theorem run_leaves_refused_edits {files : List SourceFile}
    (hfiles : ∀ f ∈ files, ∃ source, parse f.path source = .ok f) :
    ∃ repaired result,
      run (checkFiles .fixable · false) passes (files.map fun f => { file := f }) = .ok repaired ∧
      checkFiles .fixable (repaired.map RepairedFile.file) false = .ok result ∧
      ((∀ r ∈ repaired, r.file.text.utf8ByteSize < Text.wordLimit) →
        run (checkFiles .fixable · false) (passes + 1) (files.map fun f => { file := f }) =
          .ok repaired → AllRefused repaired result) ∧
      (Distinct files → (∀ f ∈ files, f.room < Text.wordLimit) →
        ((∀ f ∈ files, f.askedDepth ≤ passes) → AllRefused repaired result) ∧
        ((∀ f ∈ files, f.errors = []) →
          (AllRefused repaired result ↔ ∀ f ∈ files, f.fixableDepth ≤ passes)) ∧
        List.Forall₂ (fun f r => r.file.path = f.path ∧
          (f.askedDepth ≤ passes → RefusedIn r result) ∧
          (f.errors = [] → (RefusedIn r result ↔ f.fixableDepth ≤ passes))) files repaired) := by
  have hwhole : ∀ f ∈ files, f.Whole := fun f hf => whole_of_parse (hfiles f hf).choose_spec
  have hstep : ∀ (_ : Nat) (rs : List RepairedFile), (∀ r ∈ rs, r.file.Whole) →
      ∃ found, checkFiles .fixable (rs.map RepairedFile.file) false = .ok found ∧
        (changeCount (afterRound found rs) ≠ changeCount rs →
          ∀ r ∈ afterRound found rs, r.file.Whole) := by
    intro _ rs hrs
    obtain ⟨found, hfound⟩ := exists_check hrs
    refine ⟨found, hfound, fun _ r' hr' => ?_⟩
    obtain ⟨r, hr, rfl⟩ := List.mem_map.1 hr'
    obtain ⟨tokens, hparsed⟩ := hrs r hr
    obtain ⟨o, ho, hthis, -⟩ := (hrs r hr).applyBatch (editsFor r.file.path found.diagnostics)
    rwa [file_apply hparsed ho]
  have hstart : ∀ r ∈ files.map fun f => ({ file := f } : RepairedFile), r.file.Whole := by
    simpa using hwhole
  obtain ⟨-, repaired, hrun, hrepaired, -, -⟩ := exists_run (checkFiles .fixable · false)
    (fun _ rs => ∀ r ∈ rs, r.file.Whole) hstep passes (m := 0) hstart
  obtain ⟨result, hresult⟩ := exists_check hrepaired
  refine ⟨repaired, result, hrun, hresult, fun hsize hagain => ?_, fun hdistinct hroom => ?_⟩
  · exact allRefused_of_changeCount hrepaired hsize hresult
      (changeCount_of_run_succ hrun hagain hresult)
  · obtain ⟨hiff, hall⟩ := forall₂_refusedIn hwhole hdistinct hroom hrun hresult
    refine ⟨fun hdepth => hiff.2 fun r hr => ?_, fun herrors => ?_, hall⟩
    · obtain ⟨f, hf, -, hasked, -⟩ := exists_of_mem_forall₂ hall.flip hr
      exact hasked (hdepth f hf)
    · exact allRefused_iff_fixableDepth hwhole hdistinct hroom herrors hrun hresult

/-- Of two nested bodies both are repaired, and a block with a comment is left. -/
theorem run_leaves_refused_edits_nested :
    ∃ f repaired result,
      parse "C.cs" "class C\x7bvoid M()\x7bif(a)if(b)c();if(d)\x7b/**/return;\x7d\x7d\x7d" = .ok f ∧
      f.errors = [] ∧ f.fixableDepth = 2 ∧
      run (checkFiles .fixable · false) passes [{ file := f }] = .ok repaired ∧
      checkFiles .fixable (repaired.map RepairedFile.file) false = .ok result ∧
      AllRefused repaired result := by
  have hseen : (parse "C.cs"
      "class C\x7bvoid M()\x7bif(a)if(b)c();if(d)\x7b/**/return;\x7d\x7d\x7d").toOption.map
        (fun f => (f.errors.isEmpty, f.fixableDepth, decide (f.room < Text.wordLimit),
          f.path == "C.cs")) = some (true, 2, true, true) := by
    rw [parse_ofList]
    decide +kernel
  obtain ⟨f, hf, hseen⟩ := Option.map_eq_some_iff.1 hseen
  have hf := eq_ok_of_toOption hf
  simp only [Prod.mk.injEq, decide_eq_true_eq, List.isEmpty_iff, beq_iff_eq] at hseen
  obtain ⟨herrors, hdepth, hroom, hpath⟩ := hseen
  have hfiles : ∀ g ∈ [f], ∃ source, parse g.path source = .ok g := by
    intro g hg
    rw [List.mem_singleton.1 hg, hpath]
    exact ⟨_, hf⟩
  obtain ⟨repaired, result, hrun, hresult, -, hall⟩ := run_leaves_refused_edits hfiles
  have hiff := (hall (List.pairwise_singleton _ _) (by simpa using hroom)).2.1
    (by simpa using herrors)
  refine ⟨f, repaired, result, hf, herrors, hdepth, hrun, hresult, hiff.2 fun g hg => ?_⟩
  rw [List.mem_singleton.1 hg, hdepth]
  decide

/-- Of nine nested bodies only eight are repaired. -/
theorem run_leaves_ninth_body :
    ∃ f repaired result,
      parse "C.cs"
        "class C\x7bvoid M()\x7bif(a)if(a)if(a)if(a)if(a)if(a)if(a)if(a)if(a)x();\x7d\x7d" = .ok f ∧
      run (checkFiles .fixable · false) passes [{ file := f }] = .ok repaired ∧
      checkFiles .fixable (repaired.map RepairedFile.file) false = .ok result ∧
      ¬AllRefused repaired result := by
  have hseen : (parse "C.cs"
      "class C\x7bvoid M()\x7bif(a)if(a)if(a)if(a)if(a)if(a)if(a)if(a)if(a)x();\x7d\x7d").toOption.map
        (fun f => (f.errors.isEmpty, f.fixableDepth, decide (f.room < Text.wordLimit))) =
      some (true, 9, true) := by
    rw [parse_ofList]
    decide +kernel
  obtain ⟨f, hf, hseen⟩ := Option.map_eq_some_iff.1 hseen
  have hf := eq_ok_of_toOption hf
  simp only [Prod.mk.injEq, decide_eq_true_eq, List.isEmpty_iff] at hseen
  obtain ⟨herrors, hdepth, hroom⟩ := hseen
  have hwhole : ∀ g ∈ [f], g.Whole := by simpa using whole_of_parse hf
  have hdistinct : Distinct [f] := List.pairwise_singleton _ _
  have hroom' : ∀ g ∈ [f], g.room < Text.wordLimit := by simpa using hroom
  obtain ⟨k, repaired, result, hrun, hresult, -⟩ :=
    exists_run_after hwhole hdistinct hroom' passes
  refine ⟨f, repaired, result, hf, hrun, hresult, fun hrefused => ?_⟩
  have hle := (allRefused_iff_fixableDepth hwhole hdistinct hroom' (by simpa using herrors) hrun
    hresult).1 hrefused f (by simp)
  rw [hdepth] at hle
  exact absurd hle (by decide)

end Repair

end PluginLint
