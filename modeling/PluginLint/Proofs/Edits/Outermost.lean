import PluginLint.Proofs.Edits.Passes

/-!
# A batch repairs the outermost bodies

Edits are taken in the order of their starts, and the body of a node starts behind the node. So an edit
that can be made is left out only for one around it, and if all edits that are asked for in a file are
given, the batch makes one pass over the tree of the file.
-/
namespace PluginLint

namespace Batch

open SourceFile

/-! ### Which edits are left out -/

/-- What becomes of an edit in a batch. -/
inductive Fate (f : SourceFile) (accepted : List (Edit × Tree)) (skipped : List SkippedEdit)
    (edit : Edit) : Prop
  | taken {n : Node} {new : Tree} (hn : f.locate edit = .ok n)
    (hnew : replacement edit.fix n = .ok new) (h : (edit, new) ∈ accepted)
  | overlapped {prior : Edit × Tree} (hprior : prior ∈ accepted)
    (hover : prior.1.span.overlaps edit.span = true) (hle : prior.1.span.start ≤ edit.span.start)
    (h : ⟨edit, .overlap prior.1.span⟩ ∈ skipped)
  | notFound {why : EditError} (hn : f.locate edit = .error why) (h : ⟨edit, .notFound⟩ ∈ skipped)
  | invalid {n : Node} {why : EditError} (hn : f.locate edit = .ok n)
    (hwhy : replacement edit.fix n = .error why) (h : ⟨edit, .invalid why⟩ ∈ skipped)

theorem Fate.mono {f : SourceFile} {accepted accepted' : List (Edit × Tree)}
    {skipped skipped' : List SkippedEdit} {edit : Edit} (h : Fate f accepted skipped edit)
    (haccepted : ∀ p ∈ accepted, p ∈ accepted') (hskipped : ∀ s ∈ skipped, s ∈ skipped') :
    Fate f accepted' skipped' edit := by
  cases h with
  | taken hn hnew h => exact .taken hn hnew (haccepted _ h)
  | overlapped hprior hover hle h => exact .overlapped (haccepted _ hprior) hover hle (hskipped _ h)
  | notFound hn h => exact .notFound hn (hskipped _ h)
  | invalid hn hwhy h => exact .invalid hn hwhy (hskipped _ h)

/-- What has been decided about some edits. -/
structure Decided (f : SourceFile) (edits : List Edit) (s : Selection) : Prop where
  fates : ∀ e ∈ edits, Fate f s.accepted s.skipped e
  given : ∀ p ∈ s.accepted, p.1 ∈ edits
  refused : ∀ q ∈ s.skipped, ∀ why, q.reason = .invalid why →
    ∃ n, f.locate q.edit = .ok n ∧ replacement q.edit.fix n = .error why

namespace Decided

variable {f : SourceFile} {s : Selection} {edit : Edit} {edits done : List Edit}

/-- One more edit is left out. -/
theorem skip (hs : Decided f done s) {reason : SkipReason}
    (hfate : Fate f s.accepted (⟨edit, reason⟩ :: s.skipped) edit)
    (hwhy : ∀ why, reason = .invalid why →
      ∃ n, f.locate edit = .ok n ∧ replacement edit.fix n = .error why) :
    Decided f (done ++ [edit]) { s with skipped := ⟨edit, reason⟩ :: s.skipped } where
  fates e he := by
    rcases List.mem_append.1 he with he | he
    · exact (hs.fates e he).mono (fun _ => id) fun _ => List.mem_cons_of_mem _
    · rwa [List.mem_singleton.1 he]
  given p hp := List.mem_append_left _ (hs.given p hp)
  refused q hq := by
    rcases List.mem_cons.1 hq with rfl | hq
    · exact hwhy
    · exact hs.refused q hq

/-- One more edit is looked at. -/
theorem add (hs : Decided f done s)
    (hle : ∀ p ∈ s.accepted, p.1.span.start ≤ edit.span.start) :
    Decided f (done ++ [edit]) (s.add f edit) := by
  have hadded := s.added f edit
  generalize s.add f edit = s' at hadded ⊢
  cases hadded with
  | overlap hprior hover =>
    exact hs.skip (.overlapped hprior hover (hle _ hprior) List.mem_cons_self) nofun
  | notFound hfree hn => exact hs.skip (.notFound hn List.mem_cons_self) nofun
  | @invalid n why hfree hn hwhy =>
    apply hs.skip (.invalid hn hwhy List.mem_cons_self)
    rintro _ ⟨⟩
    exact ⟨n, hn, hwhy⟩
  | taken hfree hn hnew =>
    refine ⟨fun e he => ?_, fun p hp => ?_, hs.refused⟩
    · rcases List.mem_append.1 he with he | he
      · exact (hs.fates e he).mono (fun _ => List.mem_cons_of_mem _) fun _ => id
      · rw [List.mem_singleton.1 he]
        exact .taken hn hnew List.mem_cons_self
    · rcases List.mem_cons.1 hp with rfl | hp
      · simp
      · exact List.mem_append_left _ (hs.given p hp)

/-- All edits are looked at, in the order of their starts. -/
theorem foldl (hs : Decided f done s)
    (hle : ∀ d ∈ done, ∀ e ∈ edits, d.span.start ≤ e.span.start)
    (hsorted : edits.Pairwise fun a b => a.span.start ≤ b.span.start) :
    Decided f (done ++ edits) (edits.foldl (Selection.add f) s) := by
  induction edits generalizing done s with
  | nil => rwa [List.append_nil]
  | cons edit edits ih =>
    rw [List.pairwise_cons] at hsorted
    have hadd := hs.add fun p hp => hle p.1 (hs.given p hp) edit List.mem_cons_self
    have hrest := ih hadd (fun d hd e he => ?_) hsorted.2
    · rwa [List.append_assoc] at hrest
    · rcases List.mem_append.1 hd with hd | hd
      · exact hle d hd e (List.mem_cons_of_mem _ he)
      · rw [List.mem_singleton.1 hd]
        exact hsorted.1 e he

end Decided

theorem mem_ordered {edits : List Edit} {edit : Edit} : edit ∈ ordered edits ↔ edit ∈ edits := by
  rw [ordered, List.mem_mergeSort]

/-- Every edit of a batch meets its fate. -/
theorem decided_select (f : SourceFile) (edits : List Edit) :
    Decided f edits (select f edits) := by
  have hstart : Decided f [] {} := ⟨by simp, by simp, by simp⟩
  have hall := hstart.foldl (by simp) (pairwise_ordered edits)
  rw [List.nil_append] at hall
  exact ⟨fun e he => hall.fates e (mem_ordered.2 he), fun p hp => mem_ordered.1 (hall.given p hp),
    hall.refused⟩

/-! ### The tree that comes out -/

/-- The path of the node to which an edit applies. -/
def pathOf (f : SourceFile) (edit : Edit) : List Nat :=
  ((f.locate edit).toOption.map Node.path).getD []

theorem pathOf_eq {f : SourceFile} {edit : Edit} {n : Node} (h : f.locate edit = .ok n) :
    pathOf f edit = n.path := by
  rw [pathOf, h]
  rfl

/-- The paths at which something is put in place. -/
def sites (f : SourceFile) (accepted : List (Edit × Tree)) : List (List Nat × Tree) :=
  accepted.map fun p => (pathOf f p.1, p.2)

/-- The edits that are left are made by replacing one node after the other. -/
theorem Midway.replaceAll?_sites {tokens : List Token} {f : SourceFile} (hf : Parsed tokens f)
    {rest : List (Edit × Tree)} {o : BatchOutcome} {kept : List Char} (h : Midway f rest o kept) :
    Tree.replaceAll? (sites f rest) o.file.root.tree = some (Batch.make rest o).file.root.tree := by
  induction rest generalizing o kept with
  | nil => rfl
  | cons p rest ih =>
    obtain ⟨edit, new⟩ := p
    obtain ⟨n, g, before, hn, hg, hnext⟩ := h.step hf
    obtain ⟨m, hm, hm', hnew, hsolid⟩ := h.ready _ List.mem_cons_self
    obtain rfl : n = m := Except.ok.inj (hn.symm.trans hm')
    obtain ⟨-, -, pre, post, hstands⟩ := stands_of_locate hn
    obtain ⟨g', hg', hreplaced, -⟩ :=
      hstands.exists_replace (Node.exchange_replacement hsolid hnew).node
    obtain rfl : g = g' := Except.ok.inj (hg.symm.trans hg')
    rw [make_cons hn hg, sites, List.map_cons, pathOf_eq hm, Tree.replaceAll?, hreplaced,
      Option.bind_some]
    exact ih hnext

/-- Edits that are apart are made at paths of which none leads on from another. -/
theorem pairwise_sites {tokens : List Token} {f : SourceFile} (hf : Parsed tokens f) {s : Selection}
    (hs : s.Valid f) : (sites f s.accepted).Pairwise fun a b => ¬a.1 <+: b.1 := by
  rw [sites, List.pairwise_map]
  refine hs.apart.imp_of_mem fun {a b} ha hb hapart => ?_
  obtain ⟨x, hx, -⟩ := hs.ready a ha
  obtain ⟨y, hy, -⟩ := hs.ready b hb
  obtain ⟨hxspan, -, _, _, hxs⟩ := stands_of_locate hx
  obtain ⟨hyspan, hyfix, _, _, hys⟩ := stands_of_locate hy
  have hysolid := hf.solid hys (Fix.kind_ne_of_accepts hyfix)
  have hbounds := Node.span_of_solid hysolid
  dsimp only
  rw [pathOf_eq hx, pathOf_eq hy]
  rw [← hxspan, ← hyspan] at hapart
  intro h
  have := Node.span_of_mem_descendants (hxs.mem_descendants hys h) hysolid
  omega

end Batch

namespace Rules

open SourceFile

/-! ### Bodies by their paths -/

/-- The body of a node, found among its parts. -/
theorem checkedBody?_eq_some {n : Node} {k : NodeKind} {before after inner : List Tree}
    (hcontrol : controlKinds.contains n.kind = true)
    (hparts : n.parts = before ++ .node k inner :: after) (hstatement : k.isStatement = true)
    (hfirst : ∀ t ∈ before, t.isStatement = false)
    (hchain : (n.kind == .elseClause && k == .ifStatement) = false) :
    checkedBody? n =
      some ⟨k, inner, n.start + Tree.widthAll before, n.path ++ [before.length]⟩ := by
  have hfind : ∀ (start i : Nat),
      ((Node.place n.path start i (before ++ .node k inner :: after)).filterMap
        Element.node?).find? (fun c => c.kind.isStatement) =
        some ⟨k, inner, start + Tree.widthAll before, n.path ++ [i + before.length]⟩ := by
    clear hparts
    induction before with
    | nil =>
      intro start i
      simp [Node.place, Element.node?, hstatement]
    | cons t before ih =>
      intro start i
      rw [List.forall_mem_cons] at hfirst
      cases t with
      | leaf token =>
        rw [List.cons_append, Node.place, List.filterMap_cons_none rfl, ih hfirst.2]
        simp [Nat.add_assoc, Nat.add_comm 1]
      | node k' inner' =>
        have hnot : k'.isStatement = false := hfirst.1
        simp only [List.cons_append, Node.place, List.filterMap_cons, Element.node?,
          List.find?_cons, hnot, ih hfirst.2]
        simp [Nat.add_assoc, Nat.add_comm 1]
  rw [checkedBody?, controlBody?, if_pos hcontrol, Node.findChild?, Node.childNodes, Node.elements,
    hparts, hfind, Option.filter_some, hchain]
  simp

/-- What is asked for at a body is seen from its outline. -/
theorem Asks.askedFix? {n body : Node} {edit : Edit} (h : Asks n body edit) :
    body.tree.outline?.bind (askedFix? n.kind) = some edit.fix := by
  obtain ⟨before, after, hb⟩ := hasBody_of_checkedBody? h.checked
  rw [Node.outline?_tree, Option.bind_some, Rules.askedFix?]
  have hopen : (body.outline.kind.isStatement &&
      !(n.kind == .elseClause && body.outline.kind == .ifStatement)) = true := by
    have hstatement : body.outline.kind.isStatement = true := hb.statement
    have hchain : (n.kind == .elseClause && body.outline.kind == .ifStatement) = false :=
      hb.unchained
    rw [hstatement, hchain]
    rfl
  rw [if_pos hopen]
  rcases h.faulty with ⟨hfix, hbare⟩ | ⟨hfix, htriggered, hbraced⟩
  · rw [if_pos hbare, hfix]
  · have hnot : ¬isBare body.outline = true := fun hbare => by
      rw [isBracedJump_of_isBare hbare] at hbraced
      cases hbraced
    rw [if_neg hnot, if_pos (by simp [htriggered, hbraced]), hfix]

theorem asks_of_askedFix? {n body : Node} (hbody : checkedBody? n = some body) {fix : Fix}
    (h : body.tree.outline?.bind (askedFix? n.kind) = some fix) :
    Asks n body ⟨body.span, fix⟩ := by
  rw [Node.outline?_tree, Option.bind_some] at h
  unfold askedFix? at h
  refine ⟨hbody, rfl, ?_⟩
  split at h
  · split at h
    · rename_i hbare
      cases h
      exact .inl ⟨rfl, hbare⟩
    · split at h
      · rename_i hbraced
        cases h
        rw [Bool.and_eq_true] at hbraced
        exact .inr ⟨rfl, hbraced⟩
      · cases h
  · cases h

/-- At a body one edit is asked for at most. -/
theorem Asks.unique {n n' body : Node} {edit edit' : Edit} (h : Asks n body edit)
    (h' : Asks n' body edit') : edit = edit' := by
  obtain ⟨span, fix⟩ := edit
  obtain ⟨span', fix'⟩ := edit'
  have hspan : span = span' := h.span.trans h'.span.symm
  have hfix : fix = fix' := by
    rcases h.faulty with ⟨hf, hbare⟩ | ⟨hf, -, hbraced⟩
    · rcases h'.faulty with ⟨hf', -⟩ | ⟨-, -, hbraced⟩
      · exact hf.trans hf'.symm
      · rw [isBracedJump_of_isBare hbare] at hbraced
        cases hbraced
    · rcases h'.faulty with ⟨-, hbare⟩ | ⟨hf', -, -⟩
      · rw [isBracedJump_of_isBare hbare] at hbraced
        cases hbraced
      · exact hf.trans hf'.symm
  rw [hspan, hfix]

/-- An edit that is asked for, its body and the node around. -/
theorem exists_body_of_asked {tokens : List Token} {f : SourceFile} (hf : Parsed tokens f)
    {edit : Edit} (h : edit ∈ f.asked) : ∃ n ∈ f.nodes, ∃ body before after, Asks n body edit ∧
      HasBody n body before after ∧ f.locate edit = .ok body := by
  obtain ⟨n, hn, body, hasks⟩ := mem_asked.1 h
  obtain ⟨before, after, hb⟩ := hasBody_of_checkedBody? hasks.checked
  exact ⟨n, hn, body, before, after, hasks, hb, hf.locate_asked hn hasks⟩

/-- The body of a node starts behind the start of the node. -/
theorem HasBody.span_start_lt {n body : Node} {before after : List Tree}
    (h : HasBody n body before after) (hn : n.tree.Solid) (hbody : body.tree.Solid) :
    n.span.start < body.span.start := by
  have hlt := h.leading_lt hn
  rw [← h.tree_eq] at hlt
  rw [Node.span_eq (Tree.tokens_ne_nil_of_formed hn.formed),
    Node.span_eq (Tree.tokens_ne_nil_of_formed hbody.formed), h.start]
  simp only [Span.ofLength, Node.leading] at hlt ⊢
  omega

/-- An edit that is asked for and can be made is taken, or one around it is. -/
theorem exists_prefix_of_asked {tokens : List Token} {f : SourceFile} (hf : Parsed tokens f)
    {n body : Node} {edit : Edit} (hn : n ∈ f.nodes) (hasks : Asks n body edit) {new : Tree}
    (hnew : replacement edit.fix body = .ok new) :
    (edit, new) ∈ (Batch.select f f.asked).accepted ∨
      ∃ p ∈ (Batch.select f f.asked).accepted, Batch.pathOf f p.1 <+: n.path := by
  have hlocate := hf.locate_asked hn hasks
  obtain ⟨-, hfix, pre, post, hbody⟩ := stands_of_locate hlocate
  cases (Batch.decided_select f f.asked).fates edit (mem_asked.2 ⟨n, hn, body, hasks⟩) with
  | taken hn' hnew' h =>
    obtain rfl := Except.ok.inj (hlocate.symm.trans hn')
    obtain rfl := Except.ok.inj (hnew.symm.trans hnew')
    exact .inl h
  | notFound hn' h => rw [hlocate] at hn'; cases hn'
  | invalid hn' hwhy h =>
    obtain rfl := Except.ok.inj (hlocate.symm.trans hn')
    rw [hnew] at hwhy
    cases hwhy
  | @overlapped prior hprior hover hle h =>
    have hgiven := (Batch.decided_select f f.asked).given prior hprior
    obtain ⟨n', hn', body', before', after', hasks', hb', hlocate'⟩ :=
      exists_body_of_asked hf hgiven
    obtain ⟨-, hfix', pre', post', hbody'⟩ := stands_of_locate hlocate'
    have hsolid := hf.solid hbody (Fix.kind_ne_of_accepts hfix)
    have hsolid' := hf.solid hbody' (Fix.kind_ne_of_accepts hfix')
    obtain ⟨before, after, hb⟩ := hasBody_of_checkedBody? hasks.checked
    rw [hasks.span, hasks'.span] at hover hle
    have hsame : body' = body → (edit, new) ∈ (Batch.select f f.asked).accepted := by
      rintro rfl
      obtain ⟨m, hm, hmnew⟩ := (Batch.valid_select hf f.asked).ready prior hprior
      obtain rfl := Except.ok.inj (hlocate'.symm.trans hm)
      obtain ⟨edit', new'⟩ := prior
      obtain rfl := hasks.unique hasks'
      obtain rfl := Except.ok.inj (hnew.symm.trans hmnew)
      exact hprior
    rcases Node.nested_or_spans_apart hbody.mem_nodes hbody'.mem_nodes hsolid hsolid' with
      hin | hin | hapart
    · -- A body further inside starts further back.
      have hpath := Node.path_prefix_of_mem_descendants hin
      rw [hb'.path, List.prefix_concat_iff, ← hb'.path] at hpath
      rcases hpath with hpath | hpath
      · exact .inl (hsame (hbody'.unique hbody hpath.symm))
      · obtain ⟨_, _, hstands'⟩ := stands_of_mem_nodes hn'
        have hsolidn := hf.solid hstands' hb'.kind_ne_root
        have hstart := (Node.span_of_mem_descendants
          (hbody.mem_descendants hstands' hpath) hsolidn).1
        have hlt := hb'.span_start_lt hsolidn hsolid'
        omega
    · have hpath := Node.path_prefix_of_mem_descendants hin
      rw [hb.path, List.prefix_concat_iff, ← hb.path] at hpath
      rcases hpath with hpath | hpath
      · exact .inl (hsame (hbody'.unique hbody hpath))
      · exact .inr ⟨prior, hprior, by rwa [Batch.pathOf_eq hlocate']⟩
    · simp only [Span.overlaps, Bool.and_eq_true, decide_eq_true_eq] at hover
      omega

theorem askedFix?_cases {kind : NodeKind} {o : Outline} {fix : Fix}
    (h : askedFix? kind o = some fix) :
    o.kind.isStatement = true ∧ (kind == .elseClause && o.kind == .ifStatement) = false := by
  unfold askedFix? at h
  split at h
  · rename_i hopen
    rwa [Bool.and_eq_true, Bool.not_eq_true'] at hopen
  · cases h

/-- A body for which an edit is asked that can be made is one that can be repaired. -/
theorem Asks.repaired? {n body : Node} {edit : Edit} {before after : List Tree} {new : Tree}
    (h : Asks n body edit) (hb : HasBody n body before after)
    (hnew : replacement edit.fix body = .ok new) :
    awaited? n.kind before = some n.kind ∧ repaired? n.kind body.tree = some new := by
  constructor
  · refine awaited?_eq_some.2 ⟨rfl, hb.control, fun t ht => ?_⟩
    cases t with
    | node k inner => exact hb.first k inner ht
    | leaf token => rfl
  · rw [Rules.repaired?, h.askedFix?, Option.bind_some]
    exact Node.replacement?_eq_some.2 hnew

theorem exists_asks_of_repaired? {n : Node} {kind : NodeKind} {before after : List Tree}
    {u new : Tree} (hparts : n.parts = before ++ u :: after)
    (hawaited : awaited? n.kind before = some kind) (hnew : repaired? kind u = some new) :
    ∃ body edit, Asks n body edit ∧ body.path = n.path ++ [before.length] ∧
      replacement edit.fix body = .ok new := by
  obtain ⟨rfl, hcontrol, hfirst⟩ := awaited?_eq_some.1 hawaited
  obtain ⟨fix, hfix, hreplaced⟩ := Option.bind_eq_some_iff.1 hnew
  obtain ⟨o, ho, hasked⟩ := Option.bind_eq_some_iff.1 hfix
  cases u with
  | leaf token => cases ho
  | node k inner =>
    obtain ⟨hstatement, hchain⟩ := askedFix?_cases hasked
    cases ho
    have hbody := checkedBody?_eq_some hcontrol hparts hstatement hfirst hchain
    exact ⟨_, _, asks_of_askedFix? hbody hfix, rfl, Node.replacement?_eq_some.1 hreplaced⟩

/-- The nodes that a batch replaces are the outermost bodies that can be repaired. -/
theorem marks_select {tokens : List Token} {f : SourceFile} (hf : Parsed tokens f) :
    Marks (Tree.siteAt? (Batch.sites f (Batch.select f f.asked).accepted)) f.root.tree := by
  intro q kind before u after pre post hholds hfree
  have hpairs := Batch.pairwise_sites hf (Batch.valid_select hf f.asked)
  have hstands : f.Stands ⟨kind, before ++ u :: after, Token.widthAll pre, q⟩ pre post :=
    ⟨hholds, rfl⟩
  refine Option.ext fun new => ⟨fun h => ?_, fun h => ?_⟩
  · obtain ⟨⟨edit, new'⟩, hp, heq⟩ := List.mem_map.1 (Tree.mem_of_siteAt? h)
    obtain ⟨hpath, rfl⟩ := Prod.mk.inj heq
    obtain ⟨n', hn', body, before', after', hasks, hb, hlocate⟩ :=
      exists_body_of_asked hf ((Batch.decided_select f f.asked).given _ hp)
    obtain ⟨m, hm, hnew⟩ := (Batch.valid_select hf f.asked).ready _ hp
    obtain rfl := Except.ok.inj (hlocate.symm.trans hm)
    rw [Batch.pathOf_eq hlocate, hb.path] at hpath
    obtain ⟨hq, hlength⟩ := List.append_inj' hpath rfl
    obtain ⟨_, _, hstands'⟩ := stands_of_mem_nodes hn'
    obtain rfl := hstands'.unique hstands hq
    obtain ⟨rfl, hrest⟩ := List.append_inj hb.parts (by simpa using hlength.symm)
    obtain ⟨rfl, -⟩ := List.cons.inj hrest
    obtain ⟨hawaited, hrepaired⟩ := hasks.repaired? hb hnew
    rw [hawaited, Option.bind_some, hrepaired]
  · obtain ⟨k, hawaited, hrepaired⟩ := Option.bind_eq_some_iff.1 h
    obtain ⟨body, edit, hasks, hpath, hnew⟩ :=
      exists_asks_of_repaired? (n := ⟨kind, before ++ u :: after, Token.widthAll pre, q⟩) rfl
        hawaited hrepaired
    rcases exists_prefix_of_asked hf hstands.mem_nodes hasks hnew with htaken | ⟨p, hp, hprefix⟩
    · refine Tree.siteAt?_of_mem hpairs (List.mem_map.2 ⟨_, htaken, ?_⟩)
      rw [Batch.pathOf_eq (hf.locate_asked hstands.mem_nodes hasks), hpath]
    · exact absurd rfl (Tree.siteAt?_eq_none.1 (hfree _ hprefix) (Batch.pathOf f p.1, p.2)
        (List.mem_map.2 ⟨p, hp, rfl⟩))

end Rules

namespace SourceFile

open Rules

/-- All edits that are asked for in a file together make one pass over its tree. -/
theorem Parsed.tree_applyBatch {tokens : List Token} {f : SourceFile} (hf : Parsed tokens f)
    {o : BatchOutcome} (ho : f.applyBatch f.asked false = .ok o) :
    o.file.root.tree = repairedOnce f.root.tree := by
  have hvalid := Batch.valid_select hf f.asked
  obtain rfl := Except.ok.inj ho
  have hmade := (Batch.midway_select hf f.asked
    (Batch.select f f.asked).skipped.reverse).replaceAll?_sites hf
  rw [Tree.replaceAll?_eq (fun s hs => ?_) (Batch.pairwise_sites hf hvalid)] at hmade
  · rw [← Option.some.inj hmade]
    refine update_eq_repairedOnce (Tree.siteAt?_eq_none.2 fun s hs => ?_) (marks_select hf)
    obtain ⟨p, hp, rfl⟩ := List.mem_map.1 hs
    obtain ⟨n, -, body, before, after, -, hb, hlocate⟩ :=
      exists_body_of_asked hf ((Batch.decided_select f f.asked).given p hp)
    rw [Batch.pathOf_eq hlocate, hb.path]
    simp
  · obtain ⟨p, hp, rfl⟩ := List.mem_map.1 hs
    obtain ⟨n, hn, -⟩ := hvalid.ready p hp
    obtain ⟨-, -, pre, post, hstands⟩ := stands_of_locate hn
    rw [Batch.pathOf_eq hn]
    exact ⟨_, _, _, hstands.holds⟩

end SourceFile

end PluginLint
