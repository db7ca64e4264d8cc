import PluginLint.Proofs.Edits.Replacing

/-!
# A batch of edits is one splice

All edits of a batch are checked on the file as it was, and looked for again in a file that has
already been changed further back. They are in order and apart, so each of them still finds its
node, and the text that comes out is the original one with the spans of the edits replaced.
-/
namespace PluginLint

namespace Text

/-- The text from the byte `offset` of a file on, with the bytes of each span replaced. The spans
come in order, without overlaps, and lie between characters. -/
def spliceFrom? (offset : Nat) (text : List Char) : List (Span × String) → Option (List Char)
  | [] => some text
  | (span, new) :: rest =>
    if span.start < offset || span.stop < span.start then none
    else do
      let kept ← takeBytes? (span.start - offset) text
      let behind ← dropBytes? (span.stop - offset) text
      let changed ← spliceFrom? span.stop behind rest
      return kept ++ new.toList ++ changed

/-- The text with the bytes of each span replaced. -/
def splice? (text : String) (changes : List (Span × String)) : Option String :=
  (spliceFrom? 0 text.toList changes).map String.ofList

/-- Text in front of all spans stays as it is. -/
theorem spliceFrom?_append {text text' : List Char} {changes : List (Span × String)}
    (offset : Nat) (kept : List Char)
    (h : spliceFrom? (offset + byteLength kept) text changes = some text') :
    spliceFrom? offset (kept ++ text) changes = some (kept ++ text') := by
  cases changes with
  | nil =>
    simp only [spliceFrom?, Option.some.injEq] at h ⊢
    rw [h]
  | cons change rest =>
    obtain ⟨span, new⟩ := change
    rw [spliceFrom?] at h ⊢
    split at h
    · cases h
    · rename_i hspan
      simp only [Bool.or_eq_true, decide_eq_true_eq, not_or, Nat.not_lt] at hspan
      have hstart : span.start - offset =
          byteLength kept + (span.start - (offset + byteLength kept)) := by omega
      have hstop : span.stop - offset =
          byteLength kept + (span.stop - (offset + byteLength kept)) := by omega
      rw [if_neg (by simp; omega), hstart, hstop, takeBytes?_append_add, dropBytes?_append_add]
      simp only [Option.bind_eq_bind, Option.bind_eq_some_iff, Option.pure_def, Option.some.injEq,
        Option.map_eq_some_iff] at h ⊢
      obtain ⟨a, ha, b, hb, c, hc, rfl⟩ := h
      exact ⟨_, ⟨a, ha, rfl⟩, b, hb, c, hc, by simp⟩

/-- A span at the very front is replaced. -/
theorem spliceFrom?_cons {offset : Nat} {text text' : List Char} {rest : List (Span × String)}
    (old : List Char) (new : String)
    (h : spliceFrom? (offset + byteLength old) text rest = some text') :
    spliceFrom? offset (old ++ text) ((.ofLength offset (byteLength old), new) :: rest) =
      some (new.toList ++ text') := by
  rw [spliceFrom?, if_neg]
  · simp only [Span.ofLength, Nat.sub_self, Nat.add_sub_cancel_left, dropBytes?_append]
    simp [takeBytes?, h]
  · simp only [Bool.or_eq_true, decide_eq_true_eq]
    simp only [Span.ofLength]
    omega

/-- Of two beginnings of a text the one with more bytes goes on from the other. -/
theorem exists_append_of_byteLength_le {s t u v : List Char} (h : s ++ t = u ++ v)
    (hle : byteLength s ≤ byteLength u) : ∃ c, u = s ++ c ∧ t = c ++ v := by
  rcases List.append_eq_append_iff.1 h with ⟨c, hu, ht⟩ | ⟨c, hs, hv⟩
  · exact ⟨c, hu, ht⟩
  · cases c with
    | nil => exact ⟨[], by simpa using hs.symm, by simpa using hv.symm⟩
    | cons x c =>
      have := x.utf8Size_pos
      rw [hs, byteLength_append, byteLength_cons] at hle
      omega

end Text

namespace SourceFile

/-- The text that an edit puts in place of its span. -/
def newText? (f : SourceFile) (edit : Edit) : Option String :=
  match edit.fix with
  | .addBraces =>
    (Text.slice? f.text edit.span.start edit.span.stop).map fun s => "\x7b " ++ s ++ " \x7d"
  | .removeBraces => do
    let block ← f.root.findNode? edit.span edit.fix.accepts
    let statement ← block.singleStatement?
    return statement.text

/-- The span of an edit with the text that is put in its place. -/
def changeOf? (f : SourceFile) (edit : Edit) : Option (Span × String) :=
  (f.newText? edit).map fun new => (edit.span, new)

end SourceFile

namespace Batch

open SourceFile

/-! ### Which edits are taken -/

/-- The edits taken so far can be made in the file and are apart, the newest one furthest back. -/
structure Selection.Valid (f : SourceFile) (s : Selection) : Prop where
  ready : ∀ p ∈ s.accepted, ∃ n, f.locate p.1 = .ok n ∧ replacement p.1.fix n = .ok p.2
  apart : s.accepted.Pairwise fun a b => b.1.span.stop ≤ a.1.span.start

/-- What comes of looking at an edit: it is left out for one of three reasons, or it is taken. -/
inductive Selection.Added (f : SourceFile) (s : Selection) (edit : Edit) : Selection → Prop
  | overlap {prior : Edit × Tree} (hprior : prior ∈ s.accepted)
    (hover : prior.1.span.overlaps edit.span = true) :
    Added f s edit { s with skipped := ⟨edit, .overlap prior.1.span⟩ :: s.skipped }
  | notFound {why : EditError} (hfree : ∀ p ∈ s.accepted, p.1.span.overlaps edit.span = false)
    (hn : f.locate edit = .error why) :
    Added f s edit { s with skipped := ⟨edit, .notFound⟩ :: s.skipped }
  | invalid {n : Node} {why : EditError}
    (hfree : ∀ p ∈ s.accepted, p.1.span.overlaps edit.span = false) (hn : f.locate edit = .ok n)
    (hwhy : replacement edit.fix n = .error why) :
    Added f s edit { s with skipped := ⟨edit, .invalid why⟩ :: s.skipped }
  | taken {n : Node} {tree : Tree} (hfree : ∀ p ∈ s.accepted, p.1.span.overlaps edit.span = false)
    (hn : f.locate edit = .ok n) (htree : replacement edit.fix n = .ok tree) :
    Added f s edit { s with accepted := (edit, tree) :: s.accepted }

theorem Selection.added (f : SourceFile) (s : Selection) (edit : Edit) :
    s.Added f edit (s.add f edit) := by
  unfold Selection.add
  split
  · rename_i prior tree hprior
    have hover : prior.span.overlaps edit.span = true := by simpa using List.find?_some hprior
    have hmem : (prior, tree) ∈ s.accepted :=
      List.mem_reverse.1 (List.mem_of_find?_eq_some hprior)
    exact .overlap hmem hover
  · rename_i hnone
    have hfree : ∀ p ∈ s.accepted, p.1.span.overlaps edit.span = false := by
      intro p hp
      simpa using List.find?_eq_none.1 hnone p (List.mem_reverse.2 hp)
    split
    · rename_i why hwhy
      exact .notFound hfree hwhy
    · rename_i n hn
      split
      · rename_i tree htree
        exact .taken hfree hn htree
      · rename_i why hwhy
        exact .invalid hfree hn hwhy

/-- The edits taken are those taken before, and perhaps the new one. -/
theorem Selection.Added.mem_accepted {f : SourceFile} {s s' : Selection} {edit : Edit}
    (h : s.Added f edit s') {p : Edit × Tree} (hp : p ∈ s'.accepted) :
    p ∈ s.accepted ∨ p.1 = edit := by
  cases h with
  | taken hfree hn htree =>
    rcases List.mem_cons.1 hp with rfl | hp
    · exact .inr rfl
    · exact .inl hp
  | _ => exact .inl hp

theorem Selection.Valid.add {tokens : List Token} {f : SourceFile} (hf : Parsed tokens f)
    {s : Selection} (hs : s.Valid f) {edit : Edit}
    (hle : ∀ p ∈ s.accepted, p.1.span.start ≤ edit.span.start) : (s.add f edit).Valid f := by
  have hadded := s.added f edit
  generalize s.add f edit = s' at hadded ⊢
  cases hadded with
  | overlap hprior hover => exact ⟨hs.ready, hs.apart⟩
  | notFound hfree hn => exact ⟨hs.ready, hs.apart⟩
  | invalid hfree hn hwhy => exact ⟨hs.ready, hs.apart⟩
  | @taken n tree hfree hn htree =>
    have hpos := (hf.span_bounds hn).1
    constructor
    · rw [List.forall_mem_cons]
      exact ⟨⟨n, hn, htree⟩, hs.ready⟩
    · rw [List.pairwise_cons]
      refine ⟨fun p hp => ?_, hs.apart⟩
      have hstart := hle p hp
      have hdisjoint := hfree p hp
      simp only [Span.overlaps, Bool.and_eq_false_iff, decide_eq_false_iff_not] at hdisjoint
      show p.1.span.stop ≤ edit.span.start
      omega

theorem valid_foldl {tokens : List Token} {f : SourceFile} (hf : Parsed tokens f)
    {edits : List Edit} {s : Selection} (hs : s.Valid f)
    (hle : ∀ p ∈ s.accepted, ∀ e ∈ edits, p.1.span.start ≤ e.span.start)
    (hsorted : edits.Pairwise fun a b => a.span.start ≤ b.span.start) :
    (edits.foldl (Selection.add f) s).Valid f := by
  induction edits generalizing s with
  | nil => exact hs
  | cons edit edits ih =>
    rw [List.pairwise_cons] at hsorted
    have hadd := hs.add hf fun p hp => hle p hp edit List.mem_cons_self
    rw [List.foldl_cons]
    refine ih hadd (fun p hp e he => ?_) hsorted.2
    rcases (s.added f edit).mem_accepted hp with hp | rfl
    · exact hle p hp e (List.mem_cons_of_mem _ he)
    · exact hsorted.1 e he

theorem pairwise_ordered (edits : List Edit) :
    (ordered edits).Pairwise fun a b => a.span.start ≤ b.span.start := by
  have h := @List.pairwise_mergeSort Edit (fun a b => a.span.start ≤ b.span.start)
    (fun a b c => by simp; omega) (fun a b => by simp; omega) edits
  simpa [ordered] using h

/-- Whatever the edits are, those that are taken can be made and are apart. -/
theorem valid_select {tokens : List Token} {f : SourceFile} (hf : Parsed tokens f)
    (edits : List Edit) : (select f edits).Valid f :=
  valid_foldl hf ⟨by simp, .nil⟩ (by simp) (pairwise_ordered edits)

/-! ### Making the edits -/

/-- A batch of which the edits `rest` are still to be made: the file reads as before up to the
byte where the edits that were made begin, and behind it the splice has been carried out. -/
structure Midway (f : SourceFile) (rest : List (Edit × Tree)) (o : BatchOutcome)
    (kept : List Char) : Prop where
  spliced : ∃ changes old new, o.applied.mapM f.changeOf? = some changes ∧
    f.text.toList = kept ++ old ∧ o.file.text.toList = kept ++ new ∧
    Text.spliceFrom? (Text.byteLength kept) old changes = some new
  ready : ∀ p ∈ rest, ∃ n, f.locate p.1 = .ok n ∧ o.file.locate p.1 = .ok n ∧
    replacement p.1.fix n = .ok p.2 ∧ n.tree.Solid
  front : ∀ p ∈ rest, p.1.span.stop ≤ Text.byteLength kept
  apart : rest.Pairwise fun a b => b.1.span.stop ≤ a.1.span.start

/-- The text that an edit puts in place is the one that its fix promises. -/
theorem changeOf?_eq {f : SourceFile} {edit : Edit} {n : Node} {new : Tree} {before after : List Char}
    (hn : f.locate edit = .ok n) (hnew : replacement edit.fix n = .ok new)
    (htext : f.text.toList = before ++ (n.text.toList ++ after))
    (hspan : edit.span = .ofLength (Text.byteLength before) (Text.byteLength n.text.toList)) :
    f.changeOf? edit = some (edit.span, new.text) := by
  have hfound := locate_eq_ok.1 hn
  unfold changeOf? newText?
  cases hfix : edit.fix with
  | addBraces =>
    rw [hfix] at hnew
    cases hnew
    have hslice := Text.slice?_append before n.text.toList after
    rw [List.append_assoc, ← htext, String.ofList_toList, String.ofList_toList] at hslice
    rw [hspan]
    simp only [Span.ofLength, hslice, Node.text_wrapped, Option.map_some]
  | removeBraces =>
    rw [hfix] at hnew hfound
    obtain ⟨s, hs, -, rfl⟩ := Node.unwrapped_cases hnew
    simp only [hfound, hs, Option.bind_eq_bind, Option.bind_some, Option.pure_def, Option.map_some,
      Node.text_withOuterTrivia, Node.text]

/-- An edit in front of the node that is replaced finds its own node again. -/
theorem locate_replace {f g : SourceFile} {edit : Edit} {n m : Node} {new : Tree}
    {pre post : List Token} (hm : f.Stands m pre post) (hx : Node.Exchange m.tree new)
    (hg : Tree.replaceAt new m.path f.root.tree = some g.root.tree)
    (hpos : edit.span.start < edit.span.stop) (hfront : edit.span.stop ≤ m.span.start)
    (hn : f.locate edit = .ok n) : g.locate edit = .ok n := by
  rw [locate_eq_ok] at hn ⊢
  refine Node.findIn_replaceAt hm.holds hx hg hpos ?_ hn
  have hne : m.tree.tokens ≠ [] := Tree.tokens_ne_nil_of_text hx.old_pos
  rw [Node.span_eq hne, hm.start] at hfront
  simpa [Span.ofLength, root, Node.leading] using hfront

/-- The last of the edits that are left can be made. -/
theorem Midway.step {tokens : List Token} {f : SourceFile} (hf : Parsed tokens f) {edit : Edit}
    {new : Tree} {rest : List (Edit × Tree)} {o : BatchOutcome} {kept : List Char}
    (h : Midway f ((edit, new) :: rest) o kept) :
    ∃ n g before, o.file.locate edit = .ok n ∧ o.file.replace n new = .ok g ∧
      Midway f rest
        { o with
          file := g
          applied := edit :: o.applied
          changes := o.changes ++ [⟨edit.fix, n⟩] } before := by
  obtain ⟨n, hn, hn', hnew, hsolid⟩ := h.ready _ List.mem_cons_self
  obtain ⟨hspan, -, pre, post, hstands⟩ := stands_of_locate hn'
  have hx := Node.exchange_replacement hsolid hnew
  obtain ⟨g, hg, hreplaced, -⟩ := hstands.exists_replace hx.node
  obtain ⟨before, after, htext, hn_span, hg_text⟩ := hstands.text_eq hsolid.text_pos
  obtain ⟨changes, old, changed, hchanges, hold, hchanged, hsplice⟩ := h.spliced
  rw [hspan] at hn_span
  have hfront : edit.span.stop ≤ Text.byteLength kept := h.front _ List.mem_cons_self
  have hapart := List.pairwise_cons.1 h.apart
  -- The node stands in the part that has not been touched yet.
  obtain ⟨between, hkept, hafter⟩ : ∃ c, kept = (before ++ n.text.toList) ++ c ∧
      after = c ++ changed := by
    apply Text.exists_append_of_byteLength_le
    · rw [List.append_assoc, ← htext, hchanged]
    · rw [Text.byteLength_append]
      rw [hn_span] at hfront
      exact hfront
  have hsource : f.text.toList = before ++ (n.text.toList ++ (between ++ old)) := by
    rw [hold, hkept]
    simp
  refine ⟨n, g, before, hn', hg, ⟨?_, fun p hp => ?_, fun p hp => ?_, hapart.2⟩⟩
  · refine ⟨(edit.span, new.text) :: changes, _, new.text.toList ++ (between ++ changed), ?_,
      hsource, ?_, ?_⟩
    · simp [List.mapM_cons, changeOf?_eq hn hnew hsource hn_span, hchanges]
    · rw [hg_text new g hreplaced hx, hafter]
    · rw [hn_span]
      refine Text.spliceFrom?_cons _ _ (Text.spliceFrom?_append _ _ ?_)
      rw [hkept, Text.byteLength_append, Text.byteLength_append] at hsplice
      exact hsplice
  · obtain ⟨m, hm, hm', htree, hmsolid⟩ := h.ready p (List.mem_cons_of_mem _ hp)
    have hle := hapart.1 p hp
    rw [← hspan] at hle
    exact ⟨m, hm, locate_replace hstands hx hreplaced (hf.span_bounds hm).1 hle hm', htree, hmsolid⟩
  · have hle : p.1.span.stop ≤ edit.span.start := hapart.1 p hp
    rw [hn_span] at hle
    exact hle

/-- One edit is made, and then the others. -/
theorem make_cons {edit : Edit} {new : Tree} {rest : List (Edit × Tree)} {o : BatchOutcome} {n : Node}
    {g : SourceFile} (hn : o.file.locate edit = .ok n) (hg : o.file.replace n new = .ok g) :
    make ((edit, new) :: rest) o = make rest
      { o with
        file := g
        applied := edit :: o.applied
        changes := o.changes ++ [⟨edit.fix, n⟩] } := by
  rw [make, hn]
  simp only [bind, Except.bind, hg]
  rfl

/-- All edits that are left are made, and together they are one splice. -/
theorem Midway.make {tokens : List Token} {f : SourceFile} (hf : Parsed tokens f)
    {rest : List (Edit × Tree)} {o : BatchOutcome} {kept : List Char} (h : Midway f rest o kept) :
    (make rest o).applied = (rest.map Prod.fst).reverse ++ o.applied ∧
      (make rest o).skipped = o.skipped ∧
      ((make rest o).applied.mapM f.changeOf?).bind (Text.splice? f.text) =
        some (make rest o).file.text := by
  induction rest generalizing o kept with
  | nil =>
    obtain ⟨changes, old, new, hchanges, hold, hnew, hsplice⟩ := h.spliced
    refine ⟨rfl, rfl, ?_⟩
    have := Text.spliceFrom?_append 0 kept (by simpa using hsplice)
    simp only [Batch.make, hchanges, Option.bind_some, Text.splice?, hold, this, Option.map_some]
    rw [← hnew, String.ofList_toList]
  | cons p rest ih =>
    obtain ⟨edit, new⟩ := p
    obtain ⟨n, g, before, hn, hg, hnext⟩ := h.step hf
    obtain ⟨happlied, hskipped, htext⟩ := ih hnext
    rw [make_cons hn hg]
    exact ⟨by simpa using happlied, hskipped, htext⟩

/-- Before the first edit is made the whole text is as it was. -/
theorem midway_select {tokens : List Token} {f : SourceFile} (hf : Parsed tokens f)
    (edits : List Edit) (skipped : List SkippedEdit) :
    Midway f (select f edits).accepted { file := f, applied := [], skipped } f.text.toList := by
  have hvalid := valid_select hf edits
  refine ⟨⟨[], [], [], rfl, by simp, by simp, rfl⟩, fun p hp => ?_, fun p hp => ?_, hvalid.apart⟩
  · obtain ⟨n, hn, hnew⟩ := hvalid.ready p hp
    obtain ⟨-, haccepts, pre, post, hstands⟩ := stands_of_locate hn
    exact ⟨n, hn, hn, hnew, hf.solid hstands (Fix.kind_ne_of_accepts haccepts)⟩
  · obtain ⟨n, hn, -⟩ := hvalid.ready p hp
    rw [Text.byteLength_toList]
    exact (hf.span_bounds hn).2

end Batch

namespace SourceFile

/-- Whatever the edits are, a batch is made, all edits taken are applied, and the text is that of
the file with the span of each applied edit replaced: by itself in braces, or by the text of the
only statement of its block. -/
theorem applyBatch_splices (path : String) {source : String} {tokens : List Token}
    (h : Lexer.tokenize source = .ok tokens) :
    ∃ f, parse path source = .ok f ∧ f.text = source ∧ ∀ edits, ∃ o,
      f.applyBatch edits false = .ok o ∧
      o.applied = ((Batch.select f edits).accepted.map Prod.fst).reverse ∧
      (o.applied.mapM f.changeOf?).bind (Text.splice? source) = some o.file.text := by
  obtain ⟨f, hf, hparsed⟩ := exists_parsed_of_tokenize path h
  have htext := hparsed.text_eq h
  refine ⟨f, hf, htext, fun edits => ⟨_, rfl, ?_⟩⟩
  obtain ⟨happlied, -, hspliced⟩ :=
    (Batch.midway_select hparsed edits (Batch.select _ edits).skipped.reverse).make hparsed
  rw [htext] at hspliced
  exact ⟨by simpa using happlied, hspliced⟩

/-- Two edits that fit, given last one first and one of them twice, and one that dangles. -/
theorem applyBatch_splices_both :
    ∃ f o, parse "C.cs" "class C\x7bvoid M()\x7bif(a)b();else \x7breturn;\x7d\x7d\x7d" = .ok f ∧
      f.applyBatch [⟨⟨31, 40⟩, .removeBraces⟩, ⟨⟨22, 26⟩, .addBraces⟩, ⟨⟨22, 26⟩, .addBraces⟩,
        ⟨⟨3, 90⟩, .addBraces⟩] false = .ok o ∧
      (o.applied.mapM f.changeOf?).bind
        (Text.splice? "class C\x7bvoid M()\x7bif(a)b();else \x7breturn;\x7d\x7d\x7d") =
        some o.file.text := by
  have hlex : (Lexer.tokenize
      "class C\x7bvoid M()\x7bif(a)b();else \x7breturn;\x7d\x7d\x7d").toOption.isSome = true := by
    rw [Lexer.tokenize_ofList]
    decide +kernel
  obtain ⟨tokens, h⟩ := Option.isSome_iff_exists.1 hlex
  obtain ⟨f, hf, -, hall⟩ := applyBatch_splices "C.cs" (eq_ok_of_toOption h)
  obtain ⟨o, ho, -, hspliced⟩ := hall _
  exact ⟨f, o, hf, ho, hspliced⟩

end SourceFile

end PluginLint
