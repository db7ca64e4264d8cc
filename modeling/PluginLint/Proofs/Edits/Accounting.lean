import PluginLint.Proofs.Edits.Splicing
import PluginLint.Proofs.Trees.Search

/-!
# Every edit of a batch is accounted for

The edits are looked at once each, in the order of their starts, and what is decided about one depends
on those taken before it and on the file as it was. All that were taken can still be made when their
turn comes, so what was decided is what the outcome says.
-/
namespace PluginLint

/-- Of two spans that are apart, a third one behind the start of both meets one at most. -/
theorem Span.overlaps_eq_false {a b e : Span} (hapart : a.stop ≤ b.start)
    (hle : b.start ≤ e.start) : a.overlaps e = false := by
  simp only [overlaps, Bool.and_eq_false_iff, decide_eq_false_iff_not]
  omega

namespace Batch

open SourceFile

/-! ### The order of the edits -/

/-- The edits in the order of their starts; those with one start are in the order in which they were
given. -/
structure InOrder (edits sorted : List Edit) : Prop where
  perm : sorted.Perm edits
  starts : sorted.Pairwise fun a b => a.span.start ≤ b.span.start
  stable : ∀ start, sorted.filter (fun e => e.span.start == start) =
    edits.filter fun e => e.span.start == start

theorem inOrder_ordered (edits : List Edit) : InOrder edits (ordered edits) where
  perm := List.mergeSort_perm edits _
  starts := pairwise_ordered edits
  stable start := by
    have hsorted : (edits.filter fun e => e.span.start == start).Pairwise fun a b =>
        decide (a.span.start ≤ b.span.start) = true := by
      apply List.Pairwise.imp_of_mem (p := List.pairwise_of_forall fun _ _ => trivial)
      intro a b ha hb _
      rw [List.mem_filter, beq_iff_eq] at ha hb
      exact decide_eq_true (Nat.le_of_eq (ha.2.trans hb.2.symm))
    have hsublist : (edits.filter fun e => e.span.start == start).Sublist (ordered edits) :=
      List.sublist_mergeSort (fun a b c => by simp; omega) (fun a b => by simp; omega) hsorted
        List.filter_sublist
    have hfilter := hsublist.filter fun e => e.span.start == start
    rw [List.filter_filter] at hfilter
    simp only [Bool.and_self] at hfilter
    have hlength := ((List.mergeSort_perm edits fun a b => a.span.start ≤ b.span.start).filter
      fun e => e.span.start == start).length_eq
    exact (hfilter.eq_of_length hlength.symm).symm

/-! ### What speaks against an edit -/

/-- The node that an edit is for: the first one with its span to which its fix applies. -/
def target? (f : SourceFile) (e : Edit) : Option Node :=
  f.nodes.find? fun n => n.span == e.span && e.fix.accepts n

theorem target?_eq_none {f : SourceFile} {e : Edit} :
    target? f e = none ↔ ∀ n ∈ f.nodes, n.span = e.span → e.fix.accepts n = false := by
  simp [target?]

/-- What is decided about an edit after the edits `earlier` have been taken: it is left out for one of
three reasons, or for none it is taken as well. -/
structure Verdict (f : SourceFile) (earlier : List Edit) (e : Edit) (v : Option SkipReason) :
    Prop where
  overlap : ∀ other, v = some (.overlap other) ↔
    ∃ a ∈ earlier, a.span.overlaps e.span = true ∧ a.span = other
  notFound : v = some .notFound ↔ (∀ a ∈ earlier, a.span.overlaps e.span = false) ∧
    ∀ n ∈ f.nodes, n.span = e.span → e.fix.accepts n = false
  invalid : ∀ why, v = some (.invalid why) ↔ (∀ a ∈ earlier, a.span.overlaps e.span = false) ∧
    e.fix = .removeBraces ∧ ∃ n, target? f e = some n ∧ n.unwrapped = .error why

/-- The edits that are taken. -/
def taken (rows : List (Edit × Option SkipReason)) : List Edit :=
  rows.filterMap fun (e, v) => if v.isNone then some e else none

/-- The edits that are left out, with the reasons. -/
def leftOut (rows : List (Edit × Option SkipReason)) : List SkippedEdit :=
  rows.filterMap fun (e, v) => v.map (SkippedEdit.mk e)

@[simp] theorem taken_append (rows rows' : List (Edit × Option SkipReason)) :
    taken (rows ++ rows') = taken rows ++ taken rows' := List.filterMap_append

@[simp] theorem leftOut_append (rows rows' : List (Edit × Option SkipReason)) :
    leftOut (rows ++ rows') = leftOut rows ++ leftOut rows' := List.filterMap_append

theorem mem_of_mem_taken {rows : List (Edit × Option SkipReason)} {e : Edit} (h : e ∈ taken rows) :
    e ∈ rows.map Prod.fst := by
  obtain ⟨⟨e', v⟩, hrow, htaken⟩ := List.mem_filterMap.1 h
  dsimp only at htaken
  split at htaken
  · cases htaken
    exact List.mem_map_of_mem hrow
  · cases htaken

/-- An edit is taken or left out. -/
theorem perm_taken_leftOut (rows : List (Edit × Option SkipReason)) :
    (taken rows ++ (leftOut rows).map SkippedEdit.edit).Perm (rows.map Prod.fst) := by
  induction rows with
  | nil => exact .nil
  | cons row rows ih =>
    obtain ⟨e, v⟩ := row
    cases v with
    | none => exact ih.cons e
    | some why => exact List.perm_middle.trans (ih.cons e)

section verdict

variable {tokens : List Token} {f : SourceFile} {s : Selection} {edit : Edit} {earlier : List Edit}

/-- The search for the node of an edit finds the first one that fits, even where the span of the edit
is empty or its stop lies in front of its start: no node has such a span. -/
theorem locate_eq_ok_iff (hf : Parsed tokens f) {n : Node} :
    f.locate edit = .ok n ↔ target? f edit = some n := by
  rw [locate_eq_ok]
  by_cases hspan : edit.span.start < edit.span.stop
  · rw [Node.findNode?_eq_find? _ _ _ hspan]
    rfl
  · constructor
    · intro h
      exact absurd (hf.span_bounds (locate_eq_ok.2 h)).1 hspan
    · intro h
      have hfits := List.find?_some h
      rw [Bool.and_eq_true, beq_iff_eq] at hfits
      have hsolid := hf.solid_of_mem (List.mem_of_find?_eq_some h)
        (Fix.kind_ne_of_accepts hfits.2)
      exact absurd (hfits.1 ▸ (Node.span_of_solid hsolid).2.1) hspan

theorem replacement_eq_error {fix : Fix} {n : Node} {why : EditError} :
    replacement fix n = .error why ↔ fix = .removeBraces ∧ n.unwrapped = .error why := by
  cases fix <;> simp [replacement]

/-- The edit meets one that was taken. -/
theorem Verdict.of_overlap {a : Edit} (ha : a ∈ earlier) (hover : a.span.overlaps edit.span = true)
    (hone : ∀ b ∈ earlier, b.span.overlaps edit.span = true → b.span = a.span) :
    Verdict f earlier edit (some (.overlap a.span)) := by
  have hmet : ¬∀ b ∈ earlier, b.span.overlaps edit.span = false := by
    intro hfree
    rw [hfree a ha] at hover
    cases hover
  constructor
  · intro other
    constructor
    · intro h
      cases h
      exact ⟨a, ha, hover, rfl⟩
    · rintro ⟨b, hb, hbover, rfl⟩
      rw [hone b hb hbover]
  · exact ⟨nofun, fun h => absurd h.1 hmet⟩
  · exact fun why => ⟨nofun, fun h => absurd h.1 hmet⟩

section free

variable (hfree : ∀ a ∈ earlier, a.span.overlaps edit.span = false)

include hfree

/-- An edit that meets none of those taken is judged by the node that it is for. -/
theorem Verdict.of_free {v : Option SkipReason} (hv : ∀ other, v ≠ some (.overlap other))
    (hnotFound : v = some .notFound ↔ target? f edit = none)
    (hinvalid : ∀ why, v = some (.invalid why) ↔
      ∃ n, target? f edit = some n ∧ replacement edit.fix n = .error why) :
    Verdict f earlier edit v := by
  constructor
  · intro other
    constructor
    · exact fun h => absurd h (hv other)
    · rintro ⟨a, ha, hover, -⟩
      rw [hfree a ha] at hover
      cases hover
  · rw [hnotFound, target?_eq_none]
    exact ⟨fun h => ⟨hfree, h⟩, And.right⟩
  · intro why
    rw [hinvalid]
    constructor
    · rintro ⟨n, hn, hwhy⟩
      exact ⟨hfree, (replacement_eq_error.1 hwhy).1, n, hn, (replacement_eq_error.1 hwhy).2⟩
    · rintro ⟨-, hfix, n, hn, hwhy⟩
      exact ⟨n, hn, replacement_eq_error.2 ⟨hfix, hwhy⟩⟩

theorem Verdict.of_notFound (hnone : target? f edit = none) :
    Verdict f earlier edit (some .notFound) := by
  apply of_free hfree
  · exact fun other => nofun
  · simp [hnone]
  · simp [hnone]

theorem Verdict.of_replacement {n : Node} (hn : target? f edit = some n) {new : Tree}
    (hnew : replacement edit.fix n = .ok new) : Verdict f earlier edit none := by
  apply of_free hfree
  · exact fun other => nofun
  · simp [hn]
  · simp [hn, hnew]

theorem Verdict.of_refused {n : Node} (hn : target? f edit = some n) {why : EditError}
    (hwhy : replacement edit.fix n = .error why) : Verdict f earlier edit (some (.invalid why)) := by
  apply of_free hfree
  · exact fun other => nofun
  · simp [hn]
  · simp [hn, hwhy]

end free

/-- If the edit meets both of two taken edits, these have one span. -/
def SameIfMet (edit : Edit) (p q : Edit × Tree) : Prop :=
  p.1.span.overlaps edit.span = true → q.1.span.overlaps edit.span = true → p.1.span = q.1.span

theorem SameIfMet.symm {p q : Edit × Tree} (h : SameIfMet edit p q) : SameIfMet edit q p :=
  fun hq hp => (h hp hq).symm

/-- Of the edits taken before, one that starts behind all of them meets one at most. -/
theorem Selection.Valid.sameIfMet (hs : s.Valid f)
    (hle : ∀ p ∈ s.accepted, p.1.span.start ≤ edit.span.start) {p q : Edit × Tree}
    (hp : p ∈ s.accepted) (hq : q ∈ s.accepted) : SameIfMet edit p q := by
  have hpairs : s.accepted.Pairwise (SameIfMet edit) := by
    apply hs.apart.imp_of_mem
    intro a b ha hb hapart hover hbover
    rw [Span.overlaps_eq_false hapart (hle a ha)] at hbover
    cases hbover
  have hsymm : Std.Symm (SameIfMet edit) := ⟨fun _ _ => SameIfMet.symm⟩
  exact hpairs.forall_of_forall (fun _ _ _ _ => rfl) hp hq

/-- One edit is looked at. -/
theorem Selection.add_verdict (hf : Parsed tokens f) (hs : s.Valid f)
    (hle : ∀ p ∈ s.accepted, p.1.span.start ≤ edit.span.start) :
    (∃ new, s.add f edit = { s with accepted := (edit, new) :: s.accepted } ∧
      Verdict f (s.accepted.map Prod.fst).reverse edit none) ∨
    ∃ why, s.add f edit = { s with skipped := ⟨edit, why⟩ :: s.skipped } ∧
      Verdict f (s.accepted.map Prod.fst).reverse edit (some why) := by
  have hearlier : ∀ (P : Edit → Prop), (∀ p ∈ s.accepted, P p.1) →
      ∀ a ∈ (s.accepted.map Prod.fst).reverse, P a := by
    intro P hall a ha
    obtain ⟨p, hp, rfl⟩ := List.mem_map.1 (List.mem_reverse.1 ha)
    exact hall p hp
  have hadded := s.added f edit
  generalize s.add f edit = s' at hadded ⊢
  cases hadded with
  | @overlap prior hprior hover =>
    have hmem : prior.1 ∈ (s.accepted.map Prod.fst).reverse :=
      List.mem_reverse.2 (List.mem_map_of_mem hprior)
    refine .inr ⟨_, rfl, .of_overlap hmem hover ?_⟩
    exact hearlier _ fun q hq hqover => hs.sameIfMet hle hq hprior hqover hover
  | notFound hfree hn =>
    have htarget : target? f edit = none := by
      cases htarget : target? f edit with
      | none => rfl
      | some n =>
        rw [(locate_eq_ok_iff hf).2 htarget] at hn
        cases hn
    exact .inr ⟨_, rfl, .of_notFound (hearlier _ hfree) htarget⟩
  | invalid hfree hn hwhy =>
    exact .inr ⟨_, rfl, .of_refused (hearlier _ hfree) ((locate_eq_ok_iff hf).1 hn) hwhy⟩
  | @taken n new hfree hn hnew =>
    exact .inl ⟨new, rfl, .of_replacement (hearlier _ hfree) ((locate_eq_ok_iff hf).1 hn) hnew⟩

end verdict

/-! ### The edits in turn -/

/-- The edits looked at so far, each with what was decided about it. -/
structure Ledger (f : SourceFile) (rows : List (Edit × Option SkipReason)) (s : Selection) :
    Prop where
  valid : s.Valid f
  accepted : (s.accepted.map Prod.fst).reverse = taken rows
  skipped : s.skipped.reverse = leftOut rows
  judged : ∀ before e v, before ++ [(e, v)] <+: rows → Verdict f (taken before) e v

namespace Ledger

variable {tokens : List Token} {f : SourceFile} {rows : List (Edit × Option SkipReason)}
  {s : Selection} {edit : Edit} {edits : List Edit}

theorem mem_rows (h : Ledger f rows s) {p : Edit × Tree} (hp : p ∈ s.accepted) :
    p.1 ∈ rows.map Prod.fst := by
  apply mem_of_mem_taken
  rw [← h.accepted, List.mem_reverse]
  exact List.mem_map_of_mem hp

/-- One more row is judged by those before it. -/
theorem judged_concat (h : Ledger f rows s) {v : Option SkipReason}
    (hv : Verdict f (s.accepted.map Prod.fst).reverse edit v) (before : List (Edit × Option SkipReason))
    (e : Edit) (v' : Option SkipReason) (hrows : before ++ [(e, v')] <+: rows ++ [(edit, v)]) :
    Verdict f (taken before) e v' := by
  rcases List.prefix_concat_iff.1 hrows with heq | hrows
  · obtain ⟨rfl, hrow⟩ := List.append_inj' heq rfl
    cases hrow
    rwa [← h.accepted]
  · exact h.judged before e v' hrows

theorem add (hf : Parsed tokens f) (h : Ledger f rows s)
    (hle : ∀ d ∈ rows.map Prod.fst, d.span.start ≤ edit.span.start) :
    ∃ v, Ledger f (rows ++ [(edit, v)]) (s.add f edit) := by
  have hstarts : ∀ p ∈ s.accepted, p.1.span.start ≤ edit.span.start :=
    fun p hp => hle p.1 (h.mem_rows hp)
  have hvalid := h.valid.add hf hstarts
  rcases Selection.add_verdict hf h.valid hstarts with ⟨new, hadd, hv⟩ | ⟨why, hadd, hv⟩
  · rw [hadd] at hvalid ⊢
    refine ⟨none, hvalid, ?_, ?_, h.judged_concat hv⟩
    · rw [List.map_cons, List.reverse_cons, h.accepted, taken_append]
      rfl
    · rw [leftOut_append, ← h.skipped]
      exact (List.append_nil _).symm
  · rw [hadd] at hvalid ⊢
    refine ⟨some why, hvalid, ?_, ?_, h.judged_concat hv⟩
    · rw [taken_append, ← h.accepted]
      exact (List.append_nil _).symm
    · rw [List.reverse_cons, h.skipped, leftOut_append]
      rfl

/-- All edits are looked at, in the order of their starts. -/
theorem foldl (hf : Parsed tokens f) (h : Ledger f rows s)
    (hle : ∀ d ∈ rows.map Prod.fst, ∀ e ∈ edits, d.span.start ≤ e.span.start)
    (hsorted : edits.Pairwise fun a b => a.span.start ≤ b.span.start) :
    ∃ rows', rows'.map Prod.fst = rows.map Prod.fst ++ edits ∧
      Ledger f rows' (edits.foldl (Selection.add f) s) := by
  induction edits generalizing rows s with
  | nil => exact ⟨rows, (List.append_nil _).symm, h⟩
  | cons edit edits ih =>
    rw [List.pairwise_cons] at hsorted
    obtain ⟨v, hadd⟩ := h.add hf fun d hd => hle d hd edit List.mem_cons_self
    obtain ⟨rows', hrows, hledger⟩ := ih hadd (fun d hd e he => by
      rw [List.map_append, List.mem_append] at hd
      rcases hd with hd | hd
      · exact hle d hd e (List.mem_cons_of_mem _ he)
      · obtain rfl := List.mem_singleton.1 hd
        exact hsorted.1 e he) hsorted.2
    exact ⟨rows', by rw [hrows]; simp, hledger⟩

end Ledger

theorem exists_ledger {tokens : List Token} {f : SourceFile} (hf : Parsed tokens f)
    (edits : List Edit) :
    ∃ rows, rows.map Prod.fst = ordered edits ∧ Ledger f rows (select f edits) := by
  have hstart : Ledger f [] {} :=
    ⟨⟨by simp, .nil⟩, rfl, rfl, fun before e v h => by simp at h⟩
  exact hstart.foldl hf (by simp) (pairwise_ordered edits)

end Batch

namespace SourceFile

open Batch

/-- Whatever the edits are, each of them has its row in the outcome. The rows come in the order of the
starts, edits with one start as they were given. What is decided about an edit depends on the edits
taken before it and on the nodes of the file as it was. The edits applied are those taken, all of them,
from front to back and apart; those left out are the others, with the reasons. -/
theorem applyBatch_accounts (path : String) {source : String} {tokens : List Token}
    (h : Lexer.tokenize source = .ok tokens) :
    ∃ f, parse path source = .ok f ∧ ∀ edits, ∃ o rows, f.applyBatch edits false = .ok o ∧
      InOrder edits (rows.map Prod.fst) ∧
      (∀ before e v, before ++ [(e, v)] <+: rows → Verdict f (taken before) e v) ∧
      o.applied = taken rows ∧ o.skipped = leftOut rows ∧
      (o.applied ++ o.skipped.map SkippedEdit.edit).Perm edits ∧
      o.applied.Pairwise fun a b =>
        a.span.start < b.span.start ∧ a.span.overlaps b.span = false := by
  obtain ⟨f, hf, hparsed⟩ := exists_parsed_of_tokenize path h
  refine ⟨f, hf, fun edits => ?_⟩
  obtain ⟨rows, hrows, hledger⟩ := exists_ledger hparsed edits
  obtain ⟨happlied, hskipped, -⟩ :=
    (midway_select hparsed edits (select f edits).skipped.reverse).make hparsed
  have htaken : (make (select f edits).accepted
      { file := f, applied := [], skipped := (select f edits).skipped.reverse }).applied =
      taken rows := by
    rw [happlied, List.append_nil, hledger.accepted]
  have hleftOut := hskipped.trans hledger.skipped
  refine ⟨_, rows, rfl, hrows ▸ inOrder_ordered edits, hledger.judged, htaken, hleftOut, ?_, ?_⟩
  · rw [htaken, hleftOut]
    exact (perm_taken_leftOut rows).trans (hrows ▸ List.mergeSort_perm edits _)
  · rw [htaken, ← hledger.accepted, List.pairwise_reverse, List.pairwise_map]
    apply hledger.valid.apart.imp_of_mem
    intro a b ha hb hapart
    obtain ⟨n, hn, -⟩ := hledger.valid.ready b hb
    have hpos := (hparsed.span_bounds hn).1
    constructor
    · omega
    · exact Span.overlaps_eq_false hapart (Nat.le_refl _)

/-- An edit that is given twice, one that meets it, one with its ends the wrong way round and one for a
block with a comment; they are given from back to front. -/
theorem applyBatch_accounts_all :
    let source := "class C\x7bvoid M()\x7bif(a)b();else\x7b/*c*/return;\x7d\x7d\x7d"
    let edits : List Edit := [⟨⟨30, 44⟩, .removeBraces⟩, ⟨⟨24, 40⟩, .addBraces⟩,
      ⟨⟨22, 26⟩, .addBraces⟩, ⟨⟨22, 26⟩, .addBraces⟩, ⟨⟨9, 3⟩, .addBraces⟩]
    ∃ tokens f o rows, Lexer.tokenize source = .ok tokens ∧ parse "C.cs" source = .ok f ∧
      f.applyBatch edits false = .ok o ∧ o.applied = taken rows ∧ o.skipped = leftOut rows ∧
      o.applied.length + o.skipped.length = 5 := by
  intro source edits
  have hlex : (Lexer.tokenize source).toOption.isSome = true := by
    rw [Lexer.tokenize_ofList]
    decide +kernel
  obtain ⟨tokens, h⟩ := Option.isSome_iff_exists.1 hlex
  have h := eq_ok_of_toOption h
  obtain ⟨f, hf, hall⟩ := applyBatch_accounts "C.cs" h
  obtain ⟨o, rows, ho, -, -, happlied, hskipped, hperm, -⟩ := hall edits
  have hlength := hperm.length_eq
  rw [List.length_append, List.length_map] at hlength
  exact ⟨tokens, f, o, rows, h, hf, ho, happlied, hskipped, hlength⟩

end SourceFile

end PluginLint
