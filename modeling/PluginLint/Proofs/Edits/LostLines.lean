import PluginLint.Proofs.Edits.Asked
import PluginLint.Proofs.LineColumns
import PluginLint.Proofs.Trees.Positions

/-!
# Lines that go with the braces

Seen from the text an edit comes down to two strokes, one at each end of its span: braces are put in
on the line where they belong, or everything between a brace and the statement is taken away. What is
put in has no line feed. So a batch of edits leaves a byte that it spares on its line, unless line
feeds in front of it are taken away; and this happens exactly if a pair of braces that is removed has
its statement on a line of its own.
-/
namespace PluginLint

theorem total_eq_zero {α : Type} {measure : α → Nat} {as : List α} :
    total measure as = 0 ↔ ∀ a ∈ as, measure a = 0 := by
  induction as with
  | nil => simp
  | cons a as ih => simp [ih]

namespace Text

/-! ### Lines and places -/

/-- A place is on the line behind the line feeds in front of it. -/
theorem line_append (s t : List Char) :
    (lineCol (s ++ t) (byteLength s)).1 = s.count '\n' + 1 := by
  rw [lineCol_append]

/-- The number of line feeds in a span of a text. -/
def linesAcross (s : List Char) (span : Span) : Nat :=
  (lineCol s span.stop).1 - (lineCol s span.start).1

theorem linesAcross_append (before old after : List Char) :
    linesAcross (before ++ (old ++ after))
      ⟨byteLength before, byteLength before + byteLength old⟩ = old.count '\n' := by
  have hstop := line_append (before ++ old) after
  rw [List.append_assoc, byteLength_append, List.count_append] at hstop
  rw [linesAcross, hstop, line_append]
  omega

/-- Two beginnings of a text with as many bytes are the same. -/
theorem append_inj_of_byteLength {s t u v : List Char} (h : s ++ t = u ++ v)
    (hlength : byteLength s = byteLength u) : s = u ∧ t = v := by
  obtain ⟨c, rfl, rfl⟩ := exists_append_of_byteLength_le h (Nat.le_of_eq hlength)
  cases c with
  | nil => simp
  | cons x c =>
    have := x.utf8Size_pos
    rw [byteLength_append, byteLength_cons] at hlength
    omega

/-- The character at an offset. -/
def charAt? (s : List Char) (offset : Nat) : Option Char := (dropBytes? offset s).bind List.head?

theorem charAt?_append (s : List Char) (c : Char) (t : List Char) :
    charAt? (s ++ c :: t) (byteLength s) = some c := by
  rw [charAt?, dropBytes?_append]
  rfl

theorem exists_append_of_charAt? {s : List Char} {i : Nat} {c : Char} (h : charAt? s i = some c) :
    ∃ before after, s = before ++ c :: after ∧ byteLength before = i := by
  obtain ⟨rest, hrest, hhead⟩ := Option.bind_eq_some_iff.1 h
  obtain ⟨before, rfl, hlength⟩ := exists_append_of_dropBytes? hrest
  obtain ⟨tail, rfl⟩ := List.head?_eq_some_iff.1 hhead
  exact ⟨before, tail, rfl, hlength⟩

/-! ### What a splice does to a place -/

/-- No span has the byte. -/
def Spares (changes : List (Span × String)) (i : Nat) : Prop :=
  ∀ change ∈ changes, change.1.stop ≤ i ∨ i < change.1.start

/-- The changes in front of a byte. -/
def changesBefore (changes : List (Span × String)) (i : Nat) : List (Span × String) :=
  changes.filter fun change => change.1.stop ≤ i

/-- Where a byte is after the changes in front of it. -/
def movedTo (changes : List (Span × String)) (i : Nat) : Nat :=
  i + total (fun change => change.2.utf8ByteSize) (changesBefore changes i) -
    total (fun change => change.1.length) (changesBefore changes i)

/-- A splice of which the first span is replaced, and what is behind it. -/
theorem exists_of_spliceFrom?_cons {offset : Nat} {text text' : List Char} {span : Span}
    {new : String} {rest : List (Span × String)}
    (h : spliceFrom? offset text ((span, new) :: rest) = some text') :
    ∃ kept old behind changed, text = kept ++ (old ++ behind) ∧
      offset + byteLength kept = span.start ∧ span.start + byteLength old = span.stop ∧
      spliceFrom? span.stop behind rest = some changed ∧
      text' = kept ++ (new.toList ++ changed) := by
  rw [spliceFrom?] at h
  split at h
  · cases h
  · rename_i hspan
    simp only [Bool.or_eq_true, decide_eq_true_eq, not_or, Nat.not_lt] at hspan
    simp only [Option.bind_eq_bind, Option.bind_eq_some_iff, Option.pure_def,
      Option.some.injEq] at h
    obtain ⟨kept, hkept, behind, hbehind, changed, hchanged, rfl⟩ := h
    obtain ⟨rest', htext, hlength⟩ := exists_append_of_takeBytes? hkept
    obtain ⟨front, htext', hlength'⟩ := exists_append_of_dropBytes? hbehind
    obtain ⟨old, rfl, rfl⟩ := exists_append_of_byteLength_le (htext.symm.trans htext')
      (by omega)
    rw [byteLength_append] at hlength'
    exact ⟨kept, old, behind, changed, htext, by omega, by omega, hchanged, by simp⟩

/-- The spans of a splice come in order. -/
theorem le_of_spliceFrom? {offset : Nat} {text text' : List Char} {changes : List (Span × String)}
    (h : spliceFrom? offset text changes = some text') :
    ∀ change ∈ changes, offset ≤ change.1.start ∧ change.1.start ≤ change.1.stop := by
  induction changes generalizing offset text text' with
  | nil => simp
  | cons change rest ih =>
    obtain ⟨kept, old, behind, changed, -, hstart, hstop, hrest, -⟩ := exists_of_spliceFrom?_cons h
    rw [List.forall_mem_cons]
    refine ⟨⟨by omega, by omega⟩, fun other hother => ?_⟩
    have := ih hrest other hother
    omega

/-- A byte that is spared is still there, behind what the changes in front of it have made of the
text. -/
theorem exists_of_spares {offset : Nat} {text' : List Char} {changes : List (Span × String)}
    {before after : List Char} {c : Char}
    (h : spliceFrom? offset (before ++ c :: after) changes = some text')
    (hspared : Spares changes (offset + byteLength before)) :
    ∃ before' after', text' = before' ++ c :: after' ∧
      spliceFrom? offset before (changesBefore changes (offset + byteLength before)) =
        some before' := by
  induction changes generalizing offset before text' with
  | nil =>
    cases h
    exact ⟨before, after, rfl, rfl⟩
  | cons change rest ih =>
    obtain ⟨span, new⟩ := change
    obtain ⟨kept, old, behind, changed, htext, hstart, hstop, hrest, rfl⟩ :=
      exists_of_spliceFrom?_cons h
    rcases hspared _ List.mem_cons_self with hbefore | hafter
    · -- The span is in front of the byte.
      rw [← List.append_assoc] at htext
      obtain ⟨between, rfl, hbehind⟩ := exists_append_of_byteLength_le htext.symm
        (by rw [byteLength_append]; dsimp only at hbefore; omega)
      have hplace : offset + byteLength (kept ++ old ++ between) =
          span.stop + byteLength between := by
        rw [byteLength_append, byteLength_append]
        omega
      rw [hplace] at hspared hbefore ⊢
      rw [hbehind] at hrest
      obtain ⟨before', after', rfl, hfront⟩ := ih hrest fun other hother =>
        hspared other (List.mem_cons_of_mem _ hother)
      refine ⟨kept ++ (new.toList ++ before'), after', by simp, ?_⟩
      rw [changesBefore, List.filter_cons_of_pos (by simp), ← changesBefore,
        List.append_assoc]
      have hspan : span = .ofLength (offset + byteLength kept) (byteLength old) := by
        rw [hstart, Span.ofLength, hstop]
      rw [← hstop, ← hstart] at hfront
      have hthis := spliceFrom?_cons old new hfront
      rw [← hspan, hstart, hstop, ← hstart] at hthis
      exact spliceFrom?_append offset kept hthis
    · -- All spans are behind the byte.
      dsimp only at hafter
      have hnone : changesBefore ((span, new) :: rest) (offset + byteLength before) = [] := by
        rw [changesBefore, List.filter_eq_nil_iff]
        intro other hother
        have hle : span.start ≤ other.1.start ∧ other.1.start ≤ other.1.stop := by
          rcases List.mem_cons.1 hother with rfl | hother
          · exact ⟨Nat.le_refl _, by dsimp only; omega⟩
          · have := le_of_spliceFrom? hrest other hother
            omega
        simp only [decide_eq_true_eq]
        omega
      obtain ⟨between, rfl, hold⟩ := exists_append_of_byteLength_le htext (by omega)
      cases between with
      | nil =>
        rw [List.append_nil] at hstart
        omega
      | cons x between =>
        rw [List.cons_append, List.cons.injEq] at hold
        rw [hnone, ← hold.1]
        exact ⟨before, between ++ (new.toList ++ changed), by simp, rfl⟩

/-- The bytes of a splice. -/
theorem byteLength_spliceFrom? {offset : Nat} {text text' : List Char}
    {changes : List (Span × String)} (h : spliceFrom? offset text changes = some text') :
    byteLength text' + total (fun change => change.1.length) changes =
      byteLength text + total (fun change => change.2.utf8ByteSize) changes := by
  induction changes generalizing offset text text' with
  | nil =>
    cases h
    rfl
  | cons change rest ih =>
    obtain ⟨kept, old, behind, changed, rfl, hstart, hstop, hrest, rfl⟩ :=
      exists_of_spliceFrom?_cons h
    have hbytes := ih hrest
    have hlength : change.1.length = change.1.stop - change.1.start := rfl
    simp only [byteLength_append, total_cons, byteLength_toList]
    omega

/-- The line feeds of a splice whose new texts have none. -/
theorem count_spliceFrom? (front behind : List Char) {text text' : List Char}
    {changes : List (Span × String)}
    (h : spliceFrom? (byteLength front) text changes = some text')
    (hnew : ∀ change ∈ changes, change.2.toList.count '\n' = 0) :
    text'.count '\n' +
        total (fun change => linesAcross (front ++ (text ++ behind)) change.1) changes =
      text.count '\n' := by
  induction changes generalizing front text text' with
  | nil =>
    cases h
    rfl
  | cons change rest ih =>
    obtain ⟨span, new⟩ := change
    obtain ⟨kept, old, rest', changed, rfl, hstart, hstop, hrest, rfl⟩ :=
      exists_of_spliceFrom?_cons h
    rw [List.forall_mem_cons] at hnew
    have hfull : front ++ (kept ++ (old ++ rest') ++ behind) =
        (front ++ kept ++ old) ++ (rest' ++ behind) := by simp
    have hplace : span.stop = byteLength (front ++ kept ++ old) := by
      rw [byteLength_append, byteLength_append]
      omega
    rw [hplace] at hrest
    have hcount := ih (front ++ kept ++ old) hrest hnew.2
    have hspan : span = ⟨byteLength (front ++ kept),
        byteLength (front ++ kept) + byteLength old⟩ := by
      rw [byteLength_append, hstart, hstop]
    have hlines := linesAcross_append (front ++ kept) old (rest' ++ behind)
    rw [← hspan, ← List.append_assoc (front ++ kept)] at hlines
    have hzero : new.toList.count '\n' = 0 := hnew.1
    rw [hfull, total_cons, hlines]
    simp only [List.count_append] at hcount ⊢
    omega

end Text

namespace Batch

/-- A batch of edits that come in the order of their starts. -/
def inOrder (f : SourceFile) (edits : List Edit) : BatchOutcome :=
  let s := edits.foldl (Selection.add f) {}
  make s.accepted { file := f, applied := [], skipped := s.skipped.reverse }

theorem applyBatch_of_pairwise (f : SourceFile) {edits : List Edit}
    (h : edits.Pairwise fun a b => a.span.start ≤ b.span.start) :
    f.applyBatch edits false = .ok (inOrder f edits) := by
  have hordered : ordered edits = edits :=
    List.mergeSort_of_pairwise (h.imp fun hab => by simpa using hab)
  rw [SourceFile.applyBatch, if_neg (by simp), select, hordered, inOrder]

end Batch

/-- Edits that are made are noted on their lines in the file as it was. -/
theorem RepairedFile.apply_of_ne_nil {f : SourceFile} {edits : List Edit} {o : BatchOutcome}
    (ho : f.applyBatch edits false = .ok o) (hne : o.applied ≠ []) (changes : List LineChange) :
    apply ⟨f, changes⟩ edits =
      ⟨o.file, changes ++ o.applied.map fun e => ⟨(f.lineCol e.span.start).1, e.fix⟩⟩ := by
  have happly : apply ⟨f, changes⟩ edits = take ⟨f, changes⟩ o := apply_of_ok ho
  rw [happly, take, if_neg (by simpa using hne)]

namespace SourceFile

/-! ### Strokes -/

/-- What an edit does at the two ends of its span: what is put in or taken away there. -/
def strokes? (f : SourceFile) (edit : Edit) : Option (List (Span × String)) :=
  match edit.fix with
  | .addBraces =>
    some [(⟨edit.span.start, edit.span.start⟩, "\x7b "), (⟨edit.span.stop, edit.span.stop⟩, " \x7d")]
  | .removeBraces => do
    let block ← f.root.findNode? edit.span edit.fix.accepts
    let statement ← block.singleStatement?
    return [(⟨edit.span.start, statement.span.start⟩, ""), (⟨statement.span.stop, edit.span.stop⟩, "")]

/-- The strokes of several edits, in order. -/
def strokesOf? (f : SourceFile) (edits : List Edit) : Option (List (Span × String)) :=
  (edits.mapM f.strokes?).map List.flatten

/-- The number of lines that strokes take away. -/
def linesLost (f : SourceFile) (strokes : List (Span × String)) : Nat :=
  total (fun stroke => Text.linesAcross f.text.toList stroke.1) strokes

/-- The number of lines that an edit takes away. -/
def linesLostBy (f : SourceFile) (edit : Edit) : Nat := (f.strokes? edit).elim 0 f.linesLost

theorem strokesOf?_cons {f : SourceFile} {edit : Edit} {edits : List Edit}
    {strokes rest : List (Span × String)} (h : f.strokes? edit = some strokes)
    (hrest : f.strokesOf? edits = some rest) :
    f.strokesOf? (edit :: edits) = some (strokes ++ rest) := by
  obtain ⟨lists, hlists, rfl⟩ := Option.map_eq_some_iff.1 hrest
  rw [strokesOf?, List.mapM_cons, h]
  simp [hlists]

theorem exists_of_strokesOf?_cons {f : SourceFile} {edit : Edit} {edits : List Edit}
    {strokes : List (Span × String)} (h : f.strokesOf? (edit :: edits) = some strokes) :
    ∃ first rest, f.strokes? edit = some first ∧ f.strokesOf? edits = some rest ∧
      strokes = first ++ rest := by
  obtain ⟨lists, hlists, rfl⟩ := Option.map_eq_some_iff.1 h
  rw [List.mapM_cons] at hlists
  simp only [Option.bind_eq_bind, Option.bind_eq_some_iff, Option.pure_def,
    Option.some.injEq] at hlists
  obtain ⟨first, hfirst, rest, hrest, rfl⟩ := hlists
  exact ⟨first, rest.flatten, hfirst, by rw [strokesOf?, hrest]; rfl, by simp⟩

/-- The lines that are lost with the strokes of some edits are those that the edits take away. -/
theorem linesLost_of_strokesOf? {f : SourceFile} {edits : List Edit}
    {strokes : List (Span × String)} (h : f.strokesOf? edits = some strokes) :
    f.linesLost strokes = total f.linesLostBy edits := by
  induction edits generalizing strokes with
  | nil =>
    cases h
    rfl
  | cons edit edits ih =>
    obtain ⟨first, rest, hfirst, hrest, rfl⟩ := exists_of_strokesOf?_cons h
    rw [total_cons, ← ih hrest, linesLostBy, hfirst]
    simp [linesLost]

theorem Stands.of_descendant {f : SourceFile} {n s : Node} {pre post : List Token}
    (h : f.Stands n pre post) (hs : s ∈ n.descendants) : ∃ pre post, f.Stands s pre post := by
  obtain ⟨q, inPre, inPost, hpath, hholds, hstart⟩ := Node.holds_of_mem_nodesOf hs
  refine ⟨_, _, hpath ▸ h.holds.trans hholds, ?_⟩
  rw [hstart, h.start, Token.widthAll_append]

/-- The text of a node inside another one. -/
theorem Stands.text_split {f : SourceFile} {n s : Node} {pre post : List Token}
    (h : f.Stands n pre post) (hs : s ∈ n.descendants) (hn : n.tree.Solid) (hsolid : s.tree.Solid) :
    ∃ front back, n.text.toList = front ++ (s.text.toList ++ back) ∧
      s.span.start = n.span.start + Text.byteLength front ∧
      s.span.stop = s.span.start + Text.byteLength s.text.toList ∧
      n.span.stop = s.span.stop + Text.byteLength back := by
  obtain ⟨inPre, inPost, hstands⟩ := h.of_descendant hs
  obtain ⟨before, after, htext, hspan, -⟩ := h.text_eq hn.text_pos
  obtain ⟨before', after', htext', hspan', -⟩ := hstands.text_eq hsolid.text_pos
  have hbounds := Node.span_of_mem_descendants hs hsolid
  rw [hspan, hspan'] at hbounds ⊢
  simp only [Span.ofLength] at hbounds ⊢
  obtain ⟨front, rfl, hrest⟩ :=
    Text.exists_append_of_byteLength_le (htext.symm.trans htext') hbounds.1
  rw [← List.append_assoc] at hrest
  obtain ⟨back, hnode, -⟩ := Text.exists_append_of_byteLength_le hrest.symm (by
    rw [Text.byteLength_append] at hbounds ⊢
    omega)
  refine ⟨front, back, by rw [hnode, List.append_assoc], ?_, trivial, ?_⟩
  · rw [Text.byteLength_append]
  · rw [hnode]
    simp only [Text.byteLength_append]
    omega

/-- An edit comes down to its strokes, which put in no line feed. -/
theorem exists_strokes {f : SourceFile} {edit : Edit} {n : Node} {new : Tree}
    (hn : f.locate edit = .ok n) (hsolid : n.tree.Solid)
    (hnew : replacement edit.fix n = .ok new) :
    ∃ front kept back, ∃ opening closing : String,
      n.text.toList = front ++ (kept ++ back) ∧
      new.text.toList = opening.toList ++ (kept ++ closing.toList) ∧
      opening.toList.count '\n' = 0 ∧ closing.toList.count '\n' = 0 ∧
      f.strokes? edit = some
        [(.ofLength edit.span.start (Text.byteLength front), opening),
          (.ofLength (edit.span.start + Text.byteLength front + Text.byteLength kept)
            (Text.byteLength back), closing)] := by
  obtain ⟨hspan, -, pre, post, hstands⟩ := stands_of_locate hn
  unfold strokes?
  cases hfix : edit.fix with
  | addBraces =>
    rw [hfix] at hnew
    cases hnew
    obtain ⟨before, after, -, hplace, -⟩ := hstands.text_eq hsolid.text_pos
    refine ⟨[], n.text.toList, [], "\x7b ", " \x7d", by simp, ?_, by decide, by decide, ?_⟩
    · rw [Node.text_wrapped]
      simp
    · rw [← hspan, hplace]
      simp [Span.ofLength]
  | removeBraces =>
    rw [hfix] at hnew
    have hfound := locate_eq_ok.1 hn
    rw [hfix] at hfound
    obtain ⟨s, hs, -, rfl⟩ := Node.unwrapped_cases hnew
    obtain ⟨-, hc, -⟩ := Node.childNodes_of_singleStatement? hs
    have hchild : s ∈ n.childNodes := by simp [hc]
    have hbelow : s ∈ n.descendants := Node.mem_descendants_of_child hchild s.mem_descendants_self
    have hstatement : s.tree.Solid := hsolid.of_mem (Node.tree_of_mem_childNodes hchild)
    obtain ⟨front, back, htext, hstart, hstop, hend⟩ := hstands.text_split hbelow hsolid hstatement
    refine ⟨front, s.text.toList, back, "", "", htext, ?_, rfl, rfl, ?_⟩
    · rw [Node.text_withOuterTrivia]
      simp [Node.text]
    · rw [← hspan]
      simp only [hfound, hs, Option.bind_eq_bind, Option.bind_some, Option.pure_def, hspan]
      rw [← hspan]
      simp only [Span.ofLength, hstart, hstop, hend]

/-- The edits can be made in the file, each at a node with a text. -/
def Ready (f : SourceFile) (edits : List Edit) : Prop :=
  ∀ edit ∈ edits, ∃ n new, f.locate edit = .ok n ∧ n.tree.Solid ∧ replacement edit.fix n = .ok new

/-- The splice of some edits is the splice of their strokes. -/
theorem Ready.splice_strokes {f : SourceFile} {edits : List Edit} (hready : f.Ready edits)
    (front : List Char) {text text' : List Char} (htext : f.text.toList = front ++ text)
    {changes : List (Span × String)} (hchanges : edits.mapM f.changeOf? = some changes)
    (h : Text.spliceFrom? (Text.byteLength front) text changes = some text') :
    ∃ strokes, f.strokesOf? edits = some strokes ∧
      (∀ stroke ∈ strokes, stroke.2.toList.count '\n' = 0) ∧
      Text.spliceFrom? (Text.byteLength front) text strokes = some text' := by
  induction edits generalizing front text text' changes with
  | nil =>
    cases hchanges
    exact ⟨[], rfl, by simp, h⟩
  | cons edit edits ih =>
    obtain ⟨n, new, hn, hsolid, hnew⟩ := hready edit List.mem_cons_self
    obtain ⟨cut, inner, cut', opening, closing, hold, hnewText, hopening, hclosing, hstrokes⟩ :=
      exists_strokes hn hsolid hnew
    obtain ⟨hspan, -, pre, post, hstands⟩ := stands_of_locate hn
    obtain ⟨before, after, hsource, hplace, -⟩ := hstands.text_eq hsolid.text_pos
    rw [hspan] at hplace
    have hchange := Batch.changeOf?_eq hn hnew hsource hplace
    simp only [List.mapM_cons, hchange, Option.bind_eq_bind, Option.bind_some, Option.pure_def,
      Option.bind_eq_some_iff, Option.some.injEq] at hchanges
    obtain ⟨changes, hrestChanges, rfl⟩ := hchanges
    obtain ⟨kept, old, behind, changed, rfl, hstart, hstop, hrest, rfl⟩ :=
      Text.exists_of_spliceFrom?_cons h
    -- What is replaced is the text of the node.
    obtain ⟨rfl, hbehind⟩ : before = front ++ kept ∧ n.text.toList ++ after = old ++ behind := by
      refine Text.append_inj_of_byteLength (hsource.symm.trans ?_) ?_
      · rw [htext, List.append_assoc]
      · rw [Text.byteLength_append, hstart, hplace]
        rfl
    obtain ⟨rfl, -⟩ : n.text.toList = old ∧ after = behind := by
      refine Text.append_inj_of_byteLength hbehind ?_
      rw [hplace] at hstop
      simp only [Span.ofLength] at hstop
      omega
    have hfront : edit.span.stop = Text.byteLength (front ++ kept ++ n.text.toList) := by
      rw [Text.byteLength_append, Text.byteLength_append]
      omega
    rw [hfront] at hrest
    obtain ⟨strokes, hstrokes', hzero, hspliced⟩ :=
      ih (fun e he => hready e (List.mem_cons_of_mem _ he)) _ (by rw [htext]; simp) hrestChanges hrest
    refine ⟨_, strokesOf?_cons hstrokes hstrokes', ?_, ?_⟩
    · rw [List.forall_mem_append, List.forall_mem_cons, List.forall_mem_singleton]
      exact ⟨⟨hopening, hclosing⟩, hzero⟩
    · rw [hold, hnewText, ← hstart]
      simp only [List.append_assoc, List.cons_append, List.nil_append]
      refine Text.spliceFrom?_append _ kept (Text.spliceFrom?_cons cut opening ?_)
      refine Text.spliceFrom?_append _ inner (Text.spliceFrom?_cons cut' closing ?_)
      have hoffset : Text.byteLength front + Text.byteLength kept + Text.byteLength cut +
          Text.byteLength inner + Text.byteLength cut' =
          Text.byteLength (front ++ kept ++ n.text.toList) := by
        rw [hold]
        simp only [Text.byteLength_append]
        omega
      rw [hoffset]
      exact hspliced

theorem Parsed.ready_applied {tokens : List Token} {f : SourceFile} (hf : Parsed tokens f)
    (edits : List Edit) : f.Ready ((Batch.select f edits).accepted.map Prod.fst).reverse := by
  intro edit hedit
  obtain ⟨⟨_, new⟩, hmem, rfl⟩ := List.mem_map.1 (List.mem_reverse.1 hedit)
  obtain ⟨n, hn, hnew⟩ := (Batch.valid_select hf edits).ready _ hmem
  obtain ⟨-, haccepts, pre, post, hstands⟩ := stands_of_locate hn
  exact ⟨n, new, hn, hf.solid hstands (Fix.kind_ne_of_accepts haccepts), hnew⟩

/-- A batch of edits comes down to strokes that put in no line feed. -/
theorem Whole.exists_strokes {f : SourceFile} (hf : f.Whole) (edits : List Edit) :
    ∃ o strokes, f.applyBatch edits false = .ok o ∧ f.strokesOf? o.applied = some strokes ∧
      (∀ stroke ∈ strokes, stroke.2.toList.count '\n' = 0) ∧
      Text.spliceFrom? 0 f.text.toList strokes = some o.file.text.toList := by
  obtain ⟨tokens, hparsed⟩ := hf
  obtain ⟨happlied, -, hspliced⟩ :=
    (Batch.midway_select hparsed edits (Batch.select f edits).skipped.reverse).make hparsed
  obtain ⟨changes, hchanges, htext⟩ := Option.bind_eq_some_iff.1 hspliced
  obtain ⟨text, hsplice, htext⟩ := Option.map_eq_some_iff.1 htext
  rw [List.append_nil] at happlied
  have hready := hparsed.ready_applied edits
  rw [← happlied] at hready
  obtain ⟨strokes, hstrokes, hzero, hsplice⟩ := hready.splice_strokes []
    (List.nil_append _).symm hchanges hsplice
  refine ⟨_, strokes, rfl, hstrokes, hzero, ?_⟩
  rw [← htext, String.toList_ofList]
  exact hsplice

/-- What a batch of edits does to the lines of a file: it takes away those that its strokes take
away, and a byte that it spares moves up by as many as are in front of it. -/
theorem Whole.lines_applyBatch {f : SourceFile} (hf : f.Whole) (edits : List Edit) :
    ∃ o strokes, f.applyBatch edits false = .ok o ∧ f.strokesOf? o.applied = some strokes ∧
      Text.lineCount o.file.text.toList + f.linesLost strokes = Text.lineCount f.text.toList ∧
      ∀ i c, Text.charAt? f.text.toList i = some c → Text.Spares strokes i →
        Text.charAt? o.file.text.toList (Text.movedTo strokes i) = some c ∧
        (o.file.lineCol (Text.movedTo strokes i)).1 + f.linesLost (Text.changesBefore strokes i) =
          (f.lineCol i).1 := by
  obtain ⟨o, strokes, ho, hstrokes, hzero, hsplice⟩ := hf.exists_strokes edits
  refine ⟨o, strokes, ho, hstrokes, ?_, fun i c hc hspared => ?_⟩
  · have hcount := Text.count_spliceFrom? [] [] hsplice hzero
    simp only [List.nil_append, List.append_nil] at hcount
    simp only [Text.lineCount, linesLost]
    omega
  · obtain ⟨before, after, htext, rfl⟩ := Text.exists_append_of_charAt? hc
    rw [htext] at hsplice
    obtain ⟨before', after', htext', hfront⟩ :=
      Text.exists_of_spares hsplice (by simpa using hspared)
    rw [Nat.zero_add] at hfront
    have hbytes := Text.byteLength_spliceFrom? hfront
    have hmoved : Text.movedTo strokes (Text.byteLength before) = Text.byteLength before' := by
      rw [Text.movedTo]
      omega
    have hlines := Text.count_spliceFrom? [] (c :: after) hfront fun stroke hstroke =>
      hzero stroke (List.mem_of_mem_filter hstroke)
    rw [List.nil_append, ← htext] at hlines
    rw [hmoved, lineCol, lineCol, htext', linesLost]
    refine ⟨Text.charAt?_append before' c after', ?_⟩
    have hold := Text.line_append before (c :: after)
    rw [← htext] at hold
    rw [Text.line_append, hold]
    omega

/-! ### One batch after the other -/

/-- A file after some batches of edits. -/
inductive Rounds (f : SourceFile) : SourceFile → Prop
  | start : Rounds f f
  | batch {g : SourceFile} {edits : List Edit} {o : BatchOutcome} (h : Rounds f g)
    (ho : g.applyBatch edits false = .ok o) : Rounds f o.file

theorem Rounds.whole {f g : SourceFile} (h : Rounds f g) (hf : f.Whole) : g.Whole := by
  induction h with
  | start => exact hf
  | @batch g edits o _ ho ih =>
    obtain ⟨o', ho', hwhole, -⟩ := ih.applyBatch edits
    obtain rfl : o = o' := Except.ok.inj (ho.symm.trans ho')
    exact hwhole

/-- The byte `i` of a file is the byte `j` after some batches that spare it, and `lost` lines in front
of it are gone. -/
inductive Followed (f : SourceFile) (i : Nat) : SourceFile → Nat → Nat → Prop
  | start : Followed f i f i 0
  | batch {g : SourceFile} {j lost : Nat} {edits : List Edit} {o : BatchOutcome}
    {strokes : List (Span × String)} (h : Followed f i g j lost)
    (ho : g.applyBatch edits false = .ok o) (hstrokes : g.strokesOf? o.applied = some strokes)
    (hspared : Text.Spares strokes j) :
    Followed f i o.file (Text.movedTo strokes j)
      (lost + g.linesLost (Text.changesBefore strokes j))

theorem Followed.rounds {f g : SourceFile} {i j lost : Nat} (h : Followed f i g j lost) :
    Rounds f g := by
  induction h with
  | start => exact .start
  | batch _ ho _ _ ih => exact .batch ih ho

/-- A byte that is followed through some batches is as many lines further up as are lost. -/
theorem Followed.line_eq {f g : SourceFile} {i j lost : Nat} (h : Followed f i g j lost)
    (hf : f.Whole) {c : Char} (hc : Text.charAt? f.text.toList i = some c) :
    Text.charAt? g.text.toList j = some c ∧ (g.lineCol j).1 + lost = (f.lineCol i).1 := by
  induction h with
  | start => exact ⟨hc, rfl⟩
  | @batch g j lost edits o strokes hg ho hstrokes hspared ih =>
    obtain ⟨o', strokes', ho', hstrokes', -, hplaces⟩ :=
      (hg.rounds.whole hf).lines_applyBatch edits
    obtain rfl : o = o' := Except.ok.inj (ho.symm.trans ho')
    obtain rfl : strokes = strokes' := Option.some.inj (hstrokes.symm.trans hstrokes')
    obtain ⟨hchar, hline⟩ := hplaces j c ih.1 hspared
    refine ⟨hchar, ?_⟩
    have := ih.2
    omega

/-- The number of lines stays the same, and so does the line of every byte that is spared. -/
def KeepsLines (f : SourceFile) (o : BatchOutcome) (strokes : List (Span × String)) : Prop :=
  Text.lineCount o.file.text.toList = Text.lineCount f.text.toList ∧
    ∀ i c, Text.charAt? f.text.toList i = some c → Text.Spares strokes i →
      (o.file.lineCol (Text.movedTo strokes i)).1 = (f.lineCol i).1

theorem Whole.keepsLines_iff {f : SourceFile} (hf : f.Whole) {edits : List Edit} {o : BatchOutcome}
    {strokes : List (Span × String)} (ho : f.applyBatch edits false = .ok o)
    (hstrokes : f.strokesOf? o.applied = some strokes) :
    f.KeepsLines o strokes ↔ ∀ edit ∈ o.applied, f.linesLostBy edit = 0 := by
  obtain ⟨o', strokes', ho', hstrokes', hcount, hplaces⟩ := hf.lines_applyBatch edits
  obtain rfl : o = o' := Except.ok.inj (ho.symm.trans ho')
  obtain rfl : strokes = strokes' := Option.some.inj (hstrokes.symm.trans hstrokes')
  have hlost := linesLost_of_strokesOf? hstrokes
  constructor
  · rintro ⟨hsame, -⟩
    exact total_eq_zero.1 (by omega)
  · intro hnone
    have hzero : f.linesLost strokes = 0 := by rw [hlost, total_eq_zero.2 hnone]
    refine ⟨by omega, fun i c hc hspared => ?_⟩
    have hfront : f.linesLost (Text.changesBefore strokes i) = 0 :=
      total_eq_zero.2 fun stroke hstroke =>
        total_eq_zero.1 hzero stroke (List.mem_of_mem_filter hstroke)
    have := (hplaces i c hc hspared).2
    omega

/-- In every file that comes of a parsed one by batches of edits, a byte that all of them have spared
is on its old line but for the lines lost in front of it; and one more batch keeps all lines exactly
if none of the edits made takes away a line between a brace and its statement. -/
theorem applyBatch_keeps_lines_iff {path source : String} {f g : SourceFile}
    (hf : parse path source = .ok f) (hg : Rounds f g) :
    (∀ i c j lost, Text.charAt? f.text.toList i = some c → Followed f i g j lost →
      Text.charAt? g.text.toList j = some c ∧ (g.lineCol j).1 + lost = (f.lineCol i).1) ∧
    ∀ edits, ∃ o strokes, g.applyBatch edits false = .ok o ∧
      g.strokesOf? o.applied = some strokes ∧
      Text.splice? g.text strokes = some o.file.text ∧
      Text.lineCount o.file.text.toList + total g.linesLostBy o.applied =
        Text.lineCount g.text.toList ∧
      (g.KeepsLines o strokes ↔ ∀ edit ∈ o.applied, g.linesLostBy edit = 0) := by
  have hwhole := whole_of_parse hf
  have hgwhole := hg.whole hwhole
  refine ⟨fun i c j lost hc hfollowed => hfollowed.line_eq hwhole hc, fun edits => ?_⟩
  obtain ⟨o, strokes, ho, hstrokes, -, hsplice⟩ := hgwhole.exists_strokes edits
  obtain ⟨o', strokes', ho', hstrokes', hcount, -⟩ := hgwhole.lines_applyBatch edits
  obtain rfl : o = o' := Except.ok.inj (ho.symm.trans ho')
  obtain rfl : strokes = strokes' := Option.some.inj (hstrokes.symm.trans hstrokes')
  refine ⟨o, strokes, ho, hstrokes, ?_, ?_, hgwhole.keepsLines_iff ho hstrokes⟩
  · rw [Text.splice?, hsplice, Option.map_some, String.ofList_toList]
  · rw [← linesLost_of_strokesOf? hstrokes]
    exact hcount

/-- Braces on one line are removed and others put in, and the second line stays where it is. -/
theorem applyBatch_keeps_lines_iff_short :
    ∃ f o, parse "C.cs" "class C\x7bvoid M()\x7bif(a)\x7breturn;\x7d\nif(b)c();\x7d\x7d" = .ok f ∧
      f.applyBatch f.asked false = .ok o ∧ o.applied.length = 2 ∧
      o.file.text = "class C\x7bvoid M()\x7bif(a)return;\nif(b)\x7b c(); \x7d\x7d\x7d" ∧
      ∃ strokes, f.strokesOf? o.applied = some strokes ∧ f.KeepsLines o strokes := by
  have hseen : (parse "C.cs"
      "class C\x7bvoid M()\x7bif(a)\x7breturn;\x7d\nif(b)c();\x7d\x7d").toOption.map (fun f =>
        (f.asked, (Batch.inOrder f f.asked).applied, (Batch.inOrder f f.asked).file.text,
          f.asked.map f.linesLostBy)) =
      some ([⟨⟨22, 31⟩, .removeBraces⟩, ⟨⟨37, 41⟩, .addBraces⟩],
        [⟨⟨22, 31⟩, .removeBraces⟩, ⟨⟨37, 41⟩, .addBraces⟩],
        "class C\x7bvoid M()\x7bif(a)return;\nif(b)\x7b c(); \x7d\x7d\x7d", [0, 0]) := by
    rw [parse_ofList]
    decide +kernel
  obtain ⟨f, hf, hseen⟩ := Option.map_eq_some_iff.1 hseen
  have hf := eq_ok_of_toOption hf
  simp only [Prod.mk.injEq] at hseen
  obtain ⟨hasked, happlied, htext, hlost⟩ := hseen
  have ho := Batch.applyBatch_of_pairwise f (show f.asked.Pairwise _ by rw [hasked]; decide)
  obtain ⟨-, hall⟩ := applyBatch_keeps_lines_iff hf .start
  obtain ⟨o, strokes, ho', hstrokes, -, -, hiff⟩ := hall f.asked
  obtain rfl := Except.ok.inj (ho.symm.trans ho')
  refine ⟨f, _, hf, ho, by rw [happlied]; rfl, htext, strokes, hstrokes, hiff.2 ?_⟩
  rw [happlied, ← hasked]
  intro edit hedit
  have hmem : f.linesLostBy edit ∈ f.asked.map f.linesLostBy := List.mem_map_of_mem hedit
  simpa [hlost] using hmem

/-- A pair of braces over three lines is removed: two lines are gone, what stands behind moves up, and
the edit of the next batch is noted on the second line, while its statement was on the fourth. -/
theorem applyBatch_moves_lines :
    ∃ f o o', parse "C.cs"
        "class C\x7bvoid M()\x7bif(a)\x7b\n  return;\n\x7d\nif(b)if(c)d();\x7d\x7d" = .ok f ∧
      f.errors = [] ∧ f.applyBatch f.asked false = .ok o ∧
      o.file.applyBatch o.file.asked false = .ok o' ∧
      Text.lineCount f.text.toList = 4 ∧ Text.lineCount o.file.text.toList = 2 ∧
      (∀ edit ∈ o.applied, edit.span.stop ≤ 36 ∨ 36 < edit.span.start) ∧
      Text.charAt? f.text.toList 36 = some 'i' ∧ (f.lineCol 36).1 = 4 ∧
      Text.charAt? o.file.text.toList 30 = some 'i' ∧ (o.file.lineCol 30).1 = 2 ∧
      (({ file := f : RepairedFile }.apply f.asked).apply o.file.asked).changes =
        [⟨1, .removeBraces⟩, ⟨4, .addBraces⟩, ⟨2, .addBraces⟩] ∧
      Text.slice? f.text 46 50 = some "d();" ∧ (f.lineCol 46).1 = 4 := by
  have hseen : (parse "C.cs"
      "class C\x7bvoid M()\x7bif(a)\x7b\n  return;\n\x7d\nif(b)if(c)d();\x7d\x7d").toOption.map
        (fun f =>
          let o := Batch.inOrder f f.asked
          let o' := Batch.inOrder o.file o.file.asked
          (f.asked, o.file.asked, o.applied, o'.applied, f.errors.isEmpty)) =
      some ([⟨⟨22, 35⟩, .removeBraces⟩, ⟨⟨41, 50⟩, .addBraces⟩, ⟨⟨46, 50⟩, .addBraces⟩],
        [⟨⟨42, 46⟩, .addBraces⟩], [⟨⟨22, 35⟩, .removeBraces⟩, ⟨⟨41, 50⟩, .addBraces⟩],
        [⟨⟨42, 46⟩, .addBraces⟩], true) := by
    rw [parse_ofList]
    decide +kernel
  have hread : (parse "C.cs"
      "class C\x7bvoid M()\x7bif(a)\x7b\n  return;\n\x7d\nif(b)if(c)d();\x7d\x7d").toOption.map
        (fun f => (f.text, (Batch.inOrder f f.asked).file.text)) =
      some ("class C\x7bvoid M()\x7bif(a)\x7b\n  return;\n\x7d\nif(b)if(c)d();\x7d\x7d",
        "class C\x7bvoid M()\x7bif(a)return;\nif(b)\x7b if(c)d(); \x7d\x7d\x7d") := by
    rw [parse_ofList]
    decide +kernel
  obtain ⟨f, hf, hseen⟩ := Option.map_eq_some_iff.1 hseen
  simp only [hf, Option.map_some, Option.some.injEq, Prod.mk.injEq, List.isEmpty_iff] at hseen hread
  obtain ⟨hasked, hasked', happlied, happlied', herrors⟩ := hseen
  obtain ⟨htext, htext'⟩ := hread
  have ho := Batch.applyBatch_of_pairwise f (show f.asked.Pairwise _ by rw [hasked]; decide)
  generalize Batch.inOrder f f.asked = o at *
  have ho' := Batch.applyBatch_of_pairwise o.file
    (show o.file.asked.Pairwise _ by rw [hasked']; decide)
  generalize Batch.inOrder o.file o.file.asked = o' at *
  have hfirst := RepairedFile.apply_of_ne_nil ho (by rw [happlied]; decide)
  have hsecond := RepairedFile.apply_of_ne_nil ho' (by rw [happlied']; decide)
  refine ⟨f, o, o', eq_ok_of_toOption hf, herrors, ho, ho', ?_⟩
  rw [hfirst, hsecond]
  simp only [happlied, happlied', lineCol, htext, htext']
  decide +kernel

end SourceFile

end PluginLint
