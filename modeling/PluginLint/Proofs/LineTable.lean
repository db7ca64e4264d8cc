import Mathlib.Data.List.Induction
import PluginLint.Proofs.LineColumns
import PluginLint.Proofs.Trees.Positions

/-!
# Lines looked up in a table

A table of the places where the lines start is made once for a text. The line of an offset is then
found by halving the table, and the column by cutting the text from the start of the line. It gives
what the walk gives, so both are exact.
-/
namespace PluginLint.Text

open Lexer.ByOffset (Boundary)

/-! ### Halving -/

/-- Looks for an offset in a table between two places: the place where it stands, or else the place
where it would go. -/
def bisect (starts : Array Nat) (offset low high : Nat) : Except Nat Nat :=
  if low < high then
    let middle := low + (high - low) / 2
    let start := starts.getD middle 0
    if start = offset then .ok middle
    else if start < offset then bisect starts offset (middle + 1) high
    else bisect starts offset low middle
  else .error low
termination_by high - low

section

variable {starts : Array Nat} {offset low high n : Nat}

/-- An offset that stands in the table is found. -/
theorem bisect_eq_ok (hlow : low ≤ n) (hhigh : n < high)
    (hbefore : ∀ i, low ≤ i → i < n → starts.getD i 0 < offset) (hat : starts.getD n 0 = offset)
    (hafter : ∀ i, n < i → i < high → offset < starts.getD i 0) :
    bisect starts offset low high = .ok n := by
  -- The place `n` stays in the half that is kept, so nothing is asked of the table outside it.
  induction low, high using bisect.induct starts offset with
  | case1 low high hlt middle start hstart =>
    rw [bisect, if_pos hlt, if_pos hstart]
    rcases Nat.lt_trichotomy middle n with h | h | h
    · exact absurd hstart (hbefore middle (by omega) h).ne
    · exact congrArg Except.ok h
    · exact absurd hstart (hafter middle h (by omega)).ne'
  | case2 low high hlt middle start hother hless ih =>
    rw [bisect, if_pos hlt, if_neg hother, if_pos hless]
    have hn : middle < n := by
      rcases Nat.lt_trichotomy middle n with h | h | h
      · exact h
      · exact absurd ((congrArg (starts.getD · 0) h).trans hat) hother
      · exact absurd hless (hafter middle h (by omega)).not_gt
    exact ih hn hhigh (fun i hi => hbefore i (by omega)) hafter
  | case3 low high hlt middle start hother hless ih =>
    rw [bisect, if_pos hlt, if_neg hother, if_neg hless]
    have hn : n < middle := by
      rcases Nat.lt_trichotomy middle n with h | h | h
      · exact absurd (hbefore middle (by omega) h) hless
      · exact absurd ((congrArg (starts.getD · 0) h).trans hat) hother
      · exact h
    exact ih hlow hn hbefore (fun i hi h => hafter i hi (by omega))
  | case4 low high hle => omega

/-- An offset that does not stand in the table would go behind those that are less. -/
theorem bisect_eq_error (hlow : low ≤ n) (hhigh : n ≤ high)
    (hbefore : ∀ i, low ≤ i → i < n → starts.getD i 0 < offset)
    (hafter : ∀ i, n ≤ i → i < high → offset < starts.getD i 0) :
    bisect starts offset low high = .error n := by
  induction low, high using bisect.induct starts offset with
  | case1 low high hlt middle start hstart =>
    rcases Nat.lt_or_ge middle n with h | h
    · exact absurd hstart (hbefore middle (by omega) h).ne
    · exact absurd hstart (hafter middle h (by omega)).ne'
  | case2 low high hlt middle start hother hless ih =>
    rw [bisect, if_pos hlt, if_neg hother, if_pos hless]
    have hn : middle < n := Nat.lt_of_not_le fun h =>
      absurd hless (hafter middle h (by omega)).not_gt
    exact ih hn hhigh (fun i hi => hbefore i (by omega)) hafter
  | case3 low high hlt middle start hother hless ih =>
    rw [bisect, if_pos hlt, if_neg hother, if_neg hless]
    have hn : n ≤ middle := Nat.le_of_not_lt fun h => hless (hbefore middle (by omega) h)
    exact ih hlow hn hbefore (fun i hi h => hafter i hi (by omega))
  | case4 low high hle =>
    rw [bisect, if_neg hle, show low = n by omega]

end

/-! ### Whole lines -/

section

variable {α : Type} {feed : α} {s : List α}

/-- Nothing, or lines with a line feed at the end of each. -/
def WholeLines (feed : α) (s : List α) : Prop := s = [] ∨ ∃ s', s = s' ++ [feed]

/-- A text is cut behind its last line feed. -/
theorem exists_wholeLines [DecidableEq α] (feed : α) (s : List α) :
    ∃ lines rest, s = lines ++ rest ∧ WholeLines feed lines ∧ feed ∉ rest := by
  induction s using List.reverseRecOn with
  | nil => exact ⟨[], [], rfl, .inl rfl, by simp⟩
  | append_singleton s x ih =>
    by_cases hx : feed = x
    · exact ⟨s ++ [x], [], by simp, .inr ⟨s, by rw [hx]⟩, by simp⟩
    · obtain ⟨lines, rest, rfl, hlines, hrest⟩ := ih
      exact ⟨lines, rest ++ [x], by simp, hlines, by simp [hrest, hx]⟩

theorem WholeLines.lastLineLength_eq [DecidableEq α] (h : WholeLines feed s) :
    lastLineLength feed s = 0 := by
  rcases h with rfl | ⟨s, rfl⟩
  · rfl
  · exact lastLineLength_append_feed

end

theorem WholeLines.bytes {s : List Char} (h : WholeLines '\n' s) : WholeLines 10 (bytes s) := by
  rcases h with rfl | ⟨s, rfl⟩
  · exact .inl rfl
  · exact .inr ⟨Text.bytes s, by simp [utf8EncodeChar_lineFeed]⟩

theorem lineFeed_notMem_bytes {s : List Char} (hs : '\n' ∉ s) : 10 ∉ bytes s := by
  rw [← List.count_eq_zero, count_bytes, List.count_eq_zero.2 hs]

/-! ### The table -/

/-- The places behind the line feeds of a text that starts at an offset. -/
def feedsFrom (offset : Nat) (bs : List UInt8) : List Nat :=
  ((bs.zipIdx offset).filter (·.1 = 10)).map (·.2 + 1)

theorem feedsFrom_append (offset : Nat) (a b : List UInt8) :
    feedsFrom offset (a ++ b) = feedsFrom offset a ++ feedsFrom (offset + a.length) b := by
  simp [feedsFrom, List.zipIdx_append]

theorem length_feedsFrom (offset : Nat) (bs : List UInt8) :
    (feedsFrom offset bs).length = bs.count 10 := by
  induction bs generalizing offset with
  | nil => rfl
  | cons b bs ih =>
    have hrest := ih (offset + 1)
    simp only [feedsFrom, List.length_map] at hrest
    simp only [feedsFrom, List.zipIdx_cons, List.filter_cons, List.count_cons, beq_iff_eq,
      decide_eq_true_eq, List.length_map]
    split <;> simp [hrest]

theorem feedsFrom_eq_nil (offset : Nat) {bs : List UInt8} (h : 10 ∉ bs) :
    feedsFrom offset bs = [] := by
  rw [← List.length_eq_zero_iff, length_feedsFrom, List.count_eq_zero.2 h]

theorem bounds_of_mem_feedsFrom {offset x : Nat} {bs : List UInt8} (h : x ∈ feedsFrom offset bs) :
    offset < x ∧ x ≤ offset + bs.length := by
  simp only [feedsFrom, List.mem_map, List.mem_filter] at h
  obtain ⟨p, ⟨hp, -⟩, rfl⟩ := h
  have := List.le_snd_of_mem_zipIdx hp
  have := List.snd_lt_add_of_mem_zipIdx hp
  omega

/-- Where the lines of a text start. -/
structure LineTable where
  starts : Array Nat

namespace LineTable

def ofBytes (bs : List UInt8) : LineTable := ⟨(0 :: feedsFrom 0 bs).toArray⟩

def ofText (text : String) : LineTable := ofBytes text.toUTF8.data.toList

/-- The number of the line in which an offset is, from zero: the line that starts there, or else the
one before the place where it would go. -/
def lineAt (table : LineTable) (offset : Nat) : Nat :=
  match bisect table.starts offset 0 table.starts.size with
  | .ok place => place
  | .error place => place - 1

/-- The line and column of an offset. Where the text cannot be cut, bytes are counted. -/
def lineCol (table : LineTable) (text : String) (offset : Nat) : Nat × Nat :=
  let offset := min offset text.utf8ByteSize
  let line := table.lineAt offset
  let start := table.starts.getD line 0
  let column := ((slice? text start offset).map String.length).getD (offset - start)
  (line + 1, column + 1)

/-- The line is the last one that does not start behind the offset. -/
theorem lineAt_eq {before after : List Nat} {start offset : Nat}
    (hbefore : ∀ x ∈ before, x < start) (hstart : start ≤ offset)
    (hafter : ∀ x ∈ after, offset < x) :
    lineAt ⟨(before ++ start :: after).toArray⟩ offset = before.length := by
  have hat : (before ++ start :: after).toArray.getD before.length 0 = start := by simp
  have hfront (i : Nat) (hi : i < before.length) :
      (before ++ start :: after).toArray.getD i 0 < start := by
    have := hbefore _ (List.getElem_mem hi)
    simpa [List.getElem?_append_left hi, hi] using this
  have hback (i : Nat) (hi : before.length < i)
      (hsize : i < (before ++ start :: after).toArray.size) :
      offset < (before ++ start :: after).toArray.getD i 0 := by
    obtain ⟨k, rfl⟩ := Nat.exists_eq_add_of_lt hi
    have hk : k < after.length := by simpa [Nat.add_assoc] using hsize
    have := hafter _ (List.getElem_mem hk)
    simpa [Nat.add_assoc, hk] using this
  rcases hstart.eq_or_lt with rfl | hless
  · rw [lineAt, bisect_eq_ok (Nat.zero_le _) (by simp) (fun i _ => hfront i) hat hback]
  · have hnotBehind (i : Nat) (_ : 0 ≤ i) (hi : i < before.length + 1) :
        (before ++ start :: after).toArray.getD i 0 < offset := by
      rcases Nat.lt_succ_iff_lt_or_eq.1 hi with hi | rfl
      · exact (hfront i hi).trans hless
      · rwa [hat]
    rw [lineAt, bisect_eq_error (Nat.zero_le _) (by simp) hnotBehind hback]
    rfl

/-- The table of a text of which the front `a` ends with a line. -/
theorem exists_ofBytes_eq {a b : List UInt8} (c : List UInt8) (ha : WholeLines 10 a)
    (hb : 10 ∉ b) :
    ∃ before, ofBytes (a ++ (b ++ c)) =
        ⟨(before ++ a.length :: feedsFrom (a.length + b.length) c).toArray⟩ ∧
      before.length = a.count 10 ∧ ∀ x ∈ before, x < a.length := by
  have hstarts : 0 :: feedsFrom 0 (a ++ (b ++ c)) =
      (0 :: feedsFrom 0 a) ++ feedsFrom (a.length + b.length) c := by
    simp [feedsFrom_append, feedsFrom_eq_nil _ hb]
  rw [ofBytes, hstarts]
  rcases ha with rfl | ⟨a, rfl⟩
  · exact ⟨[], rfl, rfl, by simp⟩
  · have hlast : feedsFrom a.length [10] = [a.length + 1] := by simp [feedsFrom]
    refine ⟨0 :: feedsFrom 0 a, ?_, ?_, ?_⟩
    · simp [feedsFrom_append, hlast]
    · simp [length_feedsFrom]
    · simp only [List.mem_cons, forall_eq_or_imp, List.length_append, List.length_singleton]
      refine ⟨by omega, fun x hx => ?_⟩
      have := (bounds_of_mem_feedsFrom hx).2
      omega

/-- The line of an offset that is behind the front `a`, with no line feed in between, starts behind
`a`. -/
theorem lineAt_ofBytes {a b : List UInt8} (c : List UInt8) (ha : WholeLines 10 a)
    (hb : 10 ∉ b) :
    lineAt (ofBytes (a ++ (b ++ c))) (a.length + b.length) = a.count 10 ∧
      (ofBytes (a ++ (b ++ c))).starts.getD (a.count 10) 0 = a.length := by
  obtain ⟨before, htable, hlength, hbefore⟩ := exists_ofBytes_eq c ha hb
  rw [htable, ← hlength]
  exact ⟨lineAt_eq hbefore (by omega) fun x hx => (bounds_of_mem_feedsFrom hx).1, by simp⟩

end LineTable

/-- What can be cut out of a text ends between two characters. -/
theorem boundary_of_slice? {s : List Char} {start stop : Nat} {part : String} (h : start ≤ stop)
    (hpart : slice? (String.ofList s) start stop = some part) : Boundary s stop := by
  rw [slice?, if_neg (by omega)] at hpart
  simp only [Option.bind_eq_bind, Option.bind_eq_some_iff, Option.pure_def,
    String.toList_ofList] at hpart
  obtain ⟨rest, hrest, part, hpart, -⟩ := hpart
  obtain ⟨before, rfl, hbefore⟩ := exists_append_of_dropBytes? hrest
  obtain ⟨after, rfl, hafter⟩ := exists_append_of_takeBytes? hpart
  exact ⟨before ++ part, after, by simp, by rw [byteLength_append]; omega⟩

/-- The line of an offset starts behind `kept` if there is no line feed in between. -/
theorem lineAt_bytes {kept : List Char} (rest : List Char) {o : Nat}
    (hkept : WholeLines '\n' kept) (ho : o ≤ byteLength rest) (hfeed : 10 ∉ (bytes rest).take o) :
    (LineTable.ofBytes (bytes (kept ++ rest))).lineAt (byteLength kept + o) = kept.count '\n' ∧
      (LineTable.ofBytes (bytes (kept ++ rest))).starts.getD (kept.count '\n') 0 =
        byteLength kept := by
  have h := LineTable.lineAt_ofBytes ((bytes rest).drop o) hkept.bytes hfeed
  rwa [List.take_append_drop, ← bytes_append, length_bytes, count_bytes, List.length_take,
    length_bytes, Nat.min_eq_left ho] at h

/-- Looking up the table of a text gives what a walk through the text gives. -/
theorem LineTable.lineCol_ofText (text : String) (offset : Nat) :
    (LineTable.ofText text).lineCol text offset = Text.lineCol text.toList offset := by
  obtain ⟨s, rfl⟩ : ∃ s, text = String.ofList s := ⟨text.toList, by simp⟩
  rw [← lineCol_min, LineTable.lineCol, LineTable.ofText, ← bytes_toList, ← byteLength_toList,
    String.toList_ofList]
  have ho := Nat.min_le_right offset (byteLength s)
  generalize min offset (byteLength s) = o at ho
  -- In both cases the line starts behind the whole lines in front of the offset.
  rcases boundary_or_inside ho with ⟨front, back, rfl, rfl⟩ | ⟨front, c, back, k, rfl, rfl, hk, hc⟩
  all_goals obtain ⟨kept, line, rfl, hkept, hline⟩ := exists_wholeLines '\n' front
  · obtain ⟨hlineAt, hstart⟩ := lineAt_bytes (line ++ back) (o := byteLength line) hkept
      (by simp) (by simpa [take_bytes_append] using lineFeed_notMem_bytes hline)
    rw [← List.append_assoc, ← byteLength_append] at hlineAt
    rw [← List.append_assoc] at hstart
    rw [lineCol_append, lastLineLength_append hline, hkept.lastLineLength_eq]
    simp only [hlineAt, hstart]
    rw [byteLength_append, slice?_append]
    simp [List.count_eq_zero.2 hline]
  · obtain ⟨hlineAt, hstart⟩ := lineAt_bytes (line ++ c :: back) (o := byteLength line + k) hkept
      (by simp; omega)
      (by rw [take_bytes_inside _ _ hc]
          simp [lineFeed_notMem_bytes hline, lineFeed_notMem_take hk hc])
    rw [← List.append_assoc, ← Nat.add_assoc, ← byteLength_append] at hlineAt
    rw [← List.append_assoc] at hstart
    have hcut : slice? (String.ofList (kept ++ line ++ c :: back)) (byteLength kept)
        (byteLength (kept ++ line) + k) = none :=
      Option.eq_none_iff_forall_ne_some.2 fun _ h =>
        not_boundary_of_inside _ c back hk hc (boundary_of_slice? (by simp; omega) h)
    have hlength : lastLineLength 10 (bytes (kept ++ line)) = byteLength line := by
      rw [bytes_append, lastLineLength_append (lineFeed_notMem_bytes hline),
        hkept.bytes.lastLineLength_eq, length_bytes, Nat.zero_add]
    rw [lineCol_inside _ _ hk hc, hlength]
    simp only [hlineAt, hstart, hcut]
    simp [List.count_eq_zero.2 hline]
    omega

/-! ### Exact lines and columns -/

/-- Lines and columns of the offsets of a text that are exact. Each is about an offset and the place
`o` that is meant by it: the offset, or the end of the text for an offset past it. -/
structure Exact (text : String) (lineCol : Nat → Nat × Nat) : Prop where
  /-- The line is one more than the number of line feeds in front of `o`. -/
  line : ∀ offset o : Nat, o = min offset text.utf8ByteSize →
    (lineCol offset).1 = (text.toUTF8.data.toList.take o).count 10 + 1
  /-- Between two characters, the column is one more than the number of characters behind the last
  line feed. -/
  column : ∀ offset o : Nat, o = min offset text.utf8ByteSize →
    ∀ front back : List Char, text.toList = front ++ back → o = byteLength front →
      (lineCol offset).2 = lastLineLength '\n' front + 1
  /-- Inside a character, it is one more than the number of bytes. -/
  columnInside : ∀ offset o : Nat, o = min offset text.utf8ByteSize → ¬ Boundary text.toList o →
    (lineCol offset).2 = lastLineLength 10 (text.toUTF8.data.toList.take o) + 1
  /-- Further on in the text, lines and columns grow. -/
  grow : ∀ p q : Nat, Boundary text.toList p → Boundary text.toList q → p < q →
    Prod.Lex (· < ·) (· < ·) (lineCol p) (lineCol q)
  /-- No two places between characters have the same line and column. -/
  inj : ∀ p q : Nat, Boundary text.toList p → Boundary text.toList q → lineCol p = lineCol q → p = q

theorem eq_of_lineCol_eq {s : List Char} {p q : Nat} (hp : Boundary s p) (hq : Boundary s q)
    (heq : lineCol s p = lineCol s q) : p = q := by
  rcases Nat.lt_trichotomy p q with h | h | h
  · have hlt := lineCol_lt_of_boundary hp hq h
    rw [heq, Prod.lex_def] at hlt
    omega
  · exact h
  · have hlt := lineCol_lt_of_boundary hq hp h
    rw [heq, Prod.lex_def] at hlt
    omega

theorem exact_lineCol (text : String) : Exact text (lineCol text.toList) where
  line := by
    rintro offset o rfl
    rw [← byteLength_toList, ← bytes_toList, ← lineCol_min]
    exact line_eq_count (Nat.min_le_right ..)
  column := by
    rintro offset o rfl front back htext hfront
    rw [← byteLength_toList] at hfront
    rw [← lineCol_min, hfront, htext, lineCol_append]
  columnInside := by
    rintro offset o rfl hinside
    rw [← byteLength_toList] at hinside ⊢
    rw [← bytes_toList, ← lineCol_min]
    exact column_eq_of_not_boundary (Nat.min_le_right ..) hinside
  grow _ _ hp hq h := lineCol_lt_of_boundary hp hq h
  inj _ _ hp hq h := eq_of_lineCol_eq hp hq h

/-- Lines and columns are exact, both those of the walk and those that are looked up. -/
theorem lineCol_exact (text : String) :
    Exact text (lineCol text.toList) ∧ Exact text ((LineTable.ofText text).lineCol text) := by
  have hsame : (LineTable.ofText text).lineCol text = lineCol text.toList :=
    funext (LineTable.lineCol_ofText text)
  rw [hsame]
  exact ⟨exact_lineCol text, exact_lineCol text⟩

theorem lineCol_exact_two_lines :
    (lineCol "é\nb".toList 9).1 = ("é\nb".toUTF8.data.toList.take 4).count 10 + 1 ∧
    (lineCol "é\nb".toList 9).2 = 2 ∧
    ¬ Boundary "é\nb".toList 1 ∧
    (lineCol "é\nb".toList 1).2 = lastLineLength 10 ("é\nb".toUTF8.data.toList.take 1) + 1 ∧
    Prod.Lex (· < ·) (· < ·) (lineCol "é\nb".toList 2) (lineCol "é\nb".toList 3) ∧
    (∀ q, Boundary "é\nb".toList q → lineCol "é\nb".toList q = (2, 1) → q = 3) ∧
    ((LineTable.ofText "é\nb").lineCol "é\nb" 9).2 = 2 := by
  have hat (front back : List Char) (h : front ++ back = "é\nb".toList) :
      Boundary "é\nb".toList (byteLength front) := ⟨front, back, h.symm, rfl⟩
  have hend : "é\nb".utf8ByteSize = 4 := by decide
  have hinside : ¬ Boundary "é\nb".toList 1 :=
    not_boundary_of_inside [] 'é' ['\n', 'b'] (k := 1) (by decide) (by decide)
  obtain ⟨hwalk, htable⟩ := lineCol_exact "é\nb"
  refine ⟨hwalk.line 9 4 (by rw [hend]; rfl),
    hwalk.column 9 4 (by rw [hend]; rfl) "é\nb".toList [] (by simp) (by decide), hinside,
    hwalk.columnInside 1 1 (by rw [hend]; rfl) hinside,
    hwalk.grow 2 3 (hat ['é'] ['\n', 'b'] (by decide)) (hat ['é', '\n'] ['b'] (by decide))
      (by decide),
    fun q hq h => hwalk.inj q 3 hq (hat ['é', '\n'] ['b'] (by decide)) (h.trans (by decide)),
    htable.column 9 4 (by rw [hend]; rfl) "é\nb".toList [] (by simp) (by decide)⟩

end PluginLint.Text
