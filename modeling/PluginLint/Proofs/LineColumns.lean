import PluginLint.Proofs.Edits.Splicing
import PluginLint.Proofs.Lexing.Boundaries

/-!
# What lines and columns say

A line is found by counting line feeds in the bytes of the text. Between two characters a column
counts the characters behind the last line feed; inside a character it counts bytes.
-/
namespace PluginLint.Text

open Lexer.ByOffset (Boundary)

/-! ### Bytes -/

/-- The UTF-8 form of a text. -/
def bytes (s : List Char) : List UInt8 := s.flatMap String.utf8EncodeChar

@[simp] theorem bytes_nil : bytes [] = [] := rfl

@[simp] theorem bytes_cons (c : Char) (s : List Char) :
    bytes (c :: s) = String.utf8EncodeChar c ++ bytes s := rfl

@[simp] theorem bytes_append (s t : List Char) : bytes (s ++ t) = bytes s ++ bytes t :=
  List.flatMap_append

@[simp] theorem length_bytes (s : List Char) : (bytes s).length = byteLength s := by
  induction s with
  | nil => rfl
  | cons c s ih => simp [String.length_utf8EncodeChar, ih]

theorem bytes_toList (text : String) : bytes text.toList = text.toUTF8.data.toList := by
  have h := congrArg (fun b : ByteArray => b.data.toList)
    (String.toByteArray_ofList (l := text.toList))
  simpa [bytes, List.utf8Encode] using h.symm

/-- A byte of a character is the whole character or no ASCII code. -/
theorem toNat_of_mem_utf8EncodeChar {c : Char} {b : UInt8} (h : b ∈ String.utf8EncodeChar c) :
    b.toNat = c.toNat ∨ 128 ≤ b.toNat := by
  simp only [String.utf8EncodeChar] at h
  split at h
  · rw [List.mem_singleton] at h
    subst h
    exact .inl (UInt8.toNat_ofNat_of_lt' (Nat.lt_of_le_of_lt ‹_› (by decide)))
  · obtain ⟨n, rfl, hn, hn'⟩ : ∃ n, b = UInt8.ofNat n ∧ 128 ≤ n ∧ n < 256 := by
      repeat' split at h
      all_goals simp only [List.mem_cons, List.not_mem_nil, or_false] at h
      · rcases h with rfl | rfl <;> exact ⟨_, rfl, by omega, by omega⟩
      · rcases h with rfl | rfl | rfl <;> exact ⟨_, rfl, by omega, by omega⟩
      · rcases h with rfl | rfl | rfl | rfl <;> exact ⟨_, rfl, by omega, by omega⟩
    rw [UInt8.toNat_ofNat_of_lt' hn']
    exact .inr hn

/-- No other character has the byte of a line feed. -/
theorem lineFeed_notMem_utf8EncodeChar {c : Char} (hc : c ≠ '\n') :
    10 ∉ String.utf8EncodeChar c := fun h => by
  rcases toNat_of_mem_utf8EncodeChar h with h | h
  · exact hc (Char.toNat_inj.1 h.symm)
  · simp at h

theorem utf8EncodeChar_lineFeed : String.utf8EncodeChar '\n' = [10] := by decide

/-- The line feeds can be counted in the bytes. -/
theorem count_bytes (s : List Char) : (bytes s).count 10 = s.count '\n' := by
  induction s with
  | nil => rfl
  | cons c s ih =>
    rw [bytes_cons, List.count_append, ih]
    rcases eq_or_ne c '\n' with rfl | hc
    · rw [utf8EncodeChar_lineFeed, List.count_singleton_self, List.count_cons_self, Nat.add_comm]
    · rw [List.count_cons_of_ne hc, List.count_eq_zero.2 (lineFeed_notMem_utf8EncodeChar hc),
        Nat.zero_add]

/-! ### Behind the last line feed -/

section

variable {α : Type} [DecidableEq α] {feed a : α} {s t : List α}

/-- How much of a text stands behind the last line feed in it. -/
def lastLineLength (feed : α) (s : List α) : Nat := (s.reverse.takeWhile (· ≠ feed)).length

/-- What has no line feed goes on on the same line. -/
theorem lastLineLength_append (h : feed ∉ t) :
    lastLineLength feed (s ++ t) = lastLineLength feed s + t.length := by
  have hall : ∀ a ∈ t.reverse, decide (a ≠ feed) = true := fun a ha =>
    decide_eq_true fun e => h (e ▸ List.mem_reverse.1 ha)
  rw [lastLineLength, List.reverse_append, List.takeWhile_append_of_pos hall, List.length_append,
    List.length_reverse, Nat.add_comm, lastLineLength]

/-- A line feed begins a line. -/
theorem lastLineLength_append_feed : lastLineLength feed (s ++ [feed]) = 0 := by
  simp [lastLineLength]

end

/-- Where the text is cut by an offset: between two characters or inside one. -/
theorem boundary_or_inside {s : List Char} {o : Nat} (h : o ≤ byteLength s) :
    Boundary s o ∨ ∃ front c back k, s = front ++ c :: back ∧ o = byteLength front + k ∧
      0 < k ∧ k < c.utf8Size := by
  induction s generalizing o with
  | nil =>
    obtain rfl : o = 0 := Nat.le_zero.1 h
    exact .inl ⟨[], [], rfl, rfl⟩
  | cons c s ih =>
    rw [byteLength_cons] at h
    rcases Nat.lt_or_ge o c.utf8Size with hinside | hbehind
    · rcases Nat.eq_zero_or_pos o with rfl | hpos
      · exact .inl ⟨[], c :: s, rfl, rfl⟩
      · exact .inr ⟨[], c, s, o, rfl, by simp, hpos, hinside⟩
    · obtain ⟨k, rfl⟩ := Nat.exists_eq_add_of_le hbehind
      rcases ih (Nat.le_of_add_le_add_left h) with ⟨u, v, rfl, rfl⟩ | ⟨u, d, v, j, rfl, rfl, hj, hd⟩
      · exact .inl ⟨c :: u, v, rfl, rfl⟩
      · exact .inr ⟨c :: u, d, v, j, rfl, by simp [Nat.add_assoc], hj, hd⟩

theorem not_boundary_of_inside (front : List Char) (c : Char) (back : List Char) {k : Nat}
    (hk : 0 < k) (hc : k < c.utf8Size) : ¬ Boundary (front ++ c :: back) (byteLength front + k) := by
  rintro ⟨u, v, hs, ho⟩
  obtain ⟨w, rfl, hw⟩ := exists_append_of_byteLength_le hs (by omega)
  rw [byteLength_append] at ho
  cases w with
  | nil => rw [byteLength_nil] at ho; omega
  | cons d w =>
    obtain ⟨rfl, -⟩ := List.cons.inj hw
    rw [byteLength_cons] at ho
    omega

/-! ### The walk -/

/-- A walk over whole characters counts the lines, and keeps how much of the last line is behind,
in characters and in bytes. -/
theorem lineColFrom_append (line : Nat) (seen front back : List Char) (k : Nat) :
    lineColFrom line (lastLineLength '\n' seen) (lastLineLength 10 (bytes seen))
        (byteLength front + k) (front ++ back) =
      lineColFrom (line + front.count '\n') (lastLineLength '\n' (seen ++ front))
        (lastLineLength 10 (bytes (seen ++ front))) k back := by
  -- Both counters measure the last line of what has been seen, so a character moves over to `seen`.
  induction front generalizing line seen with
  | nil => simp
  | cons c front ih =>
    have hc := c.utf8Size_pos
    have ih := ih (if c = '\n' then line + 1 else line) (seen ++ [c])
    rw [List.append_assoc, List.singleton_append, bytes_append] at ih
    rw [List.cons_append, lineColFrom, byteLength_cons, if_neg (by omega), if_neg (by omega),
      show c.utf8Size + byteLength front + k - c.utf8Size = byteLength front + k by omega]
    split
    · rename_i hfeed
      subst hfeed
      rw [if_pos rfl, lastLineLength_append_feed, bytes_cons, bytes_nil, List.append_nil,
        utf8EncodeChar_lineFeed, lastLineLength_append_feed] at ih
      rw [ih, List.count_cons_self, Nat.add_right_comm, Nat.add_assoc]
    · rename_i hother
      rw [if_neg hother, lastLineLength_append (by simpa using Ne.symm hother), bytes_cons,
        bytes_nil, List.append_nil, lastLineLength_append (lineFeed_notMem_utf8EncodeChar hother),
        String.length_utf8EncodeChar] at ih
      rw [List.count_cons_of_ne hother]
      exact ih

theorem lineCol_append_add (front back : List Char) (k : Nat) :
    lineCol (front ++ back) (byteLength front + k) =
      lineColFrom (front.count '\n' + 1) (lastLineLength '\n' front)
        (lastLineLength 10 (bytes front)) k back := by
  rw [Nat.add_comm (front.count '\n')]
  exact lineColFrom_append 1 [] front back k

/-- Between two characters, columns count characters. -/
theorem lineCol_append (front back : List Char) :
    lineCol (front ++ back) (byteLength front) =
      (front.count '\n' + 1, lastLineLength '\n' front + 1) := by
  rw [← Nat.add_zero (byteLength front), lineCol_append_add]
  cases back <;> simp [lineColFrom]

/-- Inside a character, columns count bytes. -/
theorem lineCol_inside (front : List Char) {c : Char} (back : List Char) {k : Nat} (hk : 0 < k)
    (hc : k < c.utf8Size) :
    lineCol (front ++ c :: back) (byteLength front + k) =
      (front.count '\n' + 1, lastLineLength 10 (bytes front) + k + 1) := by
  rw [lineCol_append_add, lineColFrom, if_neg (by omega), if_pos hc]

/-- Past the end is at the end. -/
theorem lineCol_min (s : List Char) (offset : Nat) :
    lineCol s (min offset (byteLength s)) = lineCol s offset := by
  rcases Nat.le_total offset (byteLength s) with h | h
  · rw [Nat.min_eq_left h]
  · obtain ⟨k, rfl⟩ := Nat.exists_eq_add_of_le h
    have hend := lineCol_append_add s [] 0
    have hpast := lineCol_append_add s [] k
    rw [List.append_nil] at hend hpast
    rw [Nat.min_eq_right h, hpast]
    exact hend

/-- The bytes in front of an offset inside a character. -/
theorem take_bytes_inside (front : List Char) {c : Char} (back : List Char) {k : Nat}
    (hc : k < c.utf8Size) :
    (bytes (front ++ c :: back)).take (byteLength front + k) =
      bytes front ++ (String.utf8EncodeChar c).take k := by
  rw [bytes_append, ← length_bytes, List.take_length_add_append, bytes_cons,
    List.take_append_of_le_length (by rw [String.length_utf8EncodeChar]; omega)]

theorem take_bytes_append (front back : List Char) :
    (bytes (front ++ back)).take (byteLength front) = bytes front := by
  rw [bytes_append, ← length_bytes, List.take_left]

/-- A character of several bytes is no line feed. -/
theorem ne_lineFeed_of_inside {c : Char} {k : Nat} (hk : 0 < k) (hc : k < c.utf8Size) :
    c ≠ '\n' := by
  rintro rfl
  have : '\n'.utf8Size = 1 := by decide
  omega

theorem lineFeed_notMem_take {c : Char} {k : Nat} (hk : 0 < k) (hc : k < c.utf8Size) :
    10 ∉ (String.utf8EncodeChar c).take k := fun h =>
  lineFeed_notMem_utf8EncodeChar (ne_lineFeed_of_inside hk hc) (List.mem_of_mem_take h)

/-- A line is one more than the line feeds in front of it. -/
theorem line_eq_count {s : List Char} {o : Nat} (ho : o ≤ byteLength s) :
    (lineCol s o).1 = ((bytes s).take o).count 10 + 1 := by
  rcases boundary_or_inside ho with ⟨front, back, rfl, rfl⟩ | ⟨front, c, back, k, rfl, rfl, hk, hc⟩
  · rw [lineCol_append, take_bytes_append, count_bytes]
  · rw [lineCol_inside front back hk hc, take_bytes_inside front back hc, List.count_append,
      List.count_eq_zero.2 (lineFeed_notMem_take hk hc), count_bytes, Nat.add_zero]

/-- Inside a character a column is one more than the bytes behind the last line feed. -/
theorem column_eq_of_not_boundary {s : List Char} {o : Nat} (ho : o ≤ byteLength s)
    (h : ¬ Boundary s o) :
    (lineCol s o).2 = lastLineLength 10 ((bytes s).take o) + 1 := by
  obtain ⟨front, c, back, k, rfl, rfl, hk, hc⟩ := (boundary_or_inside ho).resolve_left h
  rw [lineCol_inside front back hk hc, take_bytes_inside front back hc,
    lastLineLength_append (lineFeed_notMem_take hk hc), List.length_take,
    String.length_utf8EncodeChar, Nat.min_eq_left hc.le]

/-- A place further on is on a later line, or further on in the same line. -/
theorem lineCol_lt_of_append (s t u : List Char) (ht : t ≠ []) :
    Prod.Lex (· < ·) (· < ·) (lineCol (s ++ (t ++ u)) (byteLength s))
      (lineCol (s ++ (t ++ u)) (byteLength (s ++ t))) := by
  have hfurther := lineCol_append (s ++ t) u
  rw [List.append_assoc] at hfurther
  rw [lineCol_append, hfurther, Prod.lex_def]
  by_cases hfeed : '\n' ∈ t
  · left
    have := List.count_pos_iff.2 hfeed
    simp only [List.count_append]
    omega
  · right
    have := List.length_pos_iff.2 ht
    rw [List.count_append, List.count_eq_zero.2 hfeed, lastLineLength_append hfeed]
    exact ⟨rfl, by omega⟩

theorem lineCol_lt_of_boundary {s : List Char} {p q : Nat} (hp : Boundary s p) (hq : Boundary s q)
    (h : p < q) : Prod.Lex (· < ·) (· < ·) (lineCol s p) (lineCol s q) := by
  obtain ⟨front, back, rfl, rfl⟩ := hp
  obtain ⟨front', back', hs, rfl⟩ := hq
  obtain ⟨between, rfl, rfl⟩ := exists_append_of_byteLength_le hs h.le
  refine lineCol_lt_of_append front between back' ?_
  rintro rfl
  simp at h

end PluginLint.Text
