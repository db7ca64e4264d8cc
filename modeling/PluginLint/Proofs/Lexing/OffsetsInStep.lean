import PluginLint.Proofs.Lexing.Boundaries

/-!
# Offsets and characters in step

One lemma for each scanner: by offsets it does what the scanner of the same name does by characters.
The tokens come out the same, and where one scanner finds a literal broken the other comes to look
at the text from an offset that is no boundary.
-/
namespace PluginLint.Lexer

open Cursor (start)
open Text (byteLength)

/-! ### What the scanners of characters look at -/

section characters

variable {fuel : Nat} {k : Cursor} {c : Char} {r : List Char} {v i : Bool} {e : Error} {p : Place}

theorem startsNumber_point (r : List Char) :
    (r.head? == some '.' && r[1]?.any Char.isDigit) =
      (".".toList.isPrefixOf r && startsNumber r) := by
  match r with
  | [] => rfl
  | [c] =>
    by_cases hc : c = '.'
    · subst hc
      rfl
    · simp [Ne.symm hc]
  | c :: d :: r =>
    by_cases hc : c = '.'
    · subst hc
      simp [startsNumber]
    · have hc : (c == '.') = false := by simpa using hc
      simp [List.isPrefixOf, hc, BEq.comm (a := '.') (b := c)]

/-- Inside an interpolation the marks of a literal are always followed by a quote. -/
theorem exists_of_startsString (h : startsString k = true) :
    ∃ marks t, k.ahead = marks ++ '"' :: t ∧ ∀ c ∈ marks, isSigil c = true := by
  simp only [startsString, Cursor.startsWith, Bool.or_eq_true, List.isPrefixOf_iff_prefix] at h
  rcases h with (((⟨t, ht⟩ | ⟨t, ht⟩) | ⟨t, ht⟩) | ⟨t, ht⟩) | ⟨t, ht⟩
  · exact ⟨[], t, ht.symm, by simp [isSigil]⟩
  · exact ⟨['@'], t, ht.symm, by simp [isSigil]⟩
  · exact ⟨['$'], t, ht.symm, by simp [isSigil]⟩
  · exact ⟨['$', '@'], t, ht.symm, by simp [isSigil]⟩
  · exact ⟨['@', '$'], t, ht.symm, by simp [isSigil]⟩

theorem isBrokenString_of_startsString (h : startsString k = true) :
    isBrokenString k.ahead = false := by
  obtain ⟨marks, t, hk, hmarks⟩ := exists_of_startsString h
  rw [isBrokenString, hk, List.dropWhile_append_of_pos hmarks]
  rfl

theorem head_of_startsString (hk : k.ahead = c :: r) (h : startsString k = true) :
    (c == '"' || c == '$' || c == '@') = true := by
  obtain ⟨marks, t, ht, hmarks⟩ := exists_of_startsString h
  rw [hk] at ht
  cases marks with
  | nil =>
    obtain ⟨rfl, -⟩ := List.cons.inj ht
    rfl
  | cons d marks =>
    obtain ⟨rfl, -⟩ := List.cons.inj ht
    have hc := hmarks c List.mem_cons_self
    rw [isSigil] at hc
    rw [Bool.or_assoc, hc, Bool.or_true]

theorem opensString_cons (c : Char) (t : List Char) : opensString (c :: t) =
    (c == '"' || (c == '@' && t.head?.any fun d => d == '"' || d == '$') ||
      (c == '$' && t.head?.any fun d => d == '"' || d == '@' || d == '$')) := by
  by_cases hq : c = '"'
  · subst hq
    rfl
  by_cases ha : c = '@'
  · subst ha
    cases t <;> simp [opensString]
  by_cases hd : c = '$'
  · subst hd
    cases t <;> simp [opensString]
  simp [opensString, hq, ha, hd]

theorem startsNumber_cons (c : Char) (t : List Char) :
    startsNumber (c :: t) = (c.isDigit || (c == '.' && t.head?.any Char.isDigit)) := by
  by_cases hc : c = '.'
  · subst hc
    cases t <;> simp [startsNumber]
  · simp [startsNumber, hc]

/-- Only a broken literal has no token. -/
theorem token_eq_error_iff :
    token fuel r = .error e ↔
      e = .brokenString ∧ opensString r = true ∧ isBrokenString r = true := by
  unfold token
  by_cases hopens : opensString r = true
  · by_cases hbroken : isBrokenString r = true
    · simp [hopens, hbroken, eq_comm]
    · simp [hopens, hbroken]
  · simp only [hopens, Bool.false_eq_true, if_false, false_and, and_false, iff_false]
    intro h
    cases r with
    | nil => cases h
    | cons c t =>
      dsimp only at h
      split_ifs at h <;> split at h <;> cases h

/-- A round that ends without tokens: the token ahead is broken, or a later one. -/
theorem tokensFrom_succ_error (h : tokensFrom (fuel + 1) p = .error e) :
    (trivia false (fuel + 1) p).2.ahead ≠ [] ∧
      (token (fuel + 1) (trivia false (fuel + 1) p).2.ahead = .error e ∨
        ∃ kind k, token (fuel + 1) (trivia false (fuel + 1) p).2.ahead = .ok (kind, k) ∧
          tokensFrom fuel (trivia true (fuel + 1)
            ⟨k.taken ++ (trivia false (fuel + 1) p).2.behind, k.ahead⟩).2 = .error e) := by
  rw [tokensFrom] at h
  dsimp only at h
  split at h
  · cases h
  · rename_i he
    refine ⟨by simpa using he, ?_⟩
    cases ht : token (fuel + 1) (trivia false (fuel + 1) p).2.ahead with
    | error e' =>
      simp only [ht, Bind.bind, Except.bind, Except.error.injEq] at h
      exact .inl (by rw [h])
    | ok found =>
      obtain ⟨kind, k⟩ := found
      simp only [ht, Bind.bind, Except.bind] at h
      split at h
      · rename_i e' hrest
        cases h
        exact .inr ⟨kind, k, rfl, hrest⟩
      · cases h

end characters

namespace ByOffset

section

variable {s u r : List Char} {fuel n : Nat} {c : Char}

/-! ### Trivia -/

theorem Moves.lineBreak (hc : c = '\r' ∨ c = '\n') :
    Moves s u (lineBreak s) (c :: r) ()
      (if "\r\n".toList.isPrefixOf (c :: r) then (c :: r).drop 2 else r) := by
  refine .look (.startsWith _) ?_
  split
  · rename_i h
    exact .advanceOver h (by decide)
  · exact .advanceOne (by rcases hc with rfl | rfl <;> rfl)

/-- The place behind a comment is found by its offset. -/
theorem find?_comment (taken r : List Char) :
    (∃ v r', r = v ++ '*' :: '/' :: r' ∧ find? ['*', '/'] r = some (byteLength v) ∧
      (Lexer.blockComment.go taken r).ahead = r') ∨
      find? ['*', '/'] r = none ∧ (Lexer.blockComment.go taken r).ahead = [] := by
  fun_induction Lexer.blockComment.go taken r with
  | case1 taken => exact .inr ⟨rfl, rfl⟩
  | case2 taken rest => exact .inl ⟨[], rest, rfl, rfl, rfl⟩
  | case3 taken c rest h ih =>
    have hno : ['*', '/'].isPrefixOf (c :: rest) = false := by
      rw [Bool.eq_false_iff]
      intro hpre
      obtain ⟨t, ht⟩ := List.isPrefixOf_iff_prefix.1 hpre
      obtain ⟨rfl, rfl⟩ : '*' = c ∧ '/' :: t = rest := by simpa using ht
      exact h t rfl rfl
    rw [find?, hno]
    rcases ih with ⟨v, r', rfl, hfind, hahead⟩ | ⟨hfind, hahead⟩
    · exact .inl ⟨c :: v, r', rfl, by simp [hfind], hahead⟩
    · exact .inr ⟨by simp [hfind], hahead⟩

theorem Moves.blockComment {k : Cursor} (h : k.startsWith "/*" = true) :
    Moves s u (blockComment s) k.ahead () (Lexer.blockComment (k.skip 2)).ahead := by
  refine Moves.bind (.advanceOver h (by decide)) fun u => ?_
  rw [Lexer.blockComment, Cursor.ahead_skip]
  show Moves s u _ (k.ahead.drop 2) _ _
  generalize k.ahead.drop 2 = r
  refine .look .rest ?_
  obtain ⟨v, r', rfl, hfind, hahead⟩ | ⟨hfind, hahead⟩ := find?_comment (k.skip 2).taken r
  · rw [hfind, hahead]
    have hmove : Moves s u (ByOffset.advance (byteLength v + 2)) ((v ++ ['*', '/']) ++ r') () r' :=
      .advance (by simp; rfl)
    simpa using hmove
  · rw [hfind, hahead]
    exact .moveToEnd

theorem Moves.triviaPiece (trailing : Bool) {k : Cursor} (hf : k.ahead.length < fuel) :
    Moves s u (triviaPiece s trailing fuel) k.ahead
      ((Lexer.triviaPiece trailing u.reverse k).map Prod.fst)
      ((Lexer.triviaPiece trailing u.reverse k).elim k.ahead fun piece => piece.2.ahead) := by
  -- Characters of one class: blanks, or the rest of a line.
  have hrun : ∀ (p : Char → Bool) (kind : TriviaKind),
      Moves s u (do ByOffset.eatWhile s p fuel; return some kind) k.ahead (some kind)
        (k.skipWhile p).ahead := fun p kind => Moves.bind (.eatWhile p hf) fun _ => .pure
  have hblock : k.startsWith "/*" = true →
      Moves s u (do ByOffset.blockComment s; return some TriviaKind.blockComment) k.ahead
        (some TriviaKind.blockComment) (Lexer.blockComment (k.skip 2)).ahead :=
    fun h => Moves.bind (.blockComment h) fun _ => .pure
  refine .look .peek ?_
  unfold Lexer.triviaPiece
  cases hk : k.ahead with
  | nil => exact .pure
  | cons c r =>
    have hstarts : ∀ lit : String, k.startsWith lit = lit.toList.isPrefixOf (c :: r) := by
      intro lit
      rw [Cursor.startsWith, hk]
    rw [hk] at hrun hblock
    dsimp only [List.head?_cons]
    by_cases hspace : isSpace c = true
    · simp only [hspace, if_true]
      exact hrun isSpace .whitespace
    simp only [hspace, Bool.false_eq_true, if_false]
    by_cases hbreak : (c == '\r' || c == '\n') = true
    · have hmove : Moves s u (ByOffset.lineBreak s) (c :: r) () _ :=
        .lineBreak (by simpa using hbreak)
      simp only [hbreak, if_true, hstarts]
      refine Moves.bind hmove fun _ => ?_
      split <;> simpa [hk] using Moves.pure
    have hcrlf : "\r\n".toList.isPrefixOf (c :: r) = false := by
      have hc : c ≠ '\r' := by
        rintro rfl
        exact hbreak rfl
      simp [List.isPrefixOf, Ne.symm hc]
    simp only [hbreak, hstarts, hcrlf, Bool.false_eq_true, if_false]
    refine .look (.startsWith _) (.look (.startsWith _) ?_)
    by_cases hdoc : ("///".toList.isPrefixOf (c :: r) && !"////".toList.isPrefixOf (c :: r)) = true
    · simp only [hdoc, if_true]
      exact hrun isInLine .docComment
    simp only [hdoc, Bool.false_eq_true, if_false]
    refine .look (.startsWith _) ?_
    by_cases hline : "//".toList.isPrefixOf (c :: r) = true
    · simp only [hline, if_true]
      exact hrun isInLine .lineComment
    simp only [hline, Bool.false_eq_true, if_false]
    refine .look (.startsWith _) ?_
    by_cases hopen : "/*".toList.isPrefixOf (c :: r) = true
    · simp only [hopen, if_true]
      exact hblock (hstarts _ ▸ hopen)
    simp only [hopen, Bool.false_eq_true, if_false]
    by_cases hhash : (c == '#' && !trailing) = true
    · simp only [hhash, if_true, Bool.true_and]
      refine .look .before ?_
      by_cases hstart : atLineStart u.reverse = true
      · simp only [hstart, if_true]
        exact hrun isInLine .directive
      · simp only [hstart, Bool.false_eq_true, if_false]
        exact .pure
    · simp only [hhash, Bool.false_and, Bool.false_eq_true, if_false]
      exact .pure

/-- What a scanner has taken is the text between the two places. -/
theorem taken_eq_of_reaches {v : List Char} {k : Cursor} (h : (start r).Reaches k)
    (hv : r = v ++ k.ahead) : k.taken = v.reverse := by
  obtain ⟨w, hw, htaken⟩ := h
  obtain rfl : v = w := List.append_cancel_right (hv.symm.trans hw)
  simpa [start] using htaken

theorem Moves.trivia (trailing : Bool) (hf : r.length < fuel) :
    Moves s u (trivia s trailing fuel) r (Lexer.trivia trailing fuel ⟨u.reverse, r⟩).1
      (Lexer.trivia trailing fuel ⟨u.reverse, r⟩).2.ahead := by
  induction fuel generalizing u r with
  | zero => omega
  | succ fuel ih =>
    rw [ByOffset.trivia, Lexer.trivia]
    refine .look .here ?_
    have hpiece : Moves s u _ (start r).ahead _ _ := .triviaPiece trailing hf
    refine hpiece.bindFrom fun v hv => ?_
    cases hk : Lexer.triviaPiece trailing u.reverse (start r) with
    | none => exact .pure
    | some piece =>
      obtain ⟨kind, k⟩ := piece
      simp only [hk, Option.map_some, Option.elim_some] at hv ⊢
      obtain ⟨hreach, hlt⟩ := advances_triviaPiece hk
      have htaken := taken_eq_of_reaches hreach hv
      have hlexeme : k.lexeme = String.ofList v := by simp [Cursor.lexeme, htaken]
      have hbehind : k.taken ++ u.reverse = (u ++ v).reverse := by simp [htaken]
      refine .look (.take v) ?_
      rw [← hlexeme, hbehind]
      by_cases hend : (trailing && kind == .endOfLine) = true
      · simp only [hend, if_true]
        exact .pure
      · simp only [hend, Bool.false_eq_true, if_false]
        simp only [start] at hlt
        exact (ih (by omega)).bind fun _ => .pure

/-! ### Numbers and characters -/

theorem Moves.fraction {k : Cursor} (hf : k.ahead.length < fuel) :
    Moves s u (fraction s fuel) k.ahead () (Lexer.fraction k).ahead := by
  refine .look .peek (.look (.peekAt 1) ?_)
  rw [startsNumber_point, Lexer.fraction_eq, Cursor.startsWith]
  split
  · rename_i h
    have hpoint : ".".toList.isPrefixOf k.ahead = true := by
      rw [Bool.and_eq_true] at h
      exact h.1
    refine Moves.bind (.advanceOver hpoint (by decide)) fun _ => ?_
    rw [Cursor.ahead_skipWhile, Cursor.ahead_next, ← List.drop_one]
    refine .eatWhile _ ?_
    simp only [List.length_drop]
    omega
  · exact .pure

/-- The mark alone, or the mark and a sign, stand in front of the digits. -/
theorem Moves.exponentDigits {k : Cursor} {t : List Char} (hk : k.ahead = c :: t)
    (hc : c.utf8Size = 1) (hn : Narrow (t.take n)) (hlen : (t.take n).length = n)
    (hf : t.length < fuel) :
    Moves s u (do
        if (← ByOffset.peekAt s (n + 1)).any Char.isDigit then
          ByOffset.advance (n + 1)
          ByOffset.eatWhile s Char.isDigit fuel) (c :: t) ()
      (match (if t[n]?.any Char.isDigit then some n else none).map (· + 1) with
      | some n => (k.skip n).skipWhile Char.isDigit
      | none => k).ahead := by
  refine .look (.peekAt (n + 1)) ?_
  rw [List.getElem?_cons_succ]
  split
  · dsimp only [Option.map_some]
    have hover : Moves s u (ByOffset.advance (n + 1)) (c :: t.take n ++ t.drop n) () (t.drop n) :=
      .advance (by rw [Text.byteLength_cons, hc, hn.byteLength_eq, hlen, Nat.add_comm])
    rw [List.cons_append, List.take_append_drop] at hover
    refine hover.bind fun _ => ?_
    rw [Cursor.ahead_skipWhile, Cursor.ahead_skip, hk, List.drop_succ_cons]
    refine .eatWhile _ ?_
    simp only [List.length_drop]
    omega
  · rw [← hk]
    exact .pure

theorem Moves.exponent {k : Cursor} (hf : k.ahead.length < fuel) :
    Moves s u (exponent s fuel) k.ahead () (Lexer.exponent k).ahead := by
  refine .look .peek ?_
  rw [Lexer.exponent_eq]
  cases hk : k.ahead with
  | nil =>
    rw [show exponentMark? [] = none from rfl, hk]
    exact .pure
  | cons c t =>
    rw [hk, List.length_cons] at hf
    rw [exponentMark?_cons, List.head?_cons, Option.any_some]
    by_cases hmark : (c == 'e' || c == 'E') = true
    · have hc : c.utf8Size = 1 := by
        simp only [Bool.or_eq_true, beq_iff_eq] at hmark
        rcases hmark with rfl | rfl <;> rfl
      rw [if_pos hmark, if_pos hmark, exponentSign?_eq]
      refine .look (.peekAt 1) ?_
      rw [List.getElem?_cons_succ, ← List.head?_eq_getElem?]
      split
      · rename_i hsign
        cases t with
        | nil => simp at hsign
        | cons d t =>
          have hd : Narrow [d] := by
            simp only [List.head?_cons, Option.any_some, Bool.or_eq_true, beq_iff_eq] at hsign
            rcases hsign with rfl | rfl <;> decide
          exact .exponentDigits hk hc hd rfl (by omega)
      · exact .exponentDigits hk hc (by simp [Narrow]) rfl (by omega)
    · rw [if_neg hmark, if_neg hmark, hk]
      exact .pure

theorem Moves.digits {k : Cursor} (hf : k.ahead.length < fuel) :
    Moves s u (digits s fuel) k.ahead ()
      (if k.startsWith "0x" || k.startsWith "0X" then
        (k.skip 2).skipWhile fun c => isHexDigit c || c == '_'
      else if k.startsWith "0b" || k.startsWith "0B" then
        (k.skip 2).skipWhile fun c => c == '0' || c == '1' || c == '_'
      else Lexer.exponent (Lexer.fraction (k.skipWhile isDigitOrBar))).ahead := by
  -- Digits behind a prefix that is two characters long.
  have hdigits : ∀ p : Char → Bool, Moves s u (ByOffset.advance 2) k.ahead () (k.ahead.drop 2) →
      Moves s u (do ByOffset.advance 2; ByOffset.eatWhile s p fuel) k.ahead ()
        ((k.skip 2).skipWhile p).ahead := by
    intro p hover
    refine hover.bind fun _ => ?_
    rw [Cursor.ahead_skipWhile, Cursor.ahead_skip]
    refine .eatWhile _ ?_
    simp only [List.length_drop]
    omega
  unfold Cursor.startsWith
  refine .look (.startsWith _) (.look (.startsWith _) ?_)
  split
  · rename_i hx
    refine hdigits _ ?_
    rcases (Bool.or_eq_true_iff).1 hx with h | h
    · exact .advanceOver h (by decide)
    · exact .advanceOver h (by decide)
  refine .look (.startsWith _) (.look (.startsWith _) ?_)
  split
  · rename_i hb
    refine hdigits _ ?_
    rcases (Bool.or_eq_true_iff).1 hb with h | h
    · exact .advanceOver h (by decide)
    · exact .advanceOver h (by decide)
  have hle := (Cursor.reaches_skipWhile isDigitOrBar k).length_le
  have hle' := (reaches_fraction (k.skipWhile isDigitOrBar)).length_le
  refine Moves.bind (.eatWhile _ hf) fun _ => ?_
  refine Moves.bind (.fraction (k := k.skipWhile isDigitOrBar) (by omega)) fun _ => ?_
  exact .exponent (by omega)

theorem Moves.number {k : Cursor} (hf : k.ahead.length < fuel) :
    Moves s u (number s fuel) k.ahead () (Lexer.number k).ahead := by
  refine Moves.bind (.digits hf) fun _ => .eatWhile _ ?_
  refine Nat.lt_of_le_of_lt (Cursor.Reaches.length_le ?_) hf
  split
  · exact (Cursor.reaches_skip 2 k).trans (Cursor.reaches_skipWhile _ _)
  split
  · exact (Cursor.reaches_skip 2 k).trans (Cursor.reaches_skipWhile _ _)
  · exact ((Cursor.reaches_skipWhile _ k).trans (reaches_fraction _)).trans (reaches_exponent _)

theorem Moves.charBody (taken : List Char) (hf : r.length < fuel) :
    Moves s u (charBody s fuel) r () (Lexer.charLiteral.go taken r).ahead := by
  induction fuel generalizing u r taken with
  | zero => omega
  | succ fuel ih =>
    rw [ByOffset.charBody]
    refine Moves.bind .bump fun _ => ?_
    cases r with
    | nil => exact .pure
    | cons c r =>
      simp only [List.length_cons] at hf
      by_cases hc : c = '\\'
      · subst hc
        refine Moves.bind .bump fun _ => ?_
        cases r with
        | nil => exact ih (r := []) ('\\' :: taken) (by omega)
        | cons d r => exact ih (r := r) _ (by simp only [List.length_cons] at hf; omega)
      · have hc' : (c == '\\') = false := by simpa using hc
        rw [charLiteral_go_cons hc]
        simp only [List.head?_cons, List.tail_cons, hc', Bool.false_eq_true, if_false]
        split
        · exact .pure
        · exact ih _ (by omega)

theorem Moves.charLiteral {k : Cursor} (hk : k.ahead.head? = some '\'')
    (hf : k.ahead.length < fuel) :
    Moves s u (charLiteral s fuel) k.ahead () (Lexer.charLiteral k).ahead := by
  rw [Lexer.charLiteral, Cursor.ahead_next]
  cases hr : k.ahead with
  | nil => simp [hr] at hk
  | cons c r =>
    obtain rfl : c = '\'' := by simpa [hr] using hk
    rw [hr, List.length_cons] at hf
    exact (Moves.advanceOne rfl).bind fun _ => .charBody (r := r) _ (by omega)

/-! ### String literals -/

/-- The quotes that close a raw text are found by their offset. -/
theorem find?_quotes (n : Nat) (taken r : List Char) :
    (∃ v r', r = v ++ r' ∧ find? (List.replicate n '"') r = some (byteLength v) ∧
      (Lexer.rawBody.go n taken r).ahead = r'.dropWhile (· == '"')) ∨
      find? (List.replicate n '"') r = none ∧ (Lexer.rawBody.go n taken r).ahead = [] := by
  fun_induction Lexer.rawBody.go n taken r with
  | case1 taken => exact .inr ⟨rfl, rfl⟩
  | case2 taken c rest h => exact .inl ⟨[], c :: rest, rfl, by simp [find?, h], rfl⟩
  | case3 taken c rest h ih =>
    rw [find?, if_neg h]
    rcases ih with ⟨v, r', rfl, hfind, hahead⟩ | ⟨hfind, hahead⟩
    · exact .inl ⟨c :: v, r', rfl, by simp [hfind], hahead⟩
    · exact .inr ⟨by simp [hfind], hahead⟩

theorem takeWhile_quote (r : List Char) : r.takeWhile (· == '"') =
    List.replicate (r.takeWhile (· == '"')).length '"' := by
  refine List.eq_replicate_of_mem fun c hc => ?_
  simpa using List.mem_takeWhile_imp hc

theorem narrow_replicate_quote (n : Nat) : Narrow (List.replicate n '"') := by
  intro c hc
  rw [List.eq_of_mem_replicate hc]
  rfl

theorem Moves.advanceQuotes : Moves s u (do ByOffset.advance (← ByOffset.countQuotes s)) r ()
    (r.dropWhile (· == '"')) := by
  refine .look .countQuotes ?_
  have hover : Moves s u (ByOffset.advance (r.takeWhile (· == '"')).length)
      (r.takeWhile (· == '"') ++ r.dropWhile (· == '"')) () (r.dropWhile (· == '"')) :=
    .advance (by
      rw [takeWhile_quote, (narrow_replicate_quote _).byteLength_eq])
  rwa [List.takeWhile_append_dropWhile] at hover

theorem Moves.rawString {k : Cursor} (h : (List.replicate n '"').isPrefixOf k.ahead = true) :
    Moves s u (rawString s n) k.ahead () (Lexer.rawBody n (k.skip n)).ahead := by
  have hover : Moves s u (ByOffset.advance n) k.ahead () (k.ahead.drop n) := by
    simpa using Moves.advanceOver h (narrow_replicate_quote n)
  refine hover.bind fun u => ?_
  rw [Lexer.rawBody, Cursor.ahead_skip]
  generalize k.ahead.drop n = r
  refine .look .rest ?_
  obtain ⟨v, r', rfl, hfind, hahead⟩ | ⟨hfind, hahead⟩ := find?_quotes n (k.skip n).taken r
  · rw [hfind, hahead]
    exact Moves.bind (.advance rfl) fun _ => .advanceQuotes
  · rw [hfind, hahead]
    exact .moveToEnd

theorem utf8Size_of_isSigil (h : isSigil c = true) : c.utf8Size = 1 := by
  simp only [isSigil, Bool.or_eq_true, beq_iff_eq] at h
  rcases h with rfl | rfl <;> rfl

theorem Moves.sigils (hf : r.length < fuel) :
    Moves s u (sigils s fuel) r (r.takeWhile isSigil) (r.dropWhile isSigil) := by
  induction fuel generalizing u r with
  | zero => omega
  | succ fuel ih =>
    rw [ByOffset.sigils]
    refine .look .peek ?_
    cases r with
    | nil => exact .pure
    | cons c r =>
      simp only [List.length_cons] at hf
      by_cases hc : isSigil c = true
      · simp only [List.head?_cons, hc, if_true, List.takeWhile_cons, List.dropWhile_cons]
        refine (Moves.advanceOne (utf8Size_of_isSigil hc)).bind fun _ => ?_
        exact (ih (by omega)).bind fun _ => .pure
      · simp only [List.head?_cons, hc, Bool.false_eq_true, if_false, List.takeWhile_cons,
          List.dropWhile_cons]
        exact .pure

theorem Moves.encodingMark {k : Cursor} :
    Moves s u (encodingMark s) k.ahead () (Lexer.encodingMark k).ahead := by
  unfold Lexer.encodingMark Cursor.startsWith
  refine .look (.startsWith _) (.look (.startsWith _) ?_)
  split
  · rename_i h
    rw [Cursor.ahead_skip]
    rcases (Bool.or_eq_true_iff).1 h with h | h
    · exact .advanceOver h (by decide)
    · exact .advanceOver h (by decide)
  · exact .pure

theorem utf8Size_eq_one_iff : c.utf8Size = 1 ↔ c.toNat < 128 := by
  have hval : c.val ≤ 127 ↔ c.toNat < 128 := by
    rw [UInt32.le_iff_toNat_le]
    show c.toNat ≤ 127 ↔ c.toNat < 128
    omega
  rw [← hval]
  unfold Char.utf8Size
  dsimp only
  show (if c.val ≤ 127 then 1 else _) = 1 ↔ _
  by_cases h : c.val ≤ 127
  · simp [h]
  · rw [if_neg h]
    split_ifs <;> simp [h]

/-- In front of a text that is not raw stands one character that is one byte wide. -/
theorem exists_of_isBrokenString (h : isBrokenString r = false) :
    ∃ c t, r.dropWhile isSigil = c :: t ∧ c.utf8Size = 1 := by
  unfold isBrokenString at h
  split at h
  · cases h
  · rename_i c t hr
    exact ⟨c, t, hr, utf8Size_eq_one_iff.2 (by simpa using h)⟩

theorem Moves.quoted {k : Cursor} {body : Bool → Bool → Scan Unit} {rounds : Nat}
    (hk : isBrokenString k.ahead = false)
    (hbody : ∀ u v i, Moves s u (body v i) (openString k).ahead ()
      (Lexer.quotedBody v i rounds (openString k)).ahead) :
    Moves s u (quoted s (k.ahead.takeWhile isSigil) body) (k.ahead.dropWhile isSigil) ()
      (match stringForm k.ahead with
      | .raw n => Lexer.rawBody n (openString k)
      | .quoted v i => Lexer.quotedBody v i rounds (openString k)).ahead := by
  refine .look .countQuotes ?_
  unfold openString stringForm at *
  by_cases hraw : 3 ≤ ((k.ahead.dropWhile isSigil).takeWhile (· == '"')).length
  · simp only [hraw, if_true]
    refine .rawString (k := k.skipWhile isSigil) ?_
    rw [← takeWhile_quote, List.isPrefixOf_iff_prefix]
    exact List.takeWhile_prefix _
  · simp only [hraw, if_false] at hbody ⊢
    obtain ⟨c, t, ht, hc⟩ := exists_of_isBrokenString hk
    rw [ht]
    refine (Moves.advanceOne hc).bind fun u => ?_
    simpa [ht] using hbody u _ _

theorem Moves.stringLike {k : Cursor} {body : Bool → Bool → Scan Unit} {rounds : Nat}
    (hk : isBrokenString k.ahead = false) (hf : k.ahead.length < fuel)
    (hbody : ∀ u v i, Moves s u (body v i) (openString k).ahead ()
      (Lexer.quotedBody v i rounds (openString k)).ahead) :
    Moves s u (stringLike s fuel body) k.ahead (stringKind k.ahead)
      (stringLiteral rounds k).ahead :=
  Moves.bind (.sigils hf) fun _ => Moves.bind (.quoted hk hbody) fun _ =>
    Moves.bind .encodingMark fun _ => .pure

section bodies

variable {k : Cursor} {v i : Bool} {depth : Nat}

/-- Both scanners read the bodies of literals in step, as far as `fuel` rounds go. -/
structure Bodies (s : List Char) (fuel : Nat) : Prop where
  quoted : ∀ u v i k, k.ahead.length < fuel →
    Moves s u (quotedBody s v i fuel) k.ahead () (Lexer.quotedBody v i fuel k).ahead
  interpolation : ∀ u depth k, k.ahead.length < fuel →
    Moves s u (interpolation s depth fuel) k.ahead () (Lexer.interpolation depth fuel k).ahead

/-- One more round for the body of a literal. -/
theorem Bodies.quoted_succ (h : Bodies s fuel) (hf : k.ahead.length < fuel + 1) :
    Moves s u (quotedBody s v i (fuel + 1)) k.ahead ()
      (Lexer.quotedBody v i (fuel + 1) k).ahead := by
  rw [ByOffset.quotedBody]
  refine .look .peek ?_
  cases hk : k.ahead with
  | nil =>
    rw [Lexer.quotedBody]
    simp only [hk]
    exact .pure
  | cons c r =>
    rw [hk, List.length_cons] at hf
    rw [quotedBody_cons hk]
    have hlater : ∀ (m : Cursor) (u : List Char), m.ahead.length ≤ r.length →
        Moves s u (quotedBody s v i fuel) m.ahead () (Lexer.quotedBody v i fuel m).ahead :=
      fun m u hm => h.quoted u v i m (by omega)
    have hnext : k.next.ahead = r := by simp [hk]
    have htwo : (k.skip 2).ahead = r.tail := by simp [hk]
    have hfar : (k.skip 2).ahead.length ≤ r.length := by simp [hk]
    -- A character that was seen, and whatever stands behind it.
    have hboth : r.head? = some c → c.utf8Size = 1 → Moves s u (advance 2) (c :: r) () r.tail := by
      intro hr hc
      obtain ⟨t, rfl⟩ : ∃ t, r = c :: t := List.head?_eq_some_iff.1 hr
      exact .advance (v := [c, c]) (by simp [hc])
    refine .look (.peekAt 1) ?_
    rw [List.getElem?_cons_succ, ← List.head?_eq_getElem?]
    refine .ite (fun hc => ?_) fun _ => .ite (fun hc => ?_) fun _ => .ite (fun hc => ?_) fun _ =>
      .ite (fun hc => ?_) fun _ => .ite (fun hc => ?_) fun _ => ?_
    · simp only [Bool.and_eq_true, beq_iff_eq] at hc
      obtain ⟨⟨rfl, -⟩, hr⟩ := hc
      exact (hboth hr rfl).bind fun u => htwo ▸ hlater (k.skip 2) u hfar
    · obtain rfl : c = '"' := by simpa using hc
      rw [hnext]
      exact .advanceOne rfl
    · simp only [Bool.and_eq_true, beq_iff_eq] at hc
      obtain ⟨rfl, -⟩ := hc
      refine (Moves.advanceOne rfl).bind fun _ => Moves.bump.bind fun u => ?_
      exact htwo ▸ hlater (k.skip 2) u hfar
    · rw [hk]
      exact .pure
    · simp only [Bool.and_eq_true, beq_iff_eq] at hc
      obtain ⟨rfl, -⟩ := hc
      refine .look (.peekAt 1) ?_
      rw [List.getElem?_cons_succ, ← List.head?_eq_getElem?]
      refine .ite (fun hr => ?_) fun _ => ?_
      · exact (hboth (by simpa using hr) rfl).bind fun u => htwo ▸ hlater (k.skip 2) u hfar
      · have hle := ((reaches_quotedBody_interpolation fuel).2 0 k.next).length_le
        refine (Moves.advanceOne rfl).bind fun u => ?_
        refine Moves.bind (hnext ▸ h.interpolation u 0 k.next (by rw [hnext]; omega)) fun u => ?_
        exact hlater _ u (hnext ▸ hle)
    · exact Moves.bump.bind fun u => hnext ▸ hlater k.next u (by rw [hnext])

theorem Moves.startsString : Moves s u (startsString s) k.ahead (Lexer.startsString k) k.ahead :=
  .look (.startsWith _) <| .look (.startsWith _) <| .look (.startsWith _) <|
    .look (.startsWith _) <| .look (.startsWith _) .pure

/-- One more round for an interpolation. -/
theorem Bodies.interpolation_succ (h : Bodies s fuel) (hf : k.ahead.length < fuel + 1) :
    Moves s u (ByOffset.interpolation s depth (fuel + 1)) k.ahead ()
      (Lexer.interpolation depth (fuel + 1) k).ahead := by
  rw [ByOffset.interpolation, Lexer.interpolation_succ]
  refine .look .peek ?_
  cases hk : k.ahead with
  | nil =>
    show Moves s u (pure ()) [] () k.ahead
    rw [hk]
    exact .pure
  | cons c r =>
    rw [hk, List.length_cons] at hf
    have hlater : ∀ (depth : Nat) (m : Cursor) (u : List Char), k.Advances m →
        Moves s u (ByOffset.interpolation s depth fuel) m.ahead ()
          (Lexer.interpolation depth fuel m).ahead := by
      intro depth m u hm
      have hlt := hm.2
      rw [hk, List.length_cons] at hlt
      exact h.interpolation u depth m (by omega)
    have hne : k.ahead ≠ [] := by simp [hk]
    have hnext : k.next.ahead = r := by simp [hk]
    have hone : ∀ depth, c.utf8Size = 1 →
        Moves s u (do advance 1; ByOffset.interpolation s depth fuel) (c :: r) ()
          (Lexer.interpolation depth fuel k.next).ahead := fun depth hc =>
      (Moves.advanceOne hc).bind fun u => hnext ▸ hlater depth k.next u (Cursor.advances_next hne)
    dsimp only [List.head?_cons]
    refine .ite (fun hc => hone _ ?_) fun _ => .ite (fun hc => hone _ ?_) fun _ =>
      .ite (fun hc => ?_) fun _ => ?_
    · simp only [Bool.or_eq_true, beq_iff_eq] at hc
      rcases hc with (rfl | rfl) | rfl <;> rfl
    · simp only [Bool.or_eq_true, beq_iff_eq] at hc
      rcases hc with rfl | rfl <;> rfl
    · obtain rfl : c = '\x7d' := by simpa using hc
      refine (Moves.advanceOne rfl).bind fun u => .ite (fun _ => hnext ▸ .pure) fun _ => ?_
      exact hnext ▸ hlater (depth - 1) k.next u (Cursor.advances_next hne)
    have hlook : Moves s u (startsString s) (c :: r) (Lexer.startsString k) (c :: r) :=
      hk ▸ Moves.startsString
    refine hlook.look ?_
    have hquote : ((c == '"' || c == '$' || c == '@') && Lexer.startsString k) =
        Lexer.startsString k := by
      cases hs : Lexer.startsString k with
      | false => simp
      | true => rw [head_of_startsString hk hs, Bool.true_and]
    rw [hquote]
    refine .ite (fun hs => ?_) fun _ => .ite (fun hc => ?_) fun _ => .ite (fun _ => hk ▸ .pure)
      fun _ => Moves.bump.bind fun u => hnext ▸ hlater depth k.next u (Cursor.advances_next hne)
    · have hopens := opensString_of_startsString hs
      have hlt := (advances_openString hopens).2
      rw [hk, List.length_cons] at hlt
      have hstring : Moves s u (stringLike s (fuel + 1) fun v i => quotedBody s v i fuel) k.ahead
          (stringKind k.ahead) (stringLiteral fuel k).ahead :=
        .stringLike (isBrokenString_of_startsString hs) (by rw [hk, List.length_cons]; omega)
          fun u v i => h.quoted u v i (openString k) (by omega)
      rw [hk] at hstring
      exact hstring.bind fun u => hlater depth _ u (advances_stringLiteral hopens)
    · obtain rfl : c = '\'' := by simpa using hc
      have hchar : Moves s u (charLiteral s (fuel + 1)) k.ahead () (Lexer.charLiteral k).ahead :=
        .charLiteral (by rw [hk]; rfl) (by rw [hk, List.length_cons]; omega)
      rw [hk] at hchar
      exact hchar.bind fun u => hlater depth _ u (advances_charLiteral hne)

theorem bodies (s : List Char) (fuel : Nat) : Bodies s fuel := by
  induction fuel with
  | zero => exact ⟨fun _ _ _ _ h => absurd h (Nat.not_lt_zero _),
      fun _ _ _ h => absurd h (Nat.not_lt_zero _)⟩
  | succ fuel ih => exact ⟨fun _ _ _ _ => ih.quoted_succ, fun _ _ _ => ih.interpolation_succ⟩

end bodies

/-! ### Tokens -/

theorem narrow_of_mem_punctuators {p : String} (h : p ∈ punctuators) :
    Narrow p.toList ∧ p.utf8ByteSize = p.toList.length := by
  have hall : ∀ q ∈ punctuators, Narrow q.toList ∧ q.utf8ByteSize = q.toList.length := by decide
  exact hall p h

theorem utf8Size_of_isPunct (h : isPunct c = true) : c.utf8Size = 1 := by
  have hall : Narrow "\x7b\x7d()[];,.:?=<>+-*/%&|^!~".toList := by decide
  exact hall c (by simpa [isPunct] using h)

/-- A word is read to its end and then looked up among the keywords. -/
theorem Moves.word (hf : r.length < fuel) :
    Moves s u (do
        ByOffset.eatWhile s isWordPart fuel
        return if keywords.contains (← ByOffset.take s (byteLength u)) then TokenKind.keyword
          else .identifier) r
      (if isKeyword ((start r).skipWhile isWordPart).lexeme then .keyword else .identifier)
      ((start r).skipWhile isWordPart).ahead := by
  have heat : Moves s u (ByOffset.eatWhile s isWordPart fuel) r () _ := .eatWhile isWordPart hf
  refine heat.bindFrom fun v hv => ?_
  have htaken := taken_eq_of_reaches (Cursor.reaches_skipWhile isWordPart (start r)) hv
  have hlexeme : ((start r).skipWhile isWordPart).lexeme = String.ofList v := by
    simp [Cursor.lexeme, htaken]
  rw [hlexeme, isKeyword_eq_contains]
  exact .look (.take v) .pure

theorem Moves.tokenKind {t : List Char} {kind : TokenKind} {k : Cursor}
    (hf : (c :: t).length < fuel) (h : Lexer.token fuel (c :: t) = .ok (kind, k)) :
    Moves s u (tokenKind s fuel c) (c :: t) kind k.ahead := by
  have hnext : (start (c :: t)).next.ahead = t := rfl
  refine .look .here (.look (.peekAt 1) ?_)
  rw [List.getElem?_cons_succ, ← List.head?_eq_getElem?, ← opensString_cons, ← startsNumber_cons]
  unfold Lexer.token at h
  dsimp only at h
  by_cases hopens : opensString (c :: t) = true
  · rw [if_pos hopens] at h ⊢
    split at h
    · cases h
    · rename_i hbroken
      cases h
      have hlt := (advances_openString (k := start (c :: t)) hopens).2
      refine .stringLike (k := start (c :: t)) (Bool.eq_false_iff.2 hbroken) hf fun u v i => ?_
      exact (bodies s fuel).quoted u v i _ (Nat.lt_trans hlt hf)
  rw [if_neg hopens] at h ⊢
  by_cases hchar : (c == '\'') = true
  · rw [if_pos hchar] at h ⊢
    cases h
    obtain rfl : c = '\'' := by simpa using hchar
    exact Moves.bind (.charLiteral (k := start _) rfl hf) fun _ => .pure
  rw [if_neg hchar] at h ⊢
  simp only [List.length_cons] at hf
  by_cases hat : (c == '@' && t.head?.any isWordStart) = true
  · rw [if_pos hat] at h ⊢
    cases h
    have hc : c = '@' := by
      simp only [Bool.and_eq_true, beq_iff_eq] at hat
      exact hat.1
    subst hc
    refine (Moves.advanceOne rfl).bind fun _ => Moves.bind (.eatWhile _ (by omega)) fun _ => .pure
  rw [if_neg hat] at h ⊢
  by_cases hword : isWordStart c = true
  · rw [if_pos hword] at h ⊢
    cases h
    exact .word (by simp only [List.length_cons]; omega)
  rw [if_neg hword] at h ⊢
  by_cases hnumber : startsNumber (c :: t) = true
  · rw [if_pos hnumber] at h ⊢
    cases h
    exact Moves.bind (.number (k := start _) (by simp [start]; omega)) fun _ => .pure
  rw [if_neg hnumber] at h ⊢
  refine .look .rest ?_
  have hfind : (punctuators.find? fun p => p.toList.isPrefixOf (c :: t)) =
      punctuators.find? (start (c :: t)).startsWith := rfl
  rw [hfind]
  cases hp : punctuators.find? (start (c :: t)).startsWith with
  | some p =>
    rw [hp] at h
    cases h
    have hprefix : (start (c :: t)).startsWith p = true := List.find?_some hp
    obtain ⟨hnarrow, hsize⟩ := narrow_of_mem_punctuators (List.mem_of_find?_eq_some hp)
    dsimp only
    rw [hsize, Cursor.ahead_skip, ← String.length_toList]
    exact Moves.bind (.advanceOver hprefix hnarrow) fun _ => .pure
  | none =>
    rw [hp] at h
    cases h
    dsimp only
    by_cases hpunct : isPunct c = true
    · rw [if_pos hpunct, if_pos hpunct]
      exact (Moves.advanceOne (utf8Size_of_isPunct hpunct)).bind fun _ => .pure
    · rw [if_neg hpunct, if_neg hpunct]
      exact Moves.bump.bind fun _ => .pure

theorem Moves.token {kind : TokenKind} {k : Cursor} (hf : r.length < fuel) (hr : r ≠ [])
    (h : Lexer.token fuel r = .ok (kind, k)) :
    Moves s u (token s fuel) r (kind, k.lexeme) k.ahead := by
  cases r with
  | nil => exact absurd rfl hr
  | cons c t =>
    refine .look .here (.look .peek ?_)
    refine Moves.bindFrom (.tokenKind hf h) fun v hv => .look (.take v) ?_
    have htaken := taken_eq_of_reaches (advances_token h hr).1.1 hv
    have hlexeme : k.lexeme = String.ofList v := by simp [Cursor.lexeme, htaken]
    rw [hlexeme]
    exact .pure

/-- No text begins behind the marks of a broken literal and one more byte. -/
theorem dropBytes?_of_isBrokenString (h : isBrokenString r = true) (u : List Char) :
    Text.dropBytes? (byteLength u + 1) (u ++ r.dropWhile isSigil) = none := by
  rw [Text.dropBytes?_append_add]
  unfold isBrokenString at h
  split at h
  · rename_i hr
    rw [hr, Text.dropBytes?]
  · rename_i c t hr
    have hc : c.utf8Size ≠ 1 := by
      rw [Ne, utf8Size_eq_one_iff]
      simpa using h
    have hpos := c.utf8Size_pos
    rw [hr, Text.dropBytes?, if_neg (by omega)]

theorem rest_eq_error {h : Head} (hpos : Text.dropBytes? h.pos s = none) :
    rest s h = .error .outside := by
  rw [ByOffset.rest, bind_eq_of_ok (here_run h), hpos]
  rfl

/-- Without a character in front of the body the offset is no boundary when the body is read. -/
theorem Strays.quoted {marks : List Char} {body : Bool → Bool → Scan Unit}
    (hr : isBrokenString r = true)
    (hbody : ∀ v i h, Text.dropBytes? h.pos s = none → body v i h = .error .outside) :
    Strays s u (quoted s marks body) (r.dropWhile isSigil) := by
  refine Moves.lookStrays .countQuotes ?_
  have hquotes : ((r.dropWhile isSigil).takeWhile (· == '"')).length = 0 := by
    unfold isBrokenString at hr
    split at hr
    · rename_i ht
      rw [ht]
      rfl
    · rename_i c t ht
      have hc : c ≠ '"' := by
        rintro rfl
        exact absurd hr (by decide)
      simp [ht, hc]
  rw [hquotes, if_neg (by decide)]
  intro hs visited
  rw [bind_eq_of_ok (advance_run 1 _)]
  refine hbody _ _ _ ?_
  rw [hs]
  exact dropBytes?_of_isBrokenString hr u

theorem Strays.token {e : Lexer.Error} (hf : r.length < fuel) (h : Lexer.token fuel r = .error e) :
    Strays s u (token s fuel) r := by
  obtain ⟨-, hopens, hbroken⟩ := token_eq_error_iff.1 h
  cases r with
  | nil => cases hopens
  | cons c t =>
    refine Moves.lookStrays .here (Moves.lookStrays .peek (Strays.bind ?_))
    refine Moves.lookStrays .here (Moves.lookStrays (.peekAt 1) ?_)
    rw [List.getElem?_cons_succ, ← List.head?_eq_getElem?, ← opensString_cons, if_pos hopens]
    have hsplit : c :: t = (c :: t).takeWhile isSigil ++ (c :: t).dropWhile isSigil :=
      List.takeWhile_append_dropWhile.symm
    refine Moves.bindStrays (.sigils hf) hsplit (Strays.bind (Strays.quoted hbroken ?_))
    intro v i head hpos
    cases fuel with
    | zero => omega
    | succ fuel =>
      have hpeek : peek s head = .error .outside := bind_eq_of_error (rest_eq_error hpos)
      rw [ByOffset.quotedBody, bind_eq_of_error hpeek]

end

/-! ### Places -/

section places

variable {α β : Type} {s : List Char} {a : α} {b : β} {p : Scan α} {f : α → Scan β} {fuel : Nat}
  {x y z : Place}

/-- From one place the scan leads to another and gives `a`. All offsets on the way are
boundaries. -/
def Leads (s : List Char) (p : Scan α) (x : Place) (a : α) (y : Place) : Prop :=
  (∃ v, x.Reads v y) ∧ Moves s x.behind.reverse p x.ahead a y.ahead

theorem Leads.bind (h : Leads s p x a y) (h' : Leads s (f a) y b z) : Leads s (p >>= f) x b z := by
  obtain ⟨⟨v, hv⟩, hmoves⟩ := h
  obtain ⟨⟨w, hw⟩, hmoves'⟩ := h'
  refine ⟨⟨v ++ w, hv.trans hw⟩, hmoves.bindFrom fun v' hv' => ?_⟩
  obtain rfl : v = v' := List.append_cancel_right (hv.1.symm.trans hv')
  simpa [hv.2] using hmoves'

theorem Leads.bindStrays (h : Leads s p x a y) (h' : Strays s y.behind.reverse (f a) y.ahead) :
    Strays s x.behind.reverse (p >>= f) x.ahead := by
  obtain ⟨⟨v, hv⟩, hmoves⟩ := h
  refine hmoves.bindStrays hv.1 ?_
  simpa [hv.2] using h'

theorem Leads.look (h : Moves s x.behind.reverse p x.ahead a x.ahead) : Leads s p x a x :=
  ⟨⟨[], .refl x⟩, h⟩

theorem Leads.pure : Leads s (pure a) x a x := .look .pure

theorem Leads.trivia (trailing : Bool) (hf : x.ahead.length < fuel) :
    Leads s (trivia s trailing fuel) x (Lexer.trivia trailing fuel x).1
      (Lexer.trivia trailing fuel x).2 := by
  refine ⟨⟨_, (reads_trivia trailing fuel x).1⟩, ?_⟩
  have hmoves : Moves s x.behind.reverse _ x.ahead _ _ := .trivia trailing hf
  rwa [List.reverse_reverse] at hmoves

theorem Leads.token {kind : TokenKind} {k : Cursor} (hf : x.ahead.length < fuel) (hx : x.ahead ≠ [])
    (h : Lexer.token fuel x.ahead = .ok (kind, k)) :
    Leads s (token s fuel) x (kind, k.lexeme) ⟨k.taken ++ x.behind, k.ahead⟩ :=
  ⟨⟨_, .of_reaches (advances_token h hx).1.1⟩, .token hf hx h⟩

/-- A token and the trivia behind it. Each token takes a character, so the rounds suffice for what
is behind it. -/
theorem Leads.tokenAndTrivia {kind : TokenKind} {k : Cursor} (hf : x.ahead.length < fuel + 1)
    (hx : x.ahead ≠ []) (h : Lexer.token (fuel + 1) x.ahead = .ok (kind, k))
    (hy : y = ⟨k.taken ++ x.behind, k.ahead⟩) :
    Leads s (ByOffset.token s (fuel + 1)) x (kind, k.lexeme) y ∧
      Leads s (ByOffset.trivia s true (fuel + 1)) y (Lexer.trivia true (fuel + 1) y).1
        (Lexer.trivia true (fuel + 1) y).2 ∧
      (Lexer.trivia true (fuel + 1) y).2.ahead.length < fuel := by
  have hlt : y.ahead.length < x.ahead.length := by
    rw [hy]
    exact (advances_token h hx).1.2
  have hle := (reads_trivia true (fuel + 1) y).1.length_le
  exact ⟨hy ▸ .token hf hx h, .trivia true (by omega), by omega⟩

/-- The tokens of a text are found in step too. -/
theorem Leads.tokensFrom {ts : List Token} (hf : x.ahead.length < fuel)
    (h : Lexer.tokensFrom fuel x = .ok ts) : ∃ y, Leads s (tokensFrom s fuel) x ts y := by
  induction fuel generalizing x ts with
  | zero => omega
  | succ fuel ih =>
    rw [ByOffset.tokensFrom]
    have hlead : Leads s _ x _ _ := .trivia false hf
    have hle := (reads_trivia false (fuel + 1) x).1.length_le
    obtain ⟨hend, rfl⟩ | ⟨kind, k, rest, hne, htok, hrest, rfl⟩ := tokensFrom_succ h
    · refine ⟨(Lexer.trivia false (fuel + 1) x).2, hlead.bind (Leads.bind (.look .atEnd) ?_)⟩
      rw [hend]
      exact .pure
    · obtain ⟨htoken, htrail, hlt⟩ := Leads.tokenAndTrivia (s := s) (by omega) hne htok rfl
      obtain ⟨y, hy⟩ := ih hlt hrest
      refine ⟨y, hlead.bind (Leads.bind (.look .atEnd) ?_)⟩
      rw [List.isEmpty_eq_false_iff.2 hne]
      exact htoken.bind (htrail.bind (hy.bind .pure))

/-- Both scanners come to the same broken literal. -/
theorem Strays.tokensFrom {e : Lexer.Error} (hf : x.ahead.length < fuel)
    (h : Lexer.tokensFrom fuel x = .error e) :
    Strays s x.behind.reverse (tokensFrom s fuel) x.ahead := by
  induction fuel generalizing x with
  | zero => omega
  | succ fuel ih =>
    rw [ByOffset.tokensFrom]
    have hlead : Leads s _ x _ _ := .trivia false hf
    have hle := (reads_trivia false (fuel + 1) x).1.length_le
    obtain ⟨hne, hlater⟩ := tokensFrom_succ_error h
    refine hlead.bindStrays (Leads.bindStrays (.look .atEnd) ?_)
    rw [List.isEmpty_eq_false_iff.2 hne]
    rcases hlater with htok | ⟨kind, k, htok, hrest⟩
    · exact Strays.bind (.token (by omega) htok)
    · obtain ⟨htoken, htrail, hlt⟩ := Leads.tokenAndTrivia (s := s) (by omega) hne htok rfl
      exact htoken.bindStrays (htrail.bindStrays (Strays.bind (ih hlt hrest)))

end places

end ByOffset

end PluginLint.Lexer
