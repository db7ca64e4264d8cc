import PluginLint.Syntax.Lexer
import Mathlib.Tactic.SplitIfs

/-!
# Tokens give the text back

A scanner moves characters from the front of what is ahead to what is taken, and does nothing else.
That is the only fact about the scanners of literals and trivia that is needed here: whatever they
decide to take, nothing is lost. A token takes at least one character, so the bound on the number of
tokens is never reached.
-/
namespace PluginLint

namespace Cursor

/-- `k'` comes from `k` by taking characters. -/
def Reaches (k k' : Cursor) : Prop :=
  ∃ u, k.ahead = u ++ k'.ahead ∧ k'.taken = u.reverse ++ k.taken

namespace Reaches

@[refl] theorem refl (k : Cursor) : k.Reaches k := ⟨[], by simp, by simp⟩

theorem trans {k l m : Cursor} (h : k.Reaches l) (h' : l.Reaches m) : k.Reaches m := by
  obtain ⟨u, hu, hu'⟩ := h
  obtain ⟨v, hv, hv'⟩ := h'
  exact ⟨u ++ v, by simp [hu, hv], by simp [hu', hv']⟩

theorem cons {taken ahead : List Char} {c : Char} {k : Cursor}
    (h : Reaches ⟨c :: taken, ahead⟩ k) : Reaches ⟨taken, c :: ahead⟩ k :=
  trans ⟨[c], by simp, by simp⟩ h

theorem length_le {k k' : Cursor} (h : k.Reaches k') : k'.ahead.length ≤ k.ahead.length := by
  obtain ⟨u, hu, -⟩ := h
  simp [hu]

/-- From the start of a text, what is taken and what is ahead make up the text. -/
theorem toList_lexeme {s : List Char} {k : Cursor} (h : (start s).Reaches k) :
    k.lexeme.toList ++ k.ahead = s := by
  obtain ⟨u, hu, hu'⟩ := h
  simp_all [start, lexeme]

end Reaches

theorem reaches_next (k : Cursor) : k.Reaches k.next := by
  obtain ⟨taken, ahead⟩ := k
  cases ahead with
  | nil => exact .refl _
  | cons c rest => exact .cons (.refl _)

theorem reaches_skip (n : Nat) (k : Cursor) : k.Reaches (skip n k) := by
  induction n generalizing k with
  | zero => exact .refl _
  | succ n ih => exact (reaches_next k).trans (ih k.next)

theorem reaches_skipWhile (p : Char → Bool) (k : Cursor) : k.Reaches (k.skipWhile p) :=
  ⟨k.ahead.takeWhile p, by simp [skipWhile], rfl⟩

/-- Some character has been taken between the two. -/
def Advances (k k' : Cursor) : Prop := k.Reaches k' ∧ k'.ahead.length < k.ahead.length

theorem Advances.reaches {k l m : Cursor} (h : k.Advances l) (h' : l.Reaches m) : k.Advances m :=
  ⟨h.1.trans h', Nat.lt_of_le_of_lt h'.length_le h.2⟩

theorem advances_next {k : Cursor} (h : k.ahead ≠ []) : k.Advances k.next := by
  refine ⟨reaches_next k, ?_⟩
  obtain ⟨taken, ahead⟩ := k
  cases ahead with
  | nil => exact absurd rfl h
  | cons c rest => simp [next]

theorem advances_skip {n : Nat} {k : Cursor} (hn : n ≠ 0) (h : k.ahead ≠ []) :
    k.Advances (skip n k) := by
  cases n with
  | zero => exact absurd rfl hn
  | succ n => exact (advances_next h).reaches (reaches_skip n k.next)

theorem advances_skipWhile {p : Char → Bool} {k : Cursor} {c : Char} (h : k.ahead.head? = some c)
    (hc : p c = true) : k.Advances (k.skipWhile p) := by
  refine ⟨reaches_skipWhile p k, ?_⟩
  obtain ⟨taken, ahead⟩ := k
  cases ahead with
  | nil => cases h
  | cons d rest =>
    obtain rfl : d = c := by simpa using h
    have := (List.dropWhile_suffix p (l := rest)).length_le
    simp only [skipWhile, List.dropWhile_cons, hc, if_true, List.length_cons]
    omega

end Cursor

namespace Lexer

open Cursor

/-! ### Scanners of trivia -/

theorem reaches_blockComment_go (taken ahead : List Char) :
    Reaches ⟨taken, ahead⟩ (blockComment.go taken ahead) := by
  fun_induction blockComment.go taken ahead with
  | case1 taken => exact .refl _
  | case2 taken rest => exact .cons (.cons (.refl _))
  | case3 taken c rest h ih => exact .cons ih

theorem reaches_blockComment (k : Cursor) : k.Reaches (blockComment k) :=
  reaches_blockComment_go k.taken k.ahead

/-- A piece of trivia has at least one character. -/
theorem advances_triviaPiece {trailing : Bool} {behind : List Char} {k k' : Cursor}
    {kind : TriviaKind} (h : triviaPiece trailing behind k = some (kind, k')) : k.Advances k' := by
  unfold triviaPiece at h
  split at h
  · cases h
  · rename_i c rest hk
    have hne : k.ahead ≠ [] := by simp [hk]
    have hin : isInLine '/' = true := by decide
    have slash : ∀ lit : String, lit.toList.head? = some '/' → k.startsWith lit = true → c = '/' := by
      intro lit hl hs
      simp only [startsWith, hk] at hs
      cases hlit : lit.toList with
      | nil => simp [hlit] at hl
      | cons d ds =>
        simp only [hlit, List.head?_cons, Option.some.injEq] at hl
        simp only [hlit, List.isPrefixOf, Bool.and_eq_true, beq_iff_eq] at hs
        exact hs.1.symm.trans hl
    split_ifs at h with h₁ h₂ h₃ h₄ h₅ h₆ h₇ <;> cases h
    · exact advances_skipWhile (by rw [hk]; rfl) h₁
    · exact advances_skip (by decide) hne
    · exact advances_next hne
    · have hc := slash "///" rfl (by simp only [Bool.and_eq_true] at h₄; exact h₄.1)
      exact advances_skipWhile (c := c) (by rw [hk]; rfl) (by rw [hc]; exact hin)
    · exact advances_skipWhile (c := c) (by rw [hk]; rfl) (by rw [slash "//" rfl h₅]; exact hin)
    · exact (advances_skip (by decide) hne).reaches (reaches_blockComment _)
    · have hc : c = '#' := by simp only [Bool.and_eq_true, beq_iff_eq] at h₇; exact h₇.1.1
      exact advances_skipWhile (c := c) (by rw [hk]; rfl) (by rw [hc]; decide)

/-! ### Scanners of literals -/

theorem reaches_exponent (k : Cursor) : k.Reaches (exponent k) := by
  have signed := (reaches_skip 2 k).trans (reaches_skipWhile Char.isDigit _)
  have plain := (reaches_next k).trans (reaches_skipWhile Char.isDigit _)
  unfold exponent
  split
  · split <;> first | exact .refl _ | (split <;> first | exact .refl _ | exact signed | exact plain)
  · split <;> first | exact .refl _ | (split <;> first | exact .refl _ | exact signed | exact plain)
  · exact .refl _

theorem reaches_fraction (k : Cursor) : k.Reaches (fraction k) := by
  unfold fraction
  split
  · split
    · exact (reaches_next k).trans (reaches_skipWhile _ _)
    · exact .refl _
  · exact .refl _

/-- A number has at least one character. -/
theorem advances_number {k : Cursor} (h : startsNumber k.ahead = true) : k.Advances (number k) := by
  have hne : k.ahead ≠ [] := by
    intro hk
    simp [hk, startsNumber] at h
  unfold number
  refine Advances.reaches ?_ (reaches_skipWhile _ _)
  split
  · exact (advances_skip (by decide) hne).reaches (reaches_skipWhile _ _)
  split
  · exact (advances_skip (by decide) hne).reaches (reaches_skipWhile _ _)
  refine Advances.reaches ?_ (reaches_exponent _)
  unfold startsNumber at h
  split at h
  · rename_i d rest hk
    -- The digits in front of a point may be missing, and then the point is taken.
    have hskip : k.skipWhile isDigitOrBar = k := by
      have hp : isDigitOrBar '.' = false := by decide
      simp [skipWhile, hk, hp]
      rw [← hk]
    rw [hskip]
    simp only [fraction, hk, h, if_true]
    exact (advances_next hne).reaches (reaches_skipWhile _ _)
  · rename_i c rest _ hk
    refine Advances.reaches (advances_skipWhile (c := c) (by simp [hk]) ?_) (reaches_fraction _)
    simp [isDigitOrBar, h]
  · cases h

theorem reaches_charLiteral_go (taken ahead : List Char) :
    Reaches ⟨taken, ahead⟩ (charLiteral.go taken ahead) := by
  fun_induction charLiteral.go taken ahead with
  | case1 taken => exact .refl _
  | case2 taken => exact .cons (.refl _)
  | case3 taken c rest ih => exact .cons (.cons ih)
  | case4 taken c rest h₁ h₂ hc => exact .cons (.refl _)
  | case5 taken c rest h₁ h₂ hc ih => exact .cons ih

theorem advances_charLiteral {k : Cursor} (h : k.ahead ≠ []) : k.Advances (charLiteral k) :=
  (advances_next h).reaches (reaches_charLiteral_go k.next.taken k.next.ahead)

theorem reaches_openString (k : Cursor) : k.Reaches (openString k) := by
  unfold openString
  refine (reaches_skipWhile isSigil k).trans ?_
  split
  · exact reaches_skip _ _
  · exact reaches_next _

theorem reaches_rawBody_go (n : Nat) (taken ahead : List Char) :
    Reaches ⟨taken, ahead⟩ (rawBody.go n taken ahead) := by
  fun_induction rawBody.go n taken ahead with
  | case1 taken => exact .refl _
  | case2 taken c rest h => exact reaches_skipWhile _ _
  | case3 taken c rest h ih => exact .cons ih

theorem reaches_rawBody (n : Nat) (k : Cursor) : k.Reaches (rawBody n k) :=
  reaches_rawBody_go n k.taken k.ahead

theorem reaches_encodingMark (k : Cursor) : k.Reaches (encodingMark k) := by
  unfold encodingMark
  split
  · exact reaches_skip 2 k
  · exact .refl _

/-- The body of a literal and the interpolations in it contain one another, so both are shown to
take characters only, together, by induction on the bound that they share. -/
theorem reaches_quotedBody_interpolation (fuel : Nat) :
    (∀ v i k, Reaches k (quotedBody v i fuel k)) ∧
      ∀ depth k, Reaches k (interpolation depth fuel k) := by
  induction fuel with
  | zero => exact ⟨fun v i k => by rw [quotedBody], fun depth k => by rw [interpolation]⟩
  | succ fuel ih =>
    obtain ⟨ihq, ihi⟩ := ih
    refine ⟨fun v i k => ?_, fun depth k => ?_⟩
    · rw [quotedBody]
      split
      · exact .refl _
      · split
        · exact (reaches_skip 2 k).trans (ihq _ _ _)
        · exact reaches_next k
      · exact reaches_next k
      · refine Reaches.trans ?_ (ihq _ _ _)
        split
        · exact reaches_next k
        · exact reaches_skip 2 k
      · split
        · exact (reaches_next k).trans (ihq _ _ _)
        · exact .refl _
      · refine Reaches.trans ?_ (ihq _ _ _)
        split
        · exact reaches_skip 2 k
        · exact reaches_next k
      · split
        · exact ((reaches_next k).trans (ihi _ _)).trans (ihq _ _ _)
        · exact (reaches_next k).trans (ihq _ _ _)
      · exact (reaches_next k).trans (ihq _ _ _)
    · rw [interpolation]
      split
      · exact .refl _
      · split_ifs
        · exact (reaches_next k).trans (ihi _ _)
        · exact (reaches_next k).trans (ihi _ _)
        · exact reaches_next k
        · exact (reaches_next k).trans (ihi _ _)
        · refine Reaches.trans ?_ (ihi _ _)
          refine Reaches.trans ?_ (reaches_encodingMark _)
          refine (reaches_openString k).trans ?_
          split
          · exact reaches_rawBody _ _
          · exact ihq _ _ _
        · exact (advances_charLiteral (by simp_all)).1.trans (ihi _ _)
        · exact .refl _
        · exact (reaches_next k).trans (ihi _ _)

theorem advances_openString {k : Cursor} (h : opensString k.ahead = true) :
    k.Advances (openString k) := by
  have hne : k.ahead ≠ [] := by
    intro hk
    simp [hk, opensString] at h
  unfold openString
  by_cases hd : (k.ahead.head?.any isSigil) = true
  · obtain ⟨c, hc, hs⟩ := Option.any_eq_true _ _ |>.1 hd
    refine (advances_skipWhile hc hs).reaches ?_
    split
    · exact reaches_skip _ _
    · exact reaches_next _
  · -- Without marks the first character is the quote itself.
    have hskip : k.skipWhile isSigil = k := by
      obtain ⟨taken, ahead⟩ := k
      cases ahead with
      | nil => exact absurd rfl hne
      | cons c rest =>
        have hc : isSigil c = false := by simpa using hd
        simp [skipWhile, hc]
    rw [hskip]
    split
    · rename_i n hn
      refine advances_skip ?_ hne
      intro h0
      simp only [stringForm] at hn
      split at hn
      · simp only [StringForm.raw.injEq] at hn
        omega
      · cases hn
    · exact advances_next hne

theorem advances_stringLiteral {fuel : Nat} {k : Cursor} (h : opensString k.ahead = true) :
    k.Advances (stringLiteral fuel k) := by
  unfold stringLiteral
  refine Advances.reaches ?_ (reaches_encodingMark _)
  refine (advances_openString h).reaches ?_
  split
  · exact reaches_rawBody _ _
  · exact (reaches_quotedBody_interpolation fuel).1 _ _ _

/-! ### Tokens -/

/-- Where a token is read, at least one character is taken, and the kind is not the end. -/
theorem advances_token {fuel : Nat} {s : List Char} {kind : TokenKind} {k : Cursor}
    (h : token fuel s = .ok (kind, k)) (hs : s ≠ []) :
    (start s).Advances k ∧ kind ≠ .endOfFile := by
  -- Every branch gives a kind that is written out and a cursor that has moved.
  have done : ∀ {kind' : TokenKind} {k' : Cursor}, (start s).Advances k' → kind' ≠ .endOfFile →
      Except.ok (ε := Error) (kind', k') = .ok (kind, k) →
      (start s).Advances k ∧ kind ≠ .endOfFile := by
    intro kind' k' hk' hkind' he
    simp only [Except.ok.injEq, Prod.mk.injEq] at he
    exact ⟨he.2 ▸ hk', he.1 ▸ hkind'⟩
  unfold token at h
  dsimp only at h
  split at h
  · rename_i ho
    split at h
    · cases h
    · refine done (advances_stringLiteral ho) ?_ h
      unfold stringKind
      split <;> decide
  split at h
  · exact absurd rfl hs
  rename_i c rest ho
  have hne : (start (c :: rest)).ahead ≠ [] := by simp [start]
  have hhead : (start (c :: rest)).ahead.head? = some c := rfl
  split at h
  · exact done (advances_charLiteral hne) (by decide) h
  split at h
  · exact done ((advances_next hne).reaches (reaches_skipWhile _ _)) (by decide) h
  split at h
  · rename_i hw
    refine done (advances_skipWhile hhead ?_) (by split <;> decide) h
    simp only [isWordStart, isWordPart, Bool.or_eq_true] at hw ⊢
    exact hw.imp_right Text.isWordChar_of_isLetter
  split at h
  · rename_i hnum
    exact done (advances_number hnum) (by decide) h
  split at h
  · rename_i p hp
    have hlen : ∀ q ∈ punctuators, q.length ≠ 0 := by decide
    exact done (advances_skip (hlen p (List.mem_of_find?_eq_some hp)) hne) (by decide) h
  · exact done (advances_next hne) (by split <;> decide) h

/-- The marks of a string literal are all that a token can fail at. -/
theorem eq_brokenString_of_token {fuel : Nat} {s : List Char} {e : Panic}
    (h : token fuel s = .error e) : e = .brokenString := by
  unfold token at h
  dsimp only at h
  split at h
  · split at h
    · cases h
      rfl
    · cases h
  split at h
  · cases h
  split_ifs at h
  all_goals
    split at h
    · cases h
    · cases h

theorem eq_brokenString_of_tokensFrom {fuel : Nat} {p : Place} {e : Panic}
    (h : tokensFrom fuel p = .error e) : e = .brokenString := by
  induction fuel generalizing p with
  | zero => cases h
  | succ fuel ih =>
    rw [tokensFrom] at h
    dsimp only at h
    split at h
    · cases h
    cases ht : token (fuel + 1) (trivia false (fuel + 1) p).2.ahead with
    | error e' =>
      simp only [ht, bind, Except.bind, Except.error.injEq] at h
      exact h ▸ eq_brokenString_of_token ht
    | ok r =>
      simp only [ht, bind, Except.bind] at h
      split at h
      · rename_i e' he
        cases h
        exact ih he
      · cases h

/-! ### Places in a file -/

/-- `q` is the place behind the characters `u` that come next at `p`. -/
def Place.Reads (p : Place) (u : List Char) (q : Place) : Prop :=
  p.ahead = u ++ q.ahead ∧ q.behind = u.reverse ++ p.behind

namespace Place.Reads

theorem refl (p : Place) : p.Reads [] p := ⟨rfl, rfl⟩

theorem trans {p q r : Place} {u v : List Char} (h : p.Reads u q) (h' : q.Reads v r) :
    p.Reads (u ++ v) r :=
  ⟨by simp [h.1, h'.1], by simp [h.2, h'.2]⟩

theorem length_le {p q : Place} {u : List Char} (h : p.Reads u q) :
    q.ahead.length ≤ p.ahead.length := by
  simp [h.1]

/-- What a scanner takes at a place. -/
theorem of_reaches {behind s : List Char} {k : Cursor} (h : (start s).Reaches k) :
    Place.Reads ⟨behind, s⟩ k.lexeme.toList ⟨k.taken ++ behind, k.ahead⟩ := by
  refine ⟨h.toList_lexeme.symm, ?_⟩
  simp [lexeme]

end Place.Reads

theorem lexeme_ne_empty {s : List Char} {k : Cursor} (h : (start s).Advances k) :
    k.lexeme ≠ "" := by
  intro he
  have hs := h.1.toList_lexeme
  have hlt := h.2
  simp [he] at hs
  simp [hs, start] at hlt

theorem reads_trivia (trailing : Bool) (fuel : Nat) (p : Place) :
    p.Reads (Trivia.render (trivia trailing fuel p).1).toList (trivia trailing fuel p).2 ∧
      ∀ t ∈ (trivia trailing fuel p).1, t.text ≠ "" := by
  induction fuel generalizing p with
  | zero => exact ⟨.refl p, by simp [trivia]⟩
  | succ fuel ih =>
    rw [trivia]
    split
    · exact ⟨.refl p, by simp⟩
    · rename_i kind k hk
      have hadv := advances_triviaPiece hk
      have hread : p.Reads k.lexeme.toList ⟨k.taken ++ p.behind, k.ahead⟩ :=
        .of_reaches hadv.1
      obtain ⟨ihr, iht⟩ := ih ⟨k.taken ++ p.behind, k.ahead⟩
      split
      · exact ⟨by simpa using hread, by simpa using lexeme_ne_empty hadv⟩
      · refine ⟨by simpa using hread.trans ihr, ?_⟩
        intro t ht
        rcases List.mem_cons.1 ht with rfl | ht
        · exact lexeme_ne_empty hadv
        · exact iht t ht

/-- One round of reading tokens: leading trivia, then either the end of the file, or a token, its
trailing trivia and the tokens behind it. -/
theorem tokensFrom_succ {fuel : Nat} {p : Place} {ts : List Token}
    (h : tokensFrom (fuel + 1) p = .ok ts) :
    ((trivia false (fuel + 1) p).2.ahead = [] ∧ ts = [.endOfFile (trivia false (fuel + 1) p).1]) ∨
      ∃ kind k rest, (trivia false (fuel + 1) p).2.ahead ≠ [] ∧
        token (fuel + 1) (trivia false (fuel + 1) p).2.ahead = .ok (kind, k) ∧
        tokensFrom fuel (trivia true (fuel + 1)
          ⟨k.taken ++ (trivia false (fuel + 1) p).2.behind, k.ahead⟩).2 = .ok rest ∧
        ts = ⟨kind, k.lexeme, (trivia false (fuel + 1) p).1, (trivia true (fuel + 1)
          ⟨k.taken ++ (trivia false (fuel + 1) p).2.behind, k.ahead⟩).1⟩ :: rest := by
  rw [tokensFrom] at h
  dsimp only at h
  split at h
  · rename_i he
    refine .inl ⟨by simpa using he, ?_⟩
    simpa [pure, Except.pure] using h.symm
  · rename_i he
    refine .inr ?_
    cases ht : token (fuel + 1) (trivia false (fuel + 1) p).2.ahead with
    | error e => simp [ht, bind, Except.bind] at h
    | ok r =>
      obtain ⟨kind, k⟩ := r
      simp only [ht, bind, Except.bind] at h
      split at h
      · cases h
      · rename_i rest hrest
        exact ⟨kind, k, rest, by simpa using he, rfl, hrest,
          by simpa [pure, Except.pure] using h.symm⟩

/-- The last token is the end of the file; all others have a text and another kind. -/
def Ended (ts : List Token) : Prop :=
  ∃ init leading, ts = init ++ [.endOfFile leading] ∧
    ∀ t ∈ init, t.isEnd = false ∧ t.text ≠ ""

theorem ended_cons {t : Token} {ts : List Token} (ht : t.isEnd = false ∧ t.text ≠ "")
    (h : Ended ts) : Ended (t :: ts) := by
  obtain ⟨init, leading, rfl, hinit⟩ := h
  refine ⟨t :: init, leading, rfl, ?_⟩
  intro u hu
  rcases List.mem_cons.1 hu with rfl | hu
  · exact ht
  · exact hinit u hu

theorem tokensFrom_lossless {fuel : Nat} {p : Place} {ts : List Token}
    (h : tokensFrom fuel p = .ok ts) (hf : p.ahead.length < fuel) :
    (Token.renderAll ts).toList = p.ahead ∧ Ended ts := by
  induction fuel generalizing p ts with
  | zero => omega
  | succ fuel ih =>
    obtain ⟨hlead, -⟩ := reads_trivia false (fuel + 1) p
    obtain ⟨hend, rfl⟩ | ⟨kind, k, rest, hne, htok, hrest, rfl⟩ := tokensFrom_succ h
    · refine ⟨?_, [], _, rfl, by simp⟩
      rw [hlead.1, hend]
      simp [Token.render, Token.endOfFile]
    · obtain ⟨hadv, hkind⟩ := advances_token htok hne
      have htext : (trivia false (fuel + 1) p).2.Reads k.lexeme.toList
          ⟨k.taken ++ (trivia false (fuel + 1) p).2.behind, k.ahead⟩ := .of_reaches hadv.1
      obtain ⟨htrail, -⟩ := reads_trivia true (fuel + 1)
        ⟨k.taken ++ (trivia false (fuel + 1) p).2.behind, k.ahead⟩
      -- The token takes a character, so the bound still suffices for what is behind it.
      have hlt : k.ahead.length < fuel := by
        have h₁ := hlead.length_le
        have h₂ := hadv.2
        simp only [start] at h₂
        omega
      obtain ⟨ihr, ihe⟩ := ih hrest (Nat.lt_of_le_of_lt htrail.length_le hlt)
      refine ⟨?_, ended_cons ⟨by simpa [Token.isEnd] using hkind, lexeme_ne_empty hadv⟩ ihe⟩
      have hall := (hlead.trans htext).trans htrail
      rw [hall.1, ← ihr]
      simp [Token.render]

theorem tokenize_lossless {source : String} {ts : List Token} (h : tokenize source = .ok ts) :
    Token.renderAll ts = source ∧ Ended ts := by
  obtain ⟨hr, he⟩ := tokensFrom_lossless h (by simp)
  exact ⟨String.toList_injective hr, he⟩

end Lexer

end PluginLint
