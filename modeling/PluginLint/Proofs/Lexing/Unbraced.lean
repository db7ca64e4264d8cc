import PluginLint.Proofs.Lexing.Runs
import PluginLint.Proofs.Parsing.Shape
import PluginLint.Proofs.Trees.Leaves

/-!
# Reading a jump without its braces

A block with nothing but a jump stands behind `)` or behind `else`. Without the braces the same
tokens are read up to there, inside the block and behind it, with the trivia outside the block kept.
One case is different: where the brace is all that stands between `else` and the word of the jump,
the two become one word.
-/
namespace PluginLint.Lexer

open Cursor

/-! ### Words and marks -/

theorem token_of_isWordStart {c : Char} (hc : isWordStart c = true) (fuel : Nat)
    (rest : List Char) :
    token fuel (c :: rest) = .ok (if isKeyword ((start (c :: rest)).skipWhile isWordPart).lexeme
      then .keyword else .identifier, (start (c :: rest)).skipWhile isWordPart) := by
  have hquote : c ≠ '"' := by
    rintro rfl
    exact absurd hc (by decide)
  have hat : c ≠ '@' := by
    rintro rfl
    exact absurd hc (by decide)
  have hdollar : c ≠ '$' := by
    rintro rfl
    exact absurd hc (by decide)
  have htick : c ≠ '\'' := by
    rintro rfl
    exact absurd hc (by decide)
  have hopens : opensString (c :: rest) = false := by
    simp [opensString, hquote, hat, hdollar]
  simp [token, hopens, hat, htick, hc]

/-- A token behind which a text may go on in another way: a lone mark always, and `else` before
anything that is no part of a word. -/
def GoesOn (text : String) (rest : List Char) : Prop :=
  (∃ c ∈ halts, text = String.ofList [c]) ∨
    text = "else" ∧ ∀ c ∈ rest.head?, isWordPart c = false

theorem skipWhile_else {rest : List Char} (hrest : ∀ c ∈ rest.head?, isWordPart c = false) :
    (start ("else".toList ++ rest)).skipWhile isWordPart = ⟨"else".toList.reverse, rest⟩ := by
  have hall : ∀ c ∈ "else".toList, isWordPart c = true :=
    List.all_eq_true.1 (by decide : "else".toList.all isWordPart = true)
  have htake : rest.takeWhile isWordPart = [] := by
    cases rest with
    | nil => rfl
    | cons c rest => simp [hrest c (by simp)]
  have hdrop : rest.dropWhile isWordPart = rest := by
    cases rest with
    | nil => rfl
    | cons c rest => simp [hrest c (by simp)]
  rw [Cursor.skipWhile, start, List.takeWhile_append_of_pos hall, List.dropWhile_append_of_pos hall,
    htake, hdrop, List.append_nil, List.append_nil]

theorem GoesOn.token_eq {text : String} {rest : List Char} (h : GoesOn text rest) :
    text.toList ≠ [] ∧ ∀ fuel, token fuel (text.toList ++ rest) =
      .ok (if text = "else" then .keyword else .punct, ⟨text.toList.reverse, rest⟩) := by
  obtain ⟨c, hc, rfl⟩ | ⟨rfl, hrest⟩ := h
  · refine ⟨by simp, fun fuel => ?_⟩
    have hne : String.ofList [c] ≠ "else" := by
      intro he
      have hlist := congrArg String.toList he
      simp at hlist
    rw [if_neg hne]
    simpa using token_of_mem_halts hc fuel rest
  · refine ⟨by decide, fun fuel => ?_⟩
    have htoken := token_of_isWordStart (show isWordStart 'e' = true by decide) fuel
      ("lse".toList ++ rest)
    have hskip := skipWhile_else hrest
    have hword : 'e' :: ("lse".toList ++ rest) = "else".toList ++ rest := rfl
    rw [hword, hskip] at htoken
    rw [htoken]
    rfl

/-- A token that is read before one text is read before another one. -/
theorem Takes.goesOn {p q p' : Place} {kind : TokenKind} {text : String} {x : List Char}
    (h : Takes p kind text q) (hold : GoesOn text q.ahead) (hnew : GoesOn text x)
    (hp' : p'.ahead = text.toList ++ x) :
    Takes p' kind text ⟨text.toList.reverse ++ p'.behind, x⟩ := by
  obtain ⟨hne, htoken⟩ := hnew.token_eq
  obtain ⟨-, fuel, k, -, htok, -, -⟩ := id h
  rw [h.reads.1.1, hold.token_eq.2 fuel, Except.ok.injEq, Prod.mk.injEq] at htok
  refine ⟨by simp [hp', hne], p'.ahead.length + 1, ⟨text.toList.reverse, x⟩, Nat.lt_succ_self _, ?_,
    by simp [lexeme], rfl⟩
  rw [hp', htoken, htok.1]

/-- What follows a word is no part of it. -/
theorem Takes.head_else {p q : Place} {kind : TokenKind} (h : Takes p kind "else" q) :
    ∀ c ∈ q.ahead.head?, isWordPart c = false := by
  have hahead : p.ahead = 'e' :: ("lse".toList ++ q.ahead) := h.reads.1.1
  obtain ⟨-, fuel, k, -, htok, -, hq⟩ := h
  rw [hahead, token_of_isWordStart (by decide), Except.ok.injEq, Prod.mk.injEq] at htok
  have hk : k.ahead = List.dropWhile isWordPart ('e' :: ("lse".toList ++ q.ahead)) := by
    rw [← htok.2]
    rfl
  have hnot := List.head?_dropWhile_not isWordPart ('e' :: ("lse".toList ++ q.ahead))
  rw [← hk, ← show q.ahead = k.ahead from congrArg Place.ahead hq] at hnot
  intro c hc
  rw [Option.mem_def] at hc
  rwa [hc] at hnot

theorem Skips.render_ne {trailing : Bool} {p q : Place} {pieces : List Trivia}
    (h : Skips trailing p pieces q) (hne : pieces ≠ []) : (Trivia.render pieces).toList ≠ [] := by
  obtain ⟨t, ts, rfl⟩ := List.exists_cons_of_ne_nil hne
  have htext := h.text_ne t (by simp)
  simp [htext]

theorem GoesOn.firm {text : String} {x : List Char} (h : GoesOn text x) :
    ∃ c cs, text.toList = c :: cs ∧ isFirm c = true := by
  obtain ⟨c, hc, rfl⟩ | ⟨rfl, -⟩ := h
  · exact ⟨c, [], by simp, isFirm_of_mem_halts c hc⟩
  · exact ⟨'e', ['l', 's', 'e'], rfl, by decide⟩

/-- A token is read with the trivia in front of it, however the text goes on behind. -/
theorem Takes.exists_goesOn {p p' r s : Place} {leading : List Trivia} {kind : TokenKind}
    {text : String} {x : List Char} (hlead : Skips false p leading r) (htake : Takes r kind text s)
    (hb : atLineStart p.behind = atLineStart p'.behind)
    (hp' : p'.ahead = (Trivia.render leading).toList ++ (text.toList ++ x))
    (hold : GoesOn text s.ahead) (hnew : GoesOn text x) :
    ∃ r' s', Skips false p' leading r' ∧ Takes r' kind text s' ∧ s'.ahead = x ∧
      atLineStart s.behind = atLineStart s'.behind := by
  obtain ⟨c, cs, htext, hc⟩ := hnew.firm
  have hr := htake.reads.1.1
  rw [htext, List.cons_append] at hr hp'
  obtain ⟨r', hlead', hr', hline⟩ := hlead.exists_firm hr ⟨isInLine_of_isFirm hc, hc⟩ hb hp'
  rw [← List.cons_append, ← htext] at hr'
  have htake' := htake.goesOn hold hnew hr'
  exact ⟨r', _, hlead', htake', rfl, htake.reads.1.atLineStart_eq htake'.reads.1 hline⟩

/-! ### Blocks with a jump -/

/-- The tokens of a block that holds nothing but a jump, with the token in front of it. -/
structure Braced where
  front : Token
  opening : Token
  word : Token
  mid : List Token
  semicolon : Token
  closing : Token
  front_text : front.text = ")" ∨ front.text = "else"
  opening_text : opening.text = "\x7b"
  word_text : word.text ∈ jumpStarts
  semicolon_text : semicolon.text = ";"
  closing_text : closing.text = "\x7d"

namespace Braced

/-- The tokens as they are. -/
def tokens (b : Braced) : List Token :=
  b.front :: b.opening :: b.word :: (b.mid ++ [b.semicolon, b.closing])

/-- The tokens without the braces. The trivia around the block go around the jump. -/
def unbraced (b : Braced) : List Token :=
  b.front :: { b.word with leading := b.opening.leading } ::
    (b.mid ++ [{ b.semicolon with trailing := b.closing.trailing }])

/-- The brace is all that stands between two words. -/
def Glued (b : Braced) : Prop :=
  b.front.text = "else" ∧ b.front.trailing = [] ∧ b.opening.leading = []

variable {b : Braced} {p p' q : Place}

theorem exists_firm_word (b : Braced) :
    (∃ c cs, b.word.text.toList = c :: cs ∧ isFirm c = true ∧ isWordPart c = true) ∧
      ∃ c cs, b.word.text.toList.reverse = c :: cs ∧ isFirm c = true := by
  have hwords : ∀ w ∈ jumpStarts,
      (w.toList.head?.any fun c => isFirm c && isWordPart c) = true ∧
        w.toList.reverse.head?.any isFirm = true := by decide
  obtain ⟨hfirst, hlast⟩ := hwords _ b.word_text
  obtain ⟨c, hc, hfirm⟩ := (Option.any_eq_true _ _).1 hfirst
  obtain ⟨d, hd, hfirm'⟩ := (Option.any_eq_true _ _).1 hlast
  obtain ⟨cs, hcs⟩ := List.head?_eq_some_iff.1 hc
  obtain ⟨ds, hds⟩ := List.head?_eq_some_iff.1 hd
  rw [Bool.and_eq_true] at hfirm
  exact ⟨⟨c, cs, hcs, hfirm.1, hfirm.2⟩, d, ds, hds, hfirm'⟩

/-- The token in front goes on without the brace, unless there is nothing else between the words. -/
theorem goesOn_front {r s q₁ r₁ : Place} {x : List Char}
    (htake : Takes r b.front.kind b.front.text s) (htrail : Skips true s b.front.trailing q₁)
    (hlead : Skips false q₁ b.opening.leading r₁) (hb : ¬b.Glued) :
    GoesOn b.front.text s.ahead ∧ GoesOn b.front.text ((Trivia.render b.front.trailing).toList ++
      ((Trivia.render b.opening.leading).toList ++ x)) := by
  have hmark : ")" = String.ofList [')'] := rfl
  rcases b.front_text with hparen | helse
  · rw [hparen, hmark]
    exact ⟨.inl ⟨')', by decide, rfl⟩, .inl ⟨')', by decide, rfl⟩⟩
  · rw [helse] at htake ⊢
    have hhead := htake.head_else
    refine ⟨.inr ⟨rfl, hhead⟩, .inr ⟨rfl, ?_⟩⟩
    rw [htrail.reads.1, hlead.reads.1, ← List.append_assoc] at hhead
    rw [← List.append_assoc]
    -- There are trivia, and what follows the word stays the same.
    have hne : (Trivia.render b.front.trailing).toList ++
        (Trivia.render b.opening.leading).toList ≠ [] := by
      intro hnil
      obtain ⟨htrailing, hleading⟩ := List.append_eq_nil_iff.1 hnil
      refine hb ⟨helse, ?_, ?_⟩
      · by_contra hne
        exact htrail.render_ne hne htrailing
      · by_contra hne
        exact hlead.render_ne hne hleading
    obtain ⟨c, cs, hcs⟩ := List.exists_cons_of_ne_nil hne
    rw [hcs] at hhead ⊢
    exact hhead

/-- Up to where the brace was. -/
theorem exists_front {q₁ r₁ s₁ : Place} {c : Char} {cs : List Char} (hstep : Step p b.front q₁)
    (hlead : Skips false q₁ b.opening.leading r₁)
    (htake : Takes r₁ b.opening.kind b.opening.text s₁) (hb : ¬b.Glued)
    (hline : atLineStart p.behind = atLineStart p'.behind) (hc : isFirm c = true)
    (hp' : p'.ahead = b.front.render.toList ++
      ((Trivia.render b.opening.leading).toList ++ c :: cs)) :
    ∃ q' r', Step p' b.front q' ∧ Skips false q' b.opening.leading r' ∧ r'.ahead = c :: cs := by
  obtain ⟨r, s, hlead₀, htake₀, htrail₀⟩ := hstep
  obtain ⟨hold, hnew⟩ := goesOn_front (x := c :: cs) htake₀ htrail₀ hlead hb
  have hahead : p'.ahead = (Trivia.render b.front.leading).toList ++ (b.front.text.toList ++
      ((Trivia.render b.front.trailing).toList ++
        ((Trivia.render b.opening.leading).toList ++ c :: cs))) := by
    simpa [Token.render] using hp'
  obtain ⟨r', s', hlead', htake', hs', hline'⟩ :=
    htake₀.exists_goesOn hlead₀ hline hahead hold hnew
  -- Trivia end at the brace, and now at the word.
  have hr₁ : r₁.ahead = '\x7b' :: s₁.ahead := by
    rw [htake.reads.1.1, b.opening_text]
    rfl
  have hz : Joint Firm r₁.ahead (c :: cs) := by
    rw [hr₁]
    exact .cons ⟨by decide, hc⟩
  have htied : s.Tied r₁.ahead (c :: cs) s' := by
    refine ⟨hline', (Trivia.render b.front.trailing).toList ++
      (Trivia.render b.opening.leading).toList, ?_, ?_⟩
    · rw [htrail₀.reads.1, hlead.reads.1, List.append_assoc]
    · rw [hs', List.append_assoc]
  obtain ⟨q', htrail', hq'⟩ := htrail₀.tied hz htied hlead.reads.length_le
  obtain ⟨r₁', hlead₁', -, mid, hmid, hmid'⟩ := hlead.tied hz hq' (Nat.le_refl _)
  obtain rfl : mid = [] := by simpa using hmid
  exact ⟨q', r₁', ⟨r', s', hlead', htake', htrail'⟩, hlead₁', hmid'⟩

/-- From the word of the jump to its semicolon. -/
theorem exists_inside {q₂ q₃ q₄ q' r' : Place} {leading : List Trivia} {x x' : List Char}
    (hstep : Step q₂ b.word q₃) (hrun : Run q₃ b.mid q₄) (hle : (';' :: x).length ≤ q₄.ahead.length)
    {u : List Char} (hq₄ : q₄.ahead = u ++ ';' :: x) (hlead' : Skips false q' leading r')
    (hr' : r'.ahead = b.word.text.toList ++ ((Trivia.render b.word.trailing).toList ++
      ((Token.renderAll b.mid).toList ++ (u ++ ';' :: x')))) :
    ∃ q₄', Run q' ({ b.word with leading := leading } :: b.mid) q₄' ∧
      q₄.Tied (';' :: x) (';' :: x') q₄' := by
  obtain ⟨r, s, hlead, htake, htrail⟩ := hstep
  have hz : Joint Stop (';' :: x) (';' :: x') := .cons (.refl (by decide))
  have hrahead : r.ahead = (b.word.text.toList ++ ((Trivia.render b.word.trailing).toList ++
      ((Token.renderAll b.mid).toList ++ u))) ++ ';' :: x := by
    rw [htake.reads.1.1, htrail.reads.1, hrun.reads.1, hq₄]
    simp
  have hrahead' : r'.ahead = (b.word.text.toList ++ ((Trivia.render b.word.trailing).toList ++
      ((Token.renderAll b.mid).toList ++ u))) ++ ';' :: x' := by
    rw [hr']
    simp
  have hle₃ := hrun.reads.length_le
  have hle₂ := htrail.reads.length_le
  obtain ⟨s', mid, htake', hs, hs'⟩ := htake.exists_inStep hz hrahead hrahead' (by omega)
  -- The word stands behind on both sides, so directives cannot follow on this line.
  have hline : atLineStart s.behind = atLineStart s'.behind := by
    obtain ⟨d, ds, hd, hfirm⟩ := b.exists_firm_word.2
    rw [htake.reads.1.2, htake'.reads.1.2, hd, List.cons_append, List.cons_append,
      atLineStart_cons_of_isFirm hfirm, atLineStart_cons_of_isFirm hfirm]
  obtain ⟨q₃', htrail', hq₃'⟩ := htrail.tied (joint_firm hz) ⟨hline, mid, hs, hs'⟩ (by omega)
  obtain ⟨q₄', hrun', hq₄'⟩ := hrun.tied hz hq₃' hle
  exact ⟨q₄', .cons ⟨r', s', hlead', htake', htrail'⟩ hrun', hq₄'⟩

/-- The semicolon, behind which the text goes on as it did behind the brace. -/
theorem exists_back {q₄ q₅ r₅ s₅ q₄' : Place} (hstep : Step q₄ b.semicolon q₅)
    (htake : Takes r₅ b.closing.kind b.closing.text s₅) (htrail : Skips true s₅ b.closing.trailing q)
    (hline : atLineStart q₄.behind = atLineStart q₄'.behind)
    (hq₄' : q₄'.ahead = (Trivia.render b.semicolon.leading).toList ++ ';' :: s₅.ahead) :
    ∃ q', Step q₄' { b.semicolon with trailing := b.closing.trailing } q' ∧ q.Tied [] [] q' := by
  obtain ⟨r, s, hlead, htake₀, -⟩ := hstep
  have hgoes : ∀ x, GoesOn b.semicolon.text x := by
    intro x
    rw [b.semicolon_text]
    exact .inl ⟨';', by decide, rfl⟩
  have hahead : q₄'.ahead = (Trivia.render b.semicolon.leading).toList ++
      (b.semicolon.text.toList ++ s₅.ahead) := by
    rw [hq₄', b.semicolon_text]
    rfl
  obtain ⟨r', s', hlead', htake', hs', -⟩ :=
    htake₀.exists_goesOn hlead hline hahead (hgoes _) (hgoes _)
  have hline' : atLineStart s₅.behind = atLineStart s'.behind := by
    have hbrace : s₅.behind = '\x7d' :: r₅.behind := by
      rw [htake.reads.1.2, b.closing_text]
      rfl
    have hsemicolon : s'.behind = ';' :: r'.behind := by
      rw [htake'.reads.1.2, b.semicolon_text]
      rfl
    rw [hbrace, hsemicolon, atLineStart_cons_of_isFirm (by decide),
      atLineStart_cons_of_isFirm (by decide)]
  have htied : s₅.Tied [] [] s' := ⟨hline', s₅.ahead, by simp, by simp [hs']⟩
  obtain ⟨q', htrail', hq'⟩ := htrail.tied .nil htied (by simp)
  exact ⟨q', ⟨r', s', hlead', htake', htrail'⟩, hq'⟩

/-- Without the braces the same tokens are read up to the end of the block. -/
theorem exists_run (hrun : Run p b.tokens q) (hb : ¬b.Glued)
    (hline : atLineStart p.behind = atLineStart p'.behind)
    (hp' : p'.ahead = (Token.renderAll b.unbraced).toList ++ q.ahead) :
    ∃ q', Run p' b.unbraced q' ∧ q.Tied [] [] q' := by
  obtain ⟨q₁, hfront, hrun⟩ := hrun.exists_cons
  obtain ⟨q₂, ⟨r₂, s₂, hlead₂, htake₂, -⟩, hrun⟩ := hrun.exists_cons
  obtain ⟨q₃, hword, hrun⟩ := hrun.exists_cons
  obtain ⟨q₄, hmid, hrun⟩ := hrun.exists_append
  obtain ⟨q₅, hsemicolon, hrun⟩ := hrun.exists_cons
  obtain ⟨q₆, ⟨r₆, s₆, -, htake₆, htrail₆⟩, hrun⟩ := hrun.exists_cons
  cases hrun
  obtain ⟨c, cs, hcs, hc, -⟩ := b.exists_firm_word.1
  -- The texts part at the semicolon.
  obtain ⟨x, hx⟩ : ∃ x, q₄.ahead = (Trivia.render b.semicolon.leading).toList ++ ';' :: x := by
    obtain ⟨r₅, s₅, hlead₅, htake₅, -⟩ := hsemicolon
    refine ⟨s₅.ahead, ?_⟩
    rw [hlead₅.reads.1, htake₅.reads.1.1, b.semicolon_text]
    rfl
  have hle : (';' :: x).length ≤ q₄.ahead.length := by
    rw [hx, List.length_append]
    omega
  have hinside : p'.ahead = b.front.render.toList ++ ((Trivia.render b.opening.leading).toList ++
      (b.word.text.toList ++ ((Trivia.render b.word.trailing).toList ++
        ((Token.renderAll b.mid).toList ++
          ((Trivia.render b.semicolon.leading).toList ++ ';' :: s₆.ahead))))) := by
    rw [hp', htrail₆.reads.1, unbraced]
    simp [Token.render, b.semicolon_text]
  rw [hcs, List.cons_append] at hinside
  obtain ⟨q₁', r₂', hfront', hlead₂', hr₂'⟩ :=
    exists_front hfront hlead₂ htake₂ hb hline hc hinside
  rw [← List.cons_append, ← hcs] at hr₂'
  obtain ⟨q₄', hmid', hline₄, mid, hq₄, hq₄'⟩ := exists_inside hword hmid hle hx hlead₂' hr₂'
  obtain rfl := List.append_cancel_right (hx.symm.trans hq₄)
  obtain ⟨q', hback', hq'⟩ := exists_back hsemicolon htake₆ htrail₆ hline₄ hq₄'
  exact ⟨q', .cons hfront' (hmid'.append (.cons hback' .nil)), hq'⟩

/-- The two words are read as one. -/
theorem Glued.text_ne {q₁ : Place} {t : Token} {w : List Char} (hb : b.Glued)
    (hstep : Step p b.front q₁) (hline : atLineStart p.behind = atLineStart p'.behind)
    (hp' : p'.ahead = (Token.renderAll b.unbraced).toList ++ w) (hstep' : Step p' t q) :
    t.text ≠ b.front.text := by
  intro ht
  obtain ⟨helse, htrailing, hleading⟩ := hb
  obtain ⟨r, s, hlead, htake, -⟩ := hstep
  obtain ⟨r', s', hlead', htake', -⟩ := hstep'
  rw [ht, helse] at htake'
  rw [helse] at htake
  -- The word is followed by the word of the jump.
  obtain ⟨c, cs, hcs, -, hpart⟩ := b.exists_firm_word.1
  obtain ⟨x, hx⟩ : ∃ x, p'.ahead =
      (Trivia.render b.front.leading).toList ++ ("else".toList ++ c :: x) := by
    rw [hp']
    simp [unbraced, Token.render, helse, htrailing, hleading, hcs]
  obtain ⟨r'', hlead'', hr'', -⟩ :=
    hlead.exists_firm htake.reads.1.1 ⟨by decide, by decide⟩ hline hx
  obtain ⟨-, rfl⟩ := hlead'.unique hlead''
  have hs' : s'.ahead = c :: x :=
    List.append_cancel_left (htake'.reads.1.1.symm.trans hr'')
  have hnot := htake'.head_else c (by rw [hs']; rfl)
  rw [hpart] at hnot
  cases hnot

end Braced

/-! ### Whole texts -/

theorem Braced.getLast?_tokens (b : Braced) : b.tokens.getLast? = some b.closing := by
  simp [tokens, List.getLast?_cons]

theorem Braced.closing_text_ne (b : Braced) : b.closing.text ≠ "" := by
  rw [b.closing_text]
  decide

/-- In front of the block the same tokens are read without its braces. -/
theorem Braced.exists_before {b : Braced} {s s' w : List Char} {pre : List Token} {p q : Place}
    (hpre : Run ⟨[], s⟩ pre p) (hbraced : Run p b.tokens q)
    (hs' : s' = (Token.renderAll pre).toList ++ ((Token.renderAll b.unbraced).toList ++ w)) :
    ∃ p', Run ⟨[], s'⟩ pre p' ∧ atLineStart p.behind = atLineStart p'.behind ∧
      p'.ahead = (Token.renderAll b.unbraced).toList ++ w := by
  -- Inside the last token before the block there is a character at which nothing looks any further.
  obtain ⟨a, c, d, htext, hstop⟩ : ∃ a c d, b.front.text.toList = a ++ c :: d ∧ Stop c c := by
    rcases b.front_text with hparen | helse
    · exact ⟨[], ')', [], by rw [hparen]; rfl, .refl (by decide)⟩
    · exact ⟨['e', 'l'], 's', ['e'], by rw [helse]; rfl, .refl (by decide)⟩
  obtain ⟨q₁, hfront, hrest⟩ := hbraced.exists_cons
  have hp : p.ahead = ((Trivia.render b.front.leading).toList ++ a) ++
      c :: (d ++ ((Trivia.render b.front.trailing).toList ++ q₁.ahead)) := by
    rw [hfront.reads.1.1]
    simp [Token.render, htext]
  obtain ⟨w', hw'⟩ : ∃ w', (Token.renderAll b.unbraced).toList ++ w =
      ((Trivia.render b.front.leading).toList ++ a) ++ c :: w' := by
    rw [Braced.unbraced, Token.renderAll_cons, Token.render]
    simp [htext]
  have hz : Joint Stop (c :: (d ++ ((Trivia.render b.front.trailing).toList ++ q₁.ahead)))
      (c :: w') := .cons hstop
  have hle : (c :: (d ++ ((Trivia.render b.front.trailing).toList ++ q₁.ahead))).length ≤
      p.ahead.length := by
    rw [hp, List.length_append]
    omega
  have htied : Place.Tied (c :: (d ++ ((Trivia.render b.front.trailing).toList ++ q₁.ahead)))
      (c :: w') ⟨[], s⟩ ⟨[], s'⟩ := by
    refine ⟨rfl, (Token.renderAll pre).toList ++ ((Trivia.render b.front.leading).toList ++ a), ?_, ?_⟩
    · rw [hpre.reads.1, hp]
      simp
    · rw [hs', hw']
      simp
  obtain ⟨p', hpre', hline, mid, hmid, hmid'⟩ := hpre.tied hz htied hle
  obtain rfl := List.append_cancel_right (hmid.symm.trans hp)
  exact ⟨p', hpre', hline, by rw [hmid', hw']⟩

section tokenize

variable {source : String} {pre post : List Token} {b : Braced}

/-- Without the braces a text has the same tokens, with the trivia outside the block. -/
theorem tokenize_unbraced (h : tokenize source = .ok (pre ++ (b.tokens ++ post)))
    (hb : ¬b.Glued) :
    tokenize (Token.renderAll (pre ++ (b.unbraced ++ post))) =
      .ok (pre ++ (b.unbraced ++ post)) := by
  obtain ⟨post', leading, p, q, r, rfl, hpre, hbraced, hpost, hdone⟩ :=
    exists_run_of_tokenize h b.getLast?_tokens b.closing_text_ne
  have hq : q.ahead = (Token.renderAll (post' ++ [.endOfFile leading])).toList := by
    obtain ⟨e, hlead, hend⟩ := hdone
    rw [hpost.reads.1, hlead.reads.1, hend]
    simp [Token.render, Token.endOfFile]
  have hnew : (Token.renderAll (pre ++ (b.unbraced ++ (post' ++ [.endOfFile leading])))).toList =
      (Token.renderAll pre).toList ++ ((Token.renderAll b.unbraced).toList ++ q.ahead) := by
    rw [hq]
    simp
  obtain ⟨p', hpre', hline, hp'⟩ := Braced.exists_before hpre hbraced hnew
  obtain ⟨q', hbraced', hq'⟩ := Braced.exists_run hbraced hb hline hp'
  obtain ⟨r', hpost', hr'⟩ := hpost.tied .nil hq' (by simp)
  have hrun := hpre'.append (hbraced'.append hpost')
  rw [tokenize]
  simpa using tokensFrom_of_run hrun (hdone.congr hr') (Nat.lt_succ_self _)

/-- Where the brace is all that stands between two words, a token is lost without it. -/
theorem tokenize_glued (h : tokenize source = .ok (pre ++ (b.tokens ++ post))) (hb : b.Glued)
    {ts : List Token}
    (hts : tokenize (Token.renderAll (pre ++ (b.unbraced ++ post))) = .ok ts) :
    ts.map Token.text ≠ (pre ++ (b.unbraced ++ post)).map Token.text := by
  intro htexts
  obtain ⟨post', leading, p, q, r, rfl, hpre, hbraced, -⟩ :=
    exists_run_of_tokenize h b.getLast?_tokens b.closing_text_ne
  have hnew : (Token.renderAll (pre ++ (b.unbraced ++ (post' ++ [.endOfFile leading])))).toList =
      (Token.renderAll pre).toList ++ ((Token.renderAll b.unbraced).toList ++
        (Token.renderAll (post' ++ [.endOfFile leading])).toList) := by simp
  obtain ⟨p', hpre', hline, hp'⟩ := Braced.exists_before hpre hbraced hnew
  -- The same word in front of the block would have to be read.
  obtain ⟨init, leading', e, rfl, hrun, -⟩ := run_of_tokensFrom hts (by simp)
  rw [← List.append_assoc, ← List.append_assoc, List.map_append, List.map_append] at htexts
  have hinit := (List.append_inj' htexts rfl).1
  rw [List.append_assoc, List.map_append, List.map_eq_append_iff] at hinit
  obtain ⟨init₁, init₂, rfl, hinit₁, hinit₂⟩ := hinit
  rw [Braced.unbraced, List.cons_append, List.map_cons, List.map_eq_cons_iff] at hinit₂
  obtain ⟨t, init₃, rfl, ht, -⟩ := hinit₂
  obtain ⟨p'', hrun₁, hrun₂⟩ := hrun.exists_append
  have hlength : init₁.length = pre.length := by
    rw [← List.length_map, hinit₁, List.length_map]
  obtain ⟨-, rfl⟩ := hrun₁.unique hpre' hlength
  obtain ⟨q', hstep', -⟩ := hrun₂.exists_cons
  obtain ⟨q₁, hstep, -⟩ := hbraced.exists_cons
  exact hb.text_ne hstep hline hp' hstep' ht

end tokenize

end PluginLint.Lexer
