import PluginLint.Proofs.Lexing.Runs
import PluginLint.Proofs.Trees.Leaves

/-!
# Reading tokens in braces

Braces are put around tokens of which the last one is a semicolon or a closing brace. In front of the
opening brace the text goes on with another character than before, which is not noticed there.
Between the braces the text is the same up to the last token, and that one is read whatever follows
it. Behind the closing brace nothing has changed.
-/
namespace PluginLint.Lexer

open Cursor

/-! ### Where trivia end -/

/-- Trivia in front of a token are read as long as there are any. -/
theorem triviaPiece_trivia (fuel : Nat) (p : Place) (hf : p.ahead.length < fuel) :
    triviaPiece false (trivia false fuel p).2.behind (start (trivia false fuel p).2.ahead) = none := by
  induction fuel generalizing p with
  | zero => omega
  | succ fuel ih =>
    cases hpiece : triviaPiece false p.behind (start p.ahead) with
    | none => simp [trivia, hpiece]
    | some found =>
      obtain ⟨kind, k⟩ := found
      have hlt := (advances_triviaPiece hpiece).2
      simp only [start] at hlt
      simpa [trivia, hpiece] using ih ⟨k.taken ++ p.behind, k.ahead⟩ (by simp only; omega)

theorem Skips.triviaPiece_eq_none {p q : Place} {pieces : List Trivia}
    (h : Skips false p pieces q) : triviaPiece false q.behind (start q.ahead) = none := by
  obtain ⟨fuel, hf, htrivia⟩ := h
  have hends := triviaPiece_trivia fuel p hf
  rwa [htrivia] at hends

/-- Where no trivia are ahead, the next character is no blank and no line break. -/
theorem head_of_triviaPiece {trailing : Bool} {behind : List Char} {k : Cursor} {c : Char}
    {s : List Char} (h : triviaPiece trailing behind k = none) (hk : k.ahead = c :: s) :
    isSpace c = false ∧ isInLine c = true := by
  rw [triviaPiece, hk] at h
  dsimp only at h
  split_ifs at h with hspace hpair hbreak h₁ h₂ h₃ h₄
  refine ⟨by simpa using hspace, ?_⟩
  simpa [isInLine, not_or] using hbreak

/-- What stands behind matters for directives only. -/
theorem triviaPiece_eq_none {trailing : Bool} {behind behind' : List Char} {k : Cursor}
    (h : triviaPiece false behind k = none) (hline : trailing = true ∨ atLineStart behind' = false) :
    triviaPiece trailing behind' k = none := by
  unfold triviaPiece at h ⊢
  split at h
  · rfl
  · have hdirective : ∀ c, (c == '#' && !trailing && atLineStart behind') = false := by
      intro c
      rcases hline with rfl | hline
      · simp
      · simp [hline]
    split_ifs at h with h₁ h₂ h₃ h₄ h₅ h₆ h₇
    rw [if_neg h₁, if_neg h₂, if_neg h₃, if_neg h₄, if_neg h₅, if_neg h₆, hdirective]
    rfl

section places

variable {p q r : Place} {pieces : List Trivia}

theorem skips_nil {trailing : Bool} (h : triviaPiece trailing p.behind (start p.ahead) = none) :
    Skips trailing p [] p :=
  ⟨p.ahead.length + 1, Nat.lt_succ_self _, by rw [trivia, h]⟩

theorem skips_nil_of_isFirm {trailing : Bool} {c : Char} {s : List Char} (hc : isFirm c = true)
    (hp : p.ahead = c :: s) : Skips trailing p [] p :=
  skips_nil (triviaPiece_of_isFirm trailing hc hp)

/-- A blank behind a token with something else than trivia behind it. -/
theorem skips_space (behind s : List Char)
    (h : triviaPiece true (' ' :: behind) (start s) = none) :
    Skips true ⟨behind, ' ' :: s⟩ [.space] ⟨' ' :: behind, s⟩ := by
  have hblank : (start (' ' :: s)).skipWhile isSpace = ⟨[' '], s⟩ := by
    have hspace : isSpace ' ' = true := by decide
    cases s with
    | nil => simp [Cursor.skipWhile, start, hspace]
    | cons c s => simp [Cursor.skipWhile, start, hspace, (head_of_triviaPiece h rfl).1]
  have hpiece : triviaPiece true behind (start (' ' :: s)) = some (.whitespace, ⟨[' '], s⟩) := by
    rw [triviaPiece, hblank]
    rfl
  refine ⟨s.length + 1 + 1, by simp, ?_⟩
  rw [trivia, hpiece]
  simp only [List.singleton_append]
  rw [trivia, h]
  rfl

theorem takes_of_mem_halts {c : Char} {s : List Char} (hc : c ∈ halts) (hp : p.ahead = c :: s) :
    Takes p .punct (String.ofList [c]) ⟨c :: p.behind, s⟩ := by
  refine ⟨by simp [hp], p.ahead.length + 1, ⟨[c], s⟩, Nat.lt_succ_self _, ?_, rfl, rfl⟩
  rw [hp, token_of_mem_halts hc]

/-- A token is read whatever stands behind it. -/
theorem Takes.of_ahead_eq {kind : TokenKind} {text : String} (h : Takes p kind text q) (p' : Place)
    (hp : p'.ahead = p.ahead) :
    Takes p' kind text ⟨text.toList.reverse ++ p'.behind, q.ahead⟩ := by
  obtain ⟨hne, fuel, k, hf, htok, rfl, rfl⟩ := h
  refine ⟨by rwa [hp], fuel, k, by rwa [hp], by rw [hp, htok], rfl, ?_⟩
  simp [lexeme]

/-- Behind a text that is not all blank directives may stand or not, whatever is behind it. -/
theorem atLineStart_append {w : List Char} (h : ∃ c ∈ w, isSpace c = false) (b b' : List Char) :
    atLineStart (w ++ b) = atLineStart (w ++ b') := by
  induction w with
  | nil => simp at h
  | cons d w ih =>
    obtain ⟨c, hc, hspace⟩ := h
    by_cases hline : d = '\n'
    · simp [atLineStart, hline]
    rcases List.mem_cons.1 hc with rfl | hc
    · have hblank : (c == ' ' || c == '\t') = false := by
        simp only [isSpace, Bool.or_eq_false_iff] at hspace
        simp [hspace]
      simp [atLineStart, hline, hblank]
    · have hrest := ih ⟨c, hc, hspace⟩
      unfold atLineStart at hrest ⊢
      simp [hline, hrest]

end places

/-! ### Tokens in braces -/

/-- Tokens in braces, with a blank inside each brace. The trivia around the tokens stand around the
braces. -/
def embraced (ts : List Token) : List Token :=
  ⟨.punct, "\x7b", Token.frontTrivia ts, [.space]⟩ ::
    (Token.surround [] [.space] ts ++ [⟨.punct, "\x7d", [], Token.backTrivia ts⟩])

/-- Tokens by their last one, with no trivia in front. -/
theorem exists_surround {ts : List Token} {last : Token} (h : ts.getLast? = some last) :
    ∃ init t, (ts.modifyHead fun t => { t with leading := [] }) = init ++ [t] ∧
      t.text = last.text ∧ Token.backTrivia ts = t.trailing ∧
      ∀ back, Token.surround [] back ts = init ++ [{ t with trailing := back }] := by
  have hne : ts ≠ [] := by
    rintro rfl
    cases h
  obtain ⟨t, rfl⟩ | ⟨first, mid, t, rfl⟩ := Token.eq_singleton_or_ends hne
  · obtain rfl : t = last := by simpa using h
    exact ⟨[], { t with leading := [] }, rfl, rfl, rfl, fun back => rfl⟩
  · obtain rfl : t = last := by simpa [List.getLast?_cons] using h
    refine ⟨{ first with leading := [] } :: mid, t, rfl, rfl, ?_, fun back => ?_⟩
    · simp [Token.backTrivia, List.getLast?_cons]
    · exact Token.surround_cons_append [] back first t mid

section embraced

variable {p p' q : Place} {ts : List Token} {last : Token} {c : Char}

theorem Place.Tied.trans_nil {r : Place} (h : p.Tied [] [] q) (h' : q.Tied [] [] r) :
    p.Tied [] [] r := by
  obtain ⟨hline, mid, hp, hq⟩ := h
  obtain ⟨hline', mid', hq', hr⟩ := h'
  exact ⟨hline.trans hline', mid, hp, by rw [hr, ← hq', hq]⟩

/-- Behind the trivia in front of them tokens are read again, at any place that is not at the start of
a line. -/
theorem Run.exists_bare (h : Run p ts q) (hne : ts ≠ []) :
    ∃ r, Skips false p (Token.frontTrivia ts) r ∧
      (∃ c s, r.ahead = c :: s ∧ isInLine c = true) ∧
      ∀ behind, atLineStart behind = false → ∃ q',
        Run ⟨behind, r.ahead⟩ (ts.modifyHead fun t => { t with leading := [] }) q' ∧
          q.Tied [] [] q' := by
  obtain ⟨first, rest, rfl⟩ := List.exists_cons_of_ne_nil hne
  obtain ⟨q₁, ⟨r, s, hlead, htake, htrail⟩, hrest⟩ := h.exists_cons
  have hends := hlead.triviaPiece_eq_none
  obtain ⟨c, x, hr⟩ := List.exists_cons_of_ne_nil htake.1
  obtain ⟨hspace, hinline⟩ := head_of_triviaPiece hends hr
  refine ⟨r, hlead, ⟨c, x, hr, hinline⟩, fun behind hbehind => ?_⟩
  have hlead' : Skips false ⟨behind, r.ahead⟩ [] ⟨behind, r.ahead⟩ :=
    skips_nil (triviaPiece_eq_none hends (.inr hbehind))
  have htake' := htake.of_ahead_eq ⟨behind, r.ahead⟩ rfl
  -- The text of the token is not all blank, so that what stands behind it is forgotten.
  have hmem : ∃ c ∈ first.text.toList.reverse, isSpace c = false := by
    obtain ⟨hreads, hlt⟩ := htake.reads
    rw [hreads.1] at hr hlt
    cases htext : first.text.toList with
    | nil => simp [htext] at hlt
    | cons d ds =>
      rw [htext, List.cons_append, List.cons.injEq] at hr
      exact ⟨c, by simp [hr.1], hspace⟩
  have htied : s.Tied [] [] ⟨first.text.toList.reverse ++ behind, s.ahead⟩ := by
    refine ⟨?_, s.ahead, by simp, by simp⟩
    rw [htake.reads.1.2]
    exact atLineStart_append hmem _ _
  obtain ⟨q₁', htrail', hq₁⟩ := htrail.tied .nil htied (by simp)
  obtain ⟨q', hrest', hq'⟩ := hrest.tied .nil hq₁ (by simp)
  exact ⟨q', .cons ⟨_, _, hlead', htake', htrail'⟩ hrest', hq'⟩

/-- The opening brace is read with the blank behind it. -/
theorem exists_opening {r : Place} {leading : List Trivia} {x : List Char}
    (hlead : Skips false p leading r) (hr : ∃ c s, r.ahead = c :: s ∧ isInLine c = true)
    (hline : atLineStart p.behind = atLineStart p'.behind)
    (hp' : p'.ahead = (Trivia.render leading).toList ++ '\x7b' :: ' ' :: x)
    (hx : ∀ behind, triviaPiece true behind (start x) = none) :
    ∃ behind, atLineStart behind = false ∧
      Step p' ⟨.punct, "\x7b", leading, [.space]⟩ ⟨behind, x⟩ := by
  obtain ⟨c, s, hr, hc⟩ := hr
  obtain ⟨r', hlead', hr', -⟩ := hlead.exists_firm hr ⟨hc, by decide⟩ hline hp'
  have htake := takes_of_mem_halts (by decide) hr'
  refine ⟨' ' :: '\x7b' :: r'.behind, ?_, r', _, hlead', htake, skips_space _ x (hx _)⟩
  exact atLineStart_append (w := [' ', '\x7b']) ⟨'\x7b', by decide, by decide⟩ r'.behind ['a']

/-- The closing brace is read in place of the last token, with the trivia that stood behind that. -/
theorem exists_closing {s q₁ : Place} (behind : List Char) {trailing : List Trivia}
    (htrail : Skips true s trailing q₁) (hs : atLineStart s.behind = false) :
    ∃ q', Step ⟨behind, '\x7d' :: s.ahead⟩ ⟨.punct, "\x7d", [], trailing⟩ q' ∧ q₁.Tied [] [] q' := by
  have hfirm : isFirm '\x7d' = true := by decide
  have htake : Takes ⟨behind, '\x7d' :: s.ahead⟩ .punct "\x7d" ⟨'\x7d' :: behind, s.ahead⟩ :=
    takes_of_mem_halts (by decide) rfl
  have htied : s.Tied [] [] ⟨'\x7d' :: behind, s.ahead⟩ :=
    ⟨hs.trans (atLineStart_cons_of_isFirm hfirm behind).symm, s.ahead, by simp, by simp⟩
  obtain ⟨q', htrail', hq'⟩ := htrail.tied .nil htied (by simp)
  exact ⟨q', ⟨_, _, skips_nil_of_isFirm hfirm rfl, htake, htrail'⟩, hq'⟩

/-- Between the braces the tokens are read up to the last one, behind which there is a blank now. -/
theorem exists_between {init : List Token} {t : Token} {b x y : List Char}
    (hrun : Run ⟨b, x⟩ (init ++ [t]) q) (hc : c ∈ halts) (htext : t.text = String.ofList [c])
    (hnone : triviaPiece false b (start x) = none) {x' : List Char}
    (hx' : x' = (Token.renderAll (init ++ [{ t with trailing := [.space] }])).toList ++
      '\x7d' :: y) :
    (∀ behind, triviaPiece true behind (start x') = none) ∧
      ∃ behind s, Run ⟨b, x'⟩ (init ++ [{ t with trailing := [.space] }]) ⟨behind, '\x7d' :: y⟩ ∧
        Skips true s t.trailing q ∧ atLineStart s.behind = false := by
  obtain ⟨m, hinit, hlast⟩ := hrun.exists_append
  obtain ⟨_, ⟨r, s, hlead, htake, htrail⟩, hnil⟩ := hlast.exists_cons
  cases hnil
  have hr : r.ahead = c :: s.ahead := by
    rw [htake.reads.1.1, htext]
    simp
  obtain ⟨hkind, -, hs⟩ := htake.unique (htext ▸ takes_of_mem_halts hc hr)
  -- The texts part behind the first character of the last token, which is all of it.
  have hz : Joint Stop (c :: s.ahead) (c :: ' ' :: '\x7d' :: y) := .cons (.refl (.inl hc))
  have htied : Place.Tied (c :: s.ahead) (c :: ' ' :: '\x7d' :: y) ⟨b, x⟩ ⟨b, x'⟩ := by
    refine ⟨rfl, (Token.renderAll init).toList ++ (Trivia.render t.leading).toList, ?_, ?_⟩
    · rw [List.append_assoc, ← hr, ← hlead.reads.1, ← hinit.reads.1]
    · rw [hx']
      simp [Token.render, htext, Trivia.space]
  refine ⟨fun behind => ?_, ?_⟩
  · have hnone' : triviaPiece true behind (start x) = none := triviaPiece_eq_none hnone (.inl rfl)
    have halike := triviaPiece_inStep (joint_firm hz) true (rfl : atLineStart behind = _)
      (⟨rfl, htied.2⟩ : Cursor.Tied _ _ (start x) (start x'))
    rw [hnone'] at halike
    generalize triviaPiece true behind (start x') = found at halike
    cases halike
    rfl
  · have hle := hlead.reads.length_le
    rw [hr] at hle
    obtain ⟨m', hinit', hm'⟩ := hinit.tied hz htied hle
    obtain ⟨r', hlead', -, mid, hmid, hmid'⟩ :=
      hlead.tied (joint_firm hz) hm' (Nat.le_of_eq (by rw [hr]))
    obtain rfl : mid = [] := by simpa [hr] using hmid
    have htake' : Takes r' t.kind t.text ⟨c :: r'.behind, ' ' :: '\x7d' :: y⟩ := by
      rw [hkind, htext]
      exact takes_of_mem_halts hc hmid'
    have hspace := skips_space (c :: r'.behind) ('\x7d' :: y)
      (triviaPiece_of_isFirm true (by decide) rfl)
    refine ⟨_, s, hinit'.append (.cons ⟨r', _, hlead', htake', hspace⟩ .nil), htrail, ?_⟩
    rw [hs]
    exact atLineStart_cons_of_isFirm (isFirm_of_mem_halts c hc) _

/-- Tokens of which the last one is a lone mark are read again in braces. -/
theorem Run.exists_embraced (hrun : Run p ts q) (hlast : ts.getLast? = some last) (hc : c ∈ halts)
    (htext : last.text = String.ofList [c]) (hline : atLineStart p.behind = atLineStart p'.behind)
    (hp' : p'.ahead = (Token.renderAll (embraced ts)).toList ++ q.ahead) :
    ∃ q', Run p' (embraced ts) q' ∧ q.Tied [] [] q' := by
  have hne : ts ≠ [] := by
    rintro rfl
    cases hlast
  obtain ⟨r, hlead, hr, hagain⟩ := hrun.exists_bare hne
  obtain ⟨init, t, hbare, ht, hback, hsurround⟩ := exists_surround hlast
  rw [hbare] at hagain
  rw [embraced, hback, hsurround] at hp' ⊢
  obtain ⟨x, hx⟩ : ∃ x, x = (Token.renderAll (init ++ [{ t with trailing := [.space] }])).toList ++
      '\x7d' :: ((Trivia.render t.trailing).toList ++ q.ahead) := ⟨_, rfl⟩
  have hopen : p'.ahead = (Trivia.render (Token.frontTrivia ts)).toList ++ '\x7b' :: ' ' :: x := by
    rw [hp', hx]
    simp [Token.render, Trivia.space]
  have hends := hlead.triviaPiece_eq_none
  have between : ∀ b, atLineStart b = false →
      (∀ behind, triviaPiece true behind (start x) = none) ∧ ∃ q₁ behind s,
        Run ⟨b, x⟩ (init ++ [{ t with trailing := [.space] }])
          ⟨behind, '\x7d' :: ((Trivia.render t.trailing).toList ++ q.ahead)⟩ ∧
        Skips true s t.trailing q₁ ∧ atLineStart s.behind = false ∧ q.Tied [] [] q₁ := by
    intro b hb
    obtain ⟨q₁, hrun₁, hq₁⟩ := hagain b hb
    have hbetween := exists_between hrun₁ hc (ht ▸ htext) (triviaPiece_eq_none hends (.inr hb)) hx
    obtain ⟨hnone, behind, s, hrun', htrail, hs⟩ := hbetween
    exact ⟨hnone, q₁, behind, s, hrun', htrail, hs, hq₁⟩
  have hblank : atLineStart ['a'] = false := by decide
  obtain ⟨b, hb, hopening⟩ := exists_opening hlead hr hline hopen (between ['a'] hblank).1
  obtain ⟨-, q₁, behind, s, hinside, htrail, hs, hq₁⟩ := between b hb
  obtain ⟨q', hclosing, hq'⟩ := exists_closing behind htrail hs
  have hs' : s.ahead = (Trivia.render t.trailing).toList ++ q.ahead := by
    obtain ⟨-, m, hm, hm'⟩ := hq₁
    rw [htrail.reads.1, hm, hm']
  rw [hs'] at hclosing
  exact ⟨q', .cons hopening (hinside.append (.cons hclosing .nil)), hq₁.trans_nil hq'⟩

/-- In front of the opening brace the same tokens are read as in front of the tokens without it. -/
theorem Run.exists_in_front {s s' w : List Char} {pre : List Token} (hpre : Run ⟨[], s⟩ pre p)
    (hrun : Run p ts q) (hne : ts ≠ [])
    (hs' : s' = (Token.renderAll pre).toList ++ ((Token.renderAll (embraced ts)).toList ++ w)) :
    ∃ p', Run ⟨[], s'⟩ pre p' ∧ atLineStart p.behind = atLineStart p'.behind ∧
      p'.ahead = (Token.renderAll (embraced ts)).toList ++ w := by
  obtain ⟨r, hlead, ⟨d, x, hr, hd⟩, -⟩ := hrun.exists_bare hne
  obtain ⟨y, hy⟩ : ∃ y, (Token.renderAll (embraced ts)).toList ++ w =
      (Trivia.render (Token.frontTrivia ts)).toList ++ '\x7b' :: y := by
    rw [embraced, Token.renderAll_cons, Token.render]
    simp
  -- The texts part where the first of the tokens was and the brace is now.
  have hz : Joint Stop (d :: x) ('\x7b' :: y) := .cons ⟨hd, .inl (by decide)⟩
  have hp : p.ahead = (Trivia.render (Token.frontTrivia ts)).toList ++ d :: x := by
    rw [hlead.reads.1, hr]
  have htied : Place.Tied (d :: x) ('\x7b' :: y) ⟨[], s⟩ ⟨[], s'⟩ := by
    refine ⟨rfl, (Token.renderAll pre).toList ++ (Trivia.render (Token.frontTrivia ts)).toList,
      ?_, ?_⟩
    · rw [hpre.reads.1, hp, List.append_assoc]
    · rw [hs', hy, List.append_assoc]
  obtain ⟨p', hpre', hline, m, hm, hm'⟩ := hpre.tied hz htied (by rw [hp]; simp)
  obtain rfl := List.append_cancel_right (hm.symm.trans hp)
  exact ⟨p', hpre', hline, by rw [hm', hy]⟩

/-- Tokens of which the last one is a lone mark can be put in braces, and all tokens are read again
with the two braces around them. -/
theorem tokenize_embraced {source : String} {pre mid post : List Token}
    (h : tokenize source = .ok (pre ++ (mid ++ post))) (hlast : mid.getLast? = some last)
    (hc : c ∈ halts) (htext : last.text = String.ofList [c]) :
    tokenize (Token.renderAll (pre ++ (embraced mid ++ post))) =
      .ok (pre ++ (embraced mid ++ post)) := by
  have hne : mid ≠ [] := by
    rintro rfl
    cases hlast
  have htextne : last.text ≠ "" := by
    rw [htext]
    intro he
    simpa using congrArg String.toList he
  obtain ⟨post', leading, p, q, r, rfl, hpre, hmid, hpost, hdone⟩ :=
    exists_run_of_tokenize h hlast htextne
  have hq : q.ahead = (Token.renderAll (post' ++ [.endOfFile leading])).toList := by
    obtain ⟨e, hlead, hend⟩ := hdone
    rw [hpost.reads.1, hlead.reads.1, hend]
    simp [Token.render, Token.endOfFile]
  have hnew : (Token.renderAll (pre ++ (embraced mid ++ (post' ++ [.endOfFile leading])))).toList =
      (Token.renderAll pre).toList ++ ((Token.renderAll (embraced mid)).toList ++ q.ahead) := by
    rw [hq]
    simp
  obtain ⟨p', hpre', hline, hp'⟩ := hpre.exists_in_front hmid hne hnew
  obtain ⟨q', hmid', hq'⟩ := hmid.exists_embraced hlast hc htext hline hp'
  obtain ⟨r', hpost', hr'⟩ := hpost.tied .nil hq' (by simp)
  have hrun := hpre'.append (hmid'.append hpost')
  rw [tokenize]
  simpa using tokensFrom_of_run hrun (hdone.congr hr') (Nat.lt_succ_self _)

end embraced

end PluginLint.Lexer
