import PluginLint.Proofs.Lexing.AddedBraces
import PluginLint.Proofs.Lexing.BrokenStrings

/-!
# A text alone and behind another

What is read of a text depends on what stands in front of it in one way only: a directive stands at
the start of a line. So a text that does not begin with one is read alike alone and behind another
text. Behind a token it makes no difference either whether the scan goes on in front of the trivia
that follow the token or behind them.
-/
namespace PluginLint.Lexer

open Cursor

/-- A blank that may stand in front of a directive. -/
def isIndent (c : Char) : Bool := c == ' ' || c == '\t'

/-- Behind blanks the first character is `#`. -/
def StartsDirective (s : List Char) : Prop := (s.dropWhile isIndent).head? = some '#'

instance (s : List Char) : Decidable (StartsDirective s) := inferInstanceAs (Decidable (_ = _))

/-- The same is ahead, and a directive may stand at both places or at none, or there is none. -/
def Place.Level (p p' : Place) : Prop :=
  p.ahead = p'.ahead ∧
    (atLineStart p.behind = atLineStart p'.behind ∨ ¬StartsDirective p.ahead)

section level

variable {p p' q q' r : Place}

/-- Behind a text that is not all blanks it does not matter what stands in front. -/
theorem atLineStart_append_of_not_indent {u : List Char} (hu : u.all isIndent = false)
    (b b' : List Char) : atLineStart (u ++ b) = atLineStart (u ++ b') := by
  induction u with
  | nil => cases hu
  | cons c u ih =>
    by_cases hline : c = '\n'
    · simp [atLineStart, hline]
    by_cases hc : isIndent c = true
    · have hrest : u.all isIndent = false := by simpa [hc] using hu
      have hboth := ih hrest
      simp only [atLineStart] at hboth
      simp [atLineStart, hline, hboth]
    · simp only [isIndent, Bool.not_eq_true] at hc
      simp [atLineStart, hline, hc]

/-- Reading the same from both places keeps them level. -/
theorem Place.Level.reads {u : List Char} (h : p.Level p') (hq : p.Reads u q)
    (hq' : p'.Reads u q') : q.Level q' := by
  refine ⟨List.append_cancel_left (hq.1.symm.trans (h.1.trans hq'.1)), ?_⟩
  rcases h.2 with hb | hno
  · exact .inl (hq.atLineStart_eq hq' hb)
  cases hu : u.all isIndent with
  | true =>
    refine .inr fun hstart => hno ?_
    rw [StartsDirective, hq.1, List.dropWhile_append_of_pos (List.all_eq_true.1 hu)]
    exact hstart
  | false =>
    have hreverse : u.reverse.all isIndent = false := by rw [List.all_reverse, hu]
    rw [hq.2, hq'.2]
    exact .inl (atLineStart_append_of_not_indent hreverse _ _)

theorem Place.Level.triviaPiece_eq (h : p.Level p') (trailing : Bool) :
    triviaPiece trailing p.behind (start p.ahead) =
      triviaPiece trailing p'.behind (start p'.ahead) := by
  rw [← h.1]
  rcases h.2 with hb | hno
  · unfold triviaPiece
    rw [hb]
  · have hhash : p.ahead.head? ≠ some '#' := by
      intro hhash
      obtain ⟨s, hs⟩ := List.head?_eq_some_iff.1 hhash
      rw [StartsDirective, hs] at hno
      exact hno rfl
    unfold triviaPiece
    cases hs : p.ahead with
    | nil => rfl
    | cons c s =>
      have hc : (c == '#') = false := by simpa [hs] using hhash
      simp [start, hc]

theorem Place.Level.symm (h : p.Level p') : p'.Level p :=
  ⟨h.1.symm, h.1 ▸ h.2.imp_left Eq.symm⟩

theorem Skips.level {trailing : Bool} {pieces : List Trivia} (h : Skips trailing p pieces q)
    (hp : p.Level p') : ∃ q', Skips trailing p' pieces q' ∧ q.Level q' := by
  have hpieces : ∀ (fuel : Nat) {p p' : Place}, p.Level p' →
      (trivia trailing fuel p).1 = (trivia trailing fuel p').1 := by
    intro fuel
    induction fuel with
    | zero => exact fun _ => rfl
    | succ fuel ih =>
      intro p p' hp
      rw [trivia, trivia, hp.triviaPiece_eq trailing]
      cases hpiece : triviaPiece trailing p'.behind (start p'.ahead) with
      | none => rfl
      | some found =>
        obtain ⟨kind, k⟩ := found
        have hreach := (advances_triviaPiece hpiece).1
        have hreach' : (start p.ahead).Reaches k := hp.1 ▸ hreach
        have hnext := ih (hp.reads (.of_reaches hreach') (.of_reaches hreach))
        dsimp only
        split
        · rfl
        · exact congrArg (_ :: ·) hnext
  obtain ⟨fuel, hf, htrivia⟩ := h
  have hf' : p'.ahead.length < fuel := by rwa [← hp.1]
  have hskips := skips_trivia trailing hf'
  have hread : p.Reads (Trivia.render pieces).toList q := Skips.reads ⟨fuel, hf, htrivia⟩
  rw [← hpieces fuel hp, htrivia] at hskips
  exact ⟨_, hskips, hp.reads hread hskips.reads⟩

theorem Run.level {ts : List Token} (h : Run p ts q) (hp : p.Level p') :
    ∃ q', Run p' ts q' ∧ q.Level q' := by
  induction h generalizing p' with
  | nil => exact ⟨p', .nil, hp⟩
  | cons hstep _ ih =>
    obtain ⟨r, s, hlead, htake, htrail⟩ := hstep
    obtain ⟨r', hlead', hr⟩ := hlead.level hp
    have htake' := htake.of_ahead_eq r' hr.1.symm
    obtain ⟨q', htrail', hq⟩ := htrail.level (hr.reads htake.reads.1 htake'.reads.1)
    obtain ⟨m, hrun, hm⟩ := ih hq
    exact ⟨m, .cons ⟨r', _, hlead', htake', htrail'⟩ hrun, hm⟩

/-- Level places both come to a broken literal, or none does. -/
theorem Breaks.level (h : Breaks p) (hp : p.Level p') : Breaks p' := by
  obtain ⟨ts, q, leading, r, hrun, hskips, hbroken⟩ := h
  obtain ⟨q', hrun', hq⟩ := hrun.level hp
  obtain ⟨r', hskips', hr⟩ := hskips.level hq
  exact ⟨ts, q', leading, r', hrun', hskips', hr.1 ▸ hbroken⟩

/-! ### Trivia behind a token -/

theorem triviaPiece_false_of_true {behind : List Char} {k : Cursor} {found : TriviaKind × Cursor}
    (h : triviaPiece true behind k = some found) : triviaPiece false behind k = some found := by
  unfold triviaPiece at h ⊢
  split at h
  · cases h
  · split_ifs at h ⊢ <;> simp_all

theorem skips_cons {kind : TriviaKind} {k : Cursor} {pieces : List Trivia}
    (hpiece : triviaPiece false p.behind (start p.ahead) = some (kind, k))
    (h : Skips false ⟨k.taken ++ p.behind, k.ahead⟩ pieces q) :
    Skips false p (⟨kind, k.lexeme⟩ :: pieces) q := by
  have hlt : k.ahead.length < p.ahead.length := (advances_triviaPiece hpiece).2
  refine ⟨p.ahead.length + 1, Nat.lt_succ_self _, ?_⟩
  rw [trivia, hpiece]
  dsimp only
  rw [h.within hlt]
  simp

/-- Trivia behind a token and those in front of the next one are one run. -/
theorem Skips.merge {pieces pieces' : List Trivia} (h : Skips true p pieces q)
    (h' : Skips false q pieces' r) : Skips false p (pieces ++ pieces') r := by
  obtain ⟨fuel, -, htrivia⟩ := h
  induction fuel generalizing p pieces with
  | zero =>
    cases htrivia
    exact h'
  | succ fuel ih =>
    rw [trivia] at htrivia
    split at htrivia
    · cases htrivia
      exact h'
    · rename_i kind k hpiece
      dsimp only at htrivia
      split at htrivia
      · cases htrivia
        exact skips_cons (triviaPiece_false_of_true hpiece) h'
      · cases htrivia
        exact skips_cons (triviaPiece_false_of_true hpiece) (ih rfl)

/-- Which tokens are read, and whether they can be, depends on where the first trivia lead. -/
theorem Breaks.of_skips (h : Breaks p)
    (hlead : ∀ {pieces m}, Skips false p pieces m → ∃ pieces', Skips false q pieces' m) :
    Breaks q := by
  obtain ⟨ts, r, leading, m, hrun, hskips, hbroken⟩ := h
  cases hrun with
  | nil =>
    obtain ⟨leading', hskips'⟩ := hlead hskips
    exact ⟨[], q, leading', m, .nil, hskips', hbroken⟩
  | @cons _ _ _ t ts hstep hrun =>
    obtain ⟨r', s, hfirst, htake, htrail⟩ := hstep
    obtain ⟨leading', hfirst'⟩ := hlead hfirst
    have hstep' : Step q { t with leading := leading' } _ := ⟨r', s, hfirst', htake, htrail⟩
    exact ⟨_ :: ts, r, leading, m, .cons hstep' hrun, hskips, hbroken⟩

/-- The scan comes to a broken literal from where a token ends exactly if it does from behind the
trivia that follow the token. -/
theorem breaks_iff_of_skips {pieces : List Trivia} (h : Skips true p pieces q) :
    Breaks p ↔ Breaks q := by
  constructor
  · intro hbreaks
    refine hbreaks.of_skips fun {pieces' m} hp => ?_
    have hq := skips_trivia (p := q) false (Nat.lt_succ_self _)
    obtain ⟨-, rfl⟩ := (h.merge hq).unique hp
    exact ⟨_, hq⟩
  · intro hbreaks
    exact hbreaks.of_skips fun hq => ⟨_, h.merge hq⟩

end level

/-- A text has tokens exactly if the scan does not come to a broken literal. -/
theorem exists_tokensFrom_iff {p : Place} {fuel : Nat} (hf : p.ahead.length < fuel) :
    (∃ ts, tokensFrom fuel p = .ok ts) ↔ ¬Breaks p := by
  rw [← tokensFrom_eq_error_iff hf]
  cases h : tokensFrom fuel p with
  | error e =>
    obtain rfl := eq_brokenString_of_tokensFrom h
    simp
  | ok ts => simp

/-- The first token of a text that no trivia lead is what is taken there, if the text behind it can
be read. -/
theorem exists_tokenize_cons_iff {s : List Char} {kind : TokenKind} {text : String} {q : Place}
    (hlead : Skips false ⟨[], s⟩ [] ⟨[], s⟩) (htake : Takes ⟨[], s⟩ kind text q) (text' : String) :
    (∃ trailing more, tokenize (String.ofList s) =
      .ok (⟨kind, text', [], trailing⟩ :: more)) ↔ text = text' ∧ ¬Breaks q := by
  obtain ⟨pieces, behind, htrail⟩ : ∃ pieces behind, Skips true q pieces behind :=
    ⟨_, _, skips_trivia true (Nat.lt_succ_self _)⟩
  have hstep : Step _ ⟨kind, text, [], pieces⟩ behind := ⟨_, q, hlead, htake, htrail⟩
  have htokens := tokensFrom_of_step hstep (Nat.lt_succ_self _)
  have hreadable : (∃ ts, tokensFrom s.length behind = .ok ts) ↔ ¬Breaks q := by
    rw [breaks_iff_of_skips htrail]
    exact exists_tokensFrom_iff (Nat.lt_of_le_of_lt htrail.reads.length_le htake.reads.2)
  rw [tokenize, String.toList_ofList, ← hreadable]
  constructor
  · rintro ⟨trailing, more, hmore⟩
    rw [htokens] at hmore
    cases hts : tokensFrom s.length behind with
    | error e => rw [hts] at hmore; cases hmore
    | ok ts =>
      rw [hts] at hmore
      obtain ⟨⟨htext, -⟩, -⟩ : (text = text' ∧ _) ∧ _ := by simpa [Except.map] using hmore
      exact ⟨htext, ts, rfl⟩
  · rintro ⟨rfl, ts, hts⟩
    rw [hts] at htokens
    exact ⟨pieces, ts, htokens⟩

end PluginLint.Lexer
