import PluginLint.Proofs.Progress.Files
import PluginLint.Proofs.Trees.Leaves

/-!
# All or nothing

A phrase that is tried either places tokens or leaves the parse exactly as it was, with no token
placed and no problem noted on the way to finding out. This is what the loops that set a token aside
rely on: whatever they try there, each round places a token.
-/
namespace PluginLint.Grammar

/-- The parse is further on: tokens have been placed, and what had been noted stays. -/
structure Advances (b b' : Builder) : Prop where
  moved : ∃ moved, moved ≠ [] ∧ b.ahead = moved ++ b'.ahead ∧
    b'.offset = b.offset + Token.widthAll moved
  errors : b.errors <:+ b'.errors

/-- The step finds nothing and leaves all as it was, or it finds something and moves on. -/
def AllOrNothing (p : Parse Bool) (b : Builder) : Prop :=
  p b = .ok (false, b) ∨ ∃ b', p b = .ok (true, b') ∧ Advances b b'

variable {n : Nat} {g : Phrases} {b b' : Builder} {new : List Tree} {p : Parse Bool}

theorem widthAll_of_retagged {ts us : List Token} (h : List.Forall₂ Retagged ts us) :
    Token.widthAll us = Token.widthAll ts := by
  induction h with
  | nil => rfl
  | cons ht _ ih => rw [Token.widthAll_cons, Token.widthAll_cons, ht.width, ih]

/-- New parts are made of tokens that were ahead. -/
theorem Grown.advances (h : Grown b b' new) (hnew : new ≠ []) : Advances b b' := by
  have hlt := h.shorter hnew
  obtain ⟨moved, hahead, hretagged, -⟩ := h.moved
  refine ⟨⟨moved, ?_, hahead, ?_⟩, h.errors⟩
  · rintro rfl
    rw [hahead] at hlt
    exact Nat.lt_irrefl _ hlt
  · rw [h.offset, Tree.widthAll_eq, widthAll_of_retagged hretagged]

/-- A phrase that places one part or does nothing, where it does not panic. -/
theorem allOrNothing_of_tried {K : NodeKind → Prop} (hl : Legible b.ahead)
    (hruns : Runs p b.ahead Any) (hyields : Yields p b (Tried K b)) : AllOrNothing p b := by
  obtain ⟨found, b', hrun, -⟩ := hruns hl b rfl
  obtain ⟨new, hgrown, htried⟩ := hyields hl.ended found b' hrun
  cases found with
  | false =>
    obtain ⟨rfl, -⟩ := htried
    exact .inl hrun
  | true =>
    obtain ⟨x, rfl, -⟩ := htried
    exact .inr ⟨b', hrun, hgrown.advances (by simp)⟩

/-- Behind what is followed as a type the parse does not go back: there is a type. -/
theorem exists_type_of_followed {rest : List Token} (hl : Legible b.ahead) (hn : b.ahead.length < n)
    (h : skipType n b.ahead = .ok (some rest)) :
    ∃ b', phrases n .type b = .ok (true, b') ∧ Advances b b' := by
  cases n with
  | zero => cases h
  | succ n =>
    -- The look-ahead has seen how a type begins, and the phrase decides by that alone.
    obtain ⟨found, b', hrun, -⟩ := (able_phrases (n + 1)).type b.ahead (by omega) hl b rfl
    obtain ⟨new, hgrown, rfl, x, rfl, -⟩ := yields_typePhrase_of (sound_phrases n) true true
      (startsType_of_skipType h) hl.ended found b' hrun
    exact ⟨b', hrun, hgrown.advances (by simp)⟩

theorem exists_member (hl : Legible b.ahead) (hn : b.ahead.length < n)
    (h : startsEnd b.ahead = false) :
    ∃ b', phrases n .member b = .ok (true, b') ∧ Advances b b' := by
  cases n with
  | zero => exact absurd hn (Nat.not_lt_zero _)
  | succ n =>
    obtain ⟨_, b', hrun, -⟩ := runs_member (able_phrases n) h hn hl b rfl
    obtain ⟨new, hgrown, x, rfl, -⟩ := yields_member (sound_phrases n) h hl.ended () b' hrun
    refine ⟨b', ?_, hgrown.advances (by simp)⟩
    change (member (n + 1) (phrases n) b >>= fun r => Except.ok (true, r.2)) = .ok (true, b')
    rw [hrun]
    rfl

/-- Wherever the parse of a text that was cut into tokens is, and whatever has been noted so far: a
statement, an expression, a type, a pattern, an argument or a parameter is found, and the parse
moves on, or it is not found, and nothing has changed. A member is always found in front of the end
of the file. What has been followed as a type is found to be one, so no phrase is given up in its
middle. -/
theorem phrases_allOrNothing {source : String} {tokens : List Token}
    (h : Lexer.tokenize source = .ok tokens) (n : Nat) (b : Builder) (hb : b.ahead <:+ tokens)
    (hne : b.ahead ≠ []) (hn : b.ahead.length < n) :
    AllOrNothing (phrases n .statement) b ∧ AllOrNothing (phrases n .expression) b ∧
      AllOrNothing (phrases n .type) b ∧ AllOrNothing (pattern (n + 1)) b ∧
      (∀ typed, AllOrNothing (argument (n + 1) (phrases n) typed) b) ∧
      (∀ close, AllOrNothing (parameter (n + 1) (phrases n) close) b) ∧
      (startsEnd b.ahead = false → ∃ b', phrases n .member b = .ok (true, b') ∧ Advances b b') ∧
      ∀ rest, skipType n b.ahead = .ok (some rest) →
        ∃ b', phrases n .type b = .ok (true, b') ∧ Advances b b' := by
  have hl : Legible b.ahead := (legible_of_tokenize h).of_suffix hb hne
  have hg := able_phrases n
  have hlt : b.ahead.length + 1 < n + 1 := by omega
  refine ⟨?_, ?_, ?_, ?_, fun typed => ?_, fun close => ?_, exists_member hl hn,
    fun rest => exists_type_of_followed hl hn⟩
  · exact allOrNothing_of_tried hl (hg.statement _ hlt) (hg.sound.statement b)
  · exact allOrNothing_of_tried hl (hg.expression _ hlt) (hg.sound.expression b)
  · exact allOrNothing_of_tried hl (hg.type _ hlt) (hg.sound.type b)
  · exact allOrNothing_of_tried hl (safe_pattern _ hlt) yields_pattern
  · exact allOrNothing_of_tried hl (safe_argument hg typed _ hlt) (yields_argument hg.sound typed)
  · exact allOrNothing_of_tried hl (safe_parameter hg close _ hlt) (yields_parameter hg.sound close)

/-- A stray parenthesis, at which no statement is found, with a problem noted before it, and a type
behind it. -/
theorem phrases_allOrNothing_stray :
    ∃ tokens b b' c c' rest, Lexer.tokenize ")int x;" = .ok tokens ∧
      b.ahead = tokens ∧ b.errors ≠ [] ∧ phrases 9 .statement b = .ok (false, b) ∧
      startsEnd b.ahead = false ∧ phrases 9 .member b = .ok (true, b') ∧ Advances b b' ∧
      c.ahead = tokens.drop 1 ∧ skipType 9 c.ahead = .ok (some rest) ∧
      phrases 9 .type c = .ok (true, c') ∧ Advances c c' := by
  have hseen : (Lexer.tokenize ")int x;").toOption.map (fun ts =>
      (ts.length, startsEnd ts,
        (phrases 9 .statement { ahead := ts, errors := [⟨0, ""⟩] }).toOption.map Prod.fst,
        (skipType 9 (ts.drop 1)).toOption.map Option.isSome)) =
      some (5, false, some false, some true) := by
    decide +kernel
  cases h : Lexer.tokenize ")int x;" with
  | error e =>
    rw [h] at hseen
    cases hseen
  | ok tokens =>
    simp only [h, Except.toOption, Option.map_some, Option.some.injEq, Prod.mk.injEq] at hseen
    obtain ⟨hlength, hend, hstatement, htype⟩ := hseen
    obtain ⟨hnothing, -, -, -, -, -, hmember, -⟩ :=
      phrases_allOrNothing h 9 { ahead := tokens, errors := [⟨0, ""⟩] } List.suffix_rfl
        (List.ne_nil_of_length_pos (by rw [hlength]; decide)) (by rw [hlength]; decide)
    obtain ⟨-, -, -, -, -, -, -, hfollowed⟩ :=
      phrases_allOrNothing h 9 { ahead := tokens.drop 1, offset := 1 } (List.drop_suffix 1 tokens)
        (List.ne_nil_of_length_pos (by rw [List.length_drop, hlength]; decide))
        (by rw [List.length_drop, hlength]; decide)
    rcases hnothing with hnothing | ⟨_, hfound, -⟩
    · obtain ⟨b', hmember⟩ := hmember hend
      cases hskip : skipType 9 (tokens.drop 1) with
      | error e =>
        rw [hskip] at htype
        cases htype
      | ok found =>
        cases found with
        | none =>
          rw [hskip] at htype
          cases htype
        | some rest =>
          obtain ⟨c', hfollowed⟩ := hfollowed rest hskip
          exact ⟨tokens, _, b', _, c', rest, rfl, rfl, by simp, hnothing, hend, hmember.1, hmember.2,
            rfl, hskip, hfollowed.1, hfollowed.2⟩
    · rw [hfound] at hstatement
      cases hstatement

end PluginLint.Grammar
