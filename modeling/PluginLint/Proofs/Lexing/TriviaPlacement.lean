import PluginLint.Proofs.Lexing.Runs

/-!
# Where trivia stand

Trivia behind a token go up to and including the first line break, and a directive never stands
there, since it needs a line of its own. Everything else between two tokens stands in front of the
second one. Together with the fact that no text is lost this leaves one way to write a file as
tokens.
-/
namespace PluginLint.Lexer

open Cursor

/-- What may stand behind a token: no directive, and no line break in front of another piece. -/
structure Trails (pieces : List Trivia) : Prop where
  directive : ∀ t ∈ pieces, t.kind ≠ .directive
  endOfLine : ∀ t ∈ pieces.dropLast, t.kind ≠ .endOfLine

theorem Trails.nil : Trails [] := ⟨by simp, by simp⟩

theorem Trails.singleton {t : Trivia} (ht : t.kind ≠ .directive) : Trails [t] :=
  ⟨by simpa using ht, by simp⟩

theorem Trails.cons {t : Trivia} {pieces : List Trivia} (ht : t.kind ≠ .directive)
    (hbreak : t.kind ≠ .endOfLine) (h : Trails pieces) : Trails (t :: pieces) := by
  constructor
  · intro u hu
    rcases List.mem_cons.1 hu with rfl | hu
    · exact ht
    · exact h.directive u hu
  · intro u hu
    cases pieces with
    | nil => simp at hu
    | cons v pieces =>
      rw [List.dropLast_cons_of_ne_nil (List.cons_ne_nil v pieces)] at hu
      rcases List.mem_cons.1 hu with rfl | hu
      · exact hbreak
      · exact h.endOfLine u hu

/-- Behind a token a directive is not looked for. -/
theorem kind_ne_directive_of_triviaPiece {behind : List Char} {k k' : Cursor} {kind : TriviaKind}
    (h : triviaPiece true behind k = some (kind, k')) : kind ≠ .directive := by
  unfold triviaPiece at h
  split at h
  · cases h
  · rename_i c rest hk
    simp only [Bool.not_true, Bool.and_false, Bool.false_and, Bool.false_eq_true, if_false] at h
    rintro rfl
    split_ifs at h <;> cases h

theorem trails_trivia (fuel : Nat) (p : Place) : Trails (trivia true fuel p).1 := by
  induction fuel generalizing p with
  | zero => exact Trails.nil
  | succ fuel ih =>
    rw [trivia]
    split
    · exact Trails.nil
    · rename_i kind k hk
      have hkind : kind ≠ .directive := kind_ne_directive_of_triviaPiece hk
      by_cases hbreak : kind = .endOfLine
      · simpa [hbreak] using Trails.singleton (t := ⟨kind, k.lexeme⟩) hkind
      · have hrest := ih ⟨k.taken ++ p.behind, k.ahead⟩
        simpa [hbreak] using hrest.cons (t := ⟨kind, k.lexeme⟩) hkind hbreak

section

variable {p q : Place} {t : Token} {ts : List Token}

theorem Skips.trails {pieces : List Trivia} (h : Skips true p pieces q) : Trails pieces := by
  obtain ⟨fuel, -, htrivia⟩ := h
  have htrails := trails_trivia fuel p
  rwa [htrivia] at htrails

/-- What holds of the trivia around every token. -/
structure WellPlaced (t : Token) : Prop where
  text_ne : ∀ piece ∈ t.leading ++ t.trailing, piece.text ≠ ""
  trails : Trails t.trailing

theorem Step.wellPlaced (h : Step p t q) : WellPlaced t := by
  obtain ⟨r, s, hlead, -, htrail⟩ := h
  refine ⟨fun piece hpiece => ?_, htrail.trails⟩
  rcases List.mem_append.1 hpiece with hpiece | hpiece
  · exact hlead.text_ne piece hpiece
  · exact htrail.text_ne piece hpiece

theorem Run.wellPlaced (h : Run p ts q) : ∀ t ∈ ts, WellPlaced t := by
  induction h with
  | nil => simp
  | cons hstep _ ih =>
    intro u hu
    rcases List.mem_cons.1 hu with rfl | hu
    · exact hstep.wellPlaced
    · exact ih u hu

theorem Done.wellPlaced {leading : List Trivia} (h : Done p leading) :
    WellPlaced (.endOfFile leading) := by
  obtain ⟨q, hlead, -⟩ := h
  constructor
  · simpa [Token.endOfFile] using hlead.text_ne
  · exact Trails.nil

end

/-- The tokens of a text give it back, piece for piece, and no piece is empty. The only end of the
file is the last token, which has no text and nothing behind it. What stands behind a token ends
with its first line break and holds no directive. -/
theorem tokenize_canonical {source : String} {ts : List Token} (h : tokenize source = .ok ts) :
    Token.renderAll ts = source ∧
      (∃ init leading, ts = init ++ [⟨.endOfFile, "", leading, []⟩] ∧
        ∀ t ∈ init, t.kind ≠ .endOfFile ∧ t.text ≠ "") ∧
      ∀ t ∈ ts, (∀ piece ∈ t.leading ++ t.trailing, piece.text ≠ "") ∧
        (∀ piece ∈ t.trailing, piece.kind ≠ .directive) ∧
        ∀ piece ∈ t.trailing.dropLast, piece.kind ≠ .endOfLine := by
  obtain ⟨hrender, init, leading, hts, hinit⟩ := tokenize_lossless h
  have hplaced : ∀ t ∈ ts, WellPlaced t := by
    obtain ⟨init', leading', q, hts', hrun, hdone⟩ := run_of_tokensFrom h (Nat.lt_succ_self _)
    intro t ht
    rw [hts', List.mem_append, List.mem_singleton] at ht
    rcases ht with ht | rfl
    · exact hrun.wellPlaced t ht
    · exact hdone.wellPlaced
  refine ⟨hrender, ⟨init, leading, hts, fun t ht => ?_⟩, fun t ht => ?_⟩
  · have ⟨hend, htext⟩ := hinit t ht
    exact ⟨by simpa [Token.isEnd] using hend, htext⟩
  · have hwell := hplaced t ht
    exact ⟨hwell.text_ne, hwell.trails.directive, hwell.trails.endOfLine⟩

/-- Two line breaks, a comment and a directive between two tokens. -/
theorem tokenize_canonical_directive :
    ∃ ts : List Token, ts =
        [⟨.identifier, "a", [], [.space, ⟨.lineComment, "// b"⟩, ⟨.endOfLine, "\n"⟩]⟩,
          ⟨.identifier, "d",
            [⟨.endOfLine, "\n"⟩, .space, ⟨.directive, "#c"⟩, ⟨.endOfLine, "\n"⟩], []⟩,
          .endOfFile []] ∧
      tokenize "a // b\n\n #c\nd" = .ok ts ∧
      Token.renderAll ts = "a // b\n\n #c\nd" ∧
      (∃ init leading, ts = init ++ [⟨.endOfFile, "", leading, []⟩] ∧
        ∀ t ∈ init, t.kind ≠ .endOfFile ∧ t.text ≠ "") ∧
      ∀ t ∈ ts, (∀ piece ∈ t.leading ++ t.trailing, piece.text ≠ "") ∧
        (∀ piece ∈ t.trailing, piece.kind ≠ .directive) ∧
        ∀ piece ∈ t.trailing.dropLast, piece.kind ≠ .endOfLine :=
  ⟨_, rfl, by decide +kernel, tokenize_canonical (by decide +kernel)⟩

end PluginLint.Lexer
