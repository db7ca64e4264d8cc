import PluginLint.Proofs.Moves.Files

/-!
# Problems stand at tokens, in order

The offset of a parse is the width of the tokens placed, since a token that is read as a keyword is
as wide as before. A problem is noted at the text of the token that comes next, and no move goes
back: so each problem stands behind those noted before it, unless it stands at the same token as the
last of them, and then it is not noted.
-/
namespace PluginLint

/-- In a source that is cut into these tokens, the text of one of them starts at the offset. -/
def TextStarts (source : String) (tokens : List Token) (offset : Nat) : Prop :=
  ∃ front t back before after, tokens = front ++ t :: back ∧
    before = Token.renderAll front ++ Trivia.render t.leading ∧
    source = before ++ (t.text ++ after) ∧ before.utf8ByteSize = offset

/-- The text starts at the offset if the widths of the tokens in front add up to it. -/
theorem textStarts_renderAll {front back : List Token} {t : Token} {offset : Nat}
    (h : offset = Token.widthAll front + Trivia.width t.leading) :
    TextStarts (Token.renderAll (front ++ t :: back)) (front ++ t :: back) offset := by
  refine ⟨front, t, back, _, Trivia.render t.trailing ++ Token.renderAll back, rfl, rfl, ?_, ?_⟩
  · simp [Token.renderAll_append, Token.render, String.append_assoc]
  · rw [String.utf8ByteSize_append, Token.utf8ByteSize_renderAll, Trivia.utf8ByteSize_render, h]

theorem TextStarts.le_size {source : String} {tokens : List Token} {offset : Nat}
    (h : TextStarts source tokens offset) : offset ≤ source.utf8ByteSize := by
  obtain ⟨front, t, back, before, after, -, -, rfl, rfl⟩ := h
  rw [String.utf8ByteSize_append]
  omega

namespace Grammar

/-- The parse stands where its offset says, and no problem has been noted further on. -/
structure Located (tokens : List Token) (b : Builder) : Prop where
  placed : ∃ front, tokens = front ++ b.ahead ∧ b.offset = Token.widthAll front
  starts : ∀ e ∈ b.errors, TextStarts (Token.renderAll tokens) tokens e.offset
  reached : ∀ e ∈ b.errors, ∀ t ∈ b.ahead.head?, e.offset ≤ b.offset + Trivia.width t.leading
  ordered : b.errors.Pairwise fun e e' => e'.offset < e.offset

namespace Located

variable {tokens : List Token} {b : Builder}

theorem start (tokens : List Token) : Located tokens { ahead := tokens } :=
  ⟨⟨[], rfl, rfl⟩, by simp, by simp, .nil⟩

theorem place {t : Token} {rest : List Token} {parts : Array Tree} (h : Located tokens b)
    (hb : b.ahead = t :: rest) :
    Located tokens { b with ahead := rest, offset := b.offset + t.width, parts } := by
  obtain ⟨front, hfront, hoffset⟩ := h.placed
  refine ⟨⟨front ++ [t], by simp [hfront, hb], by simp [hoffset]⟩, h.starts, ?_, h.ordered⟩
  intro e he u _
  have hle := h.reached e he t (by simp [hb])
  have hwidth : Trivia.width t.leading ≤ t.width := by
    unfold Token.width
    omega
  dsimp only
  omega

/-- A problem at another offset than the last one stands behind all of them. -/
theorem note {t : Token} {rest : List Token} (h : Located tokens b) (hb : b.ahead = t :: rest)
    (he : ∀ e ∈ b.errors.head?, e.offset ≠ b.offset + Trivia.width t.leading) (message : String) :
    Located tokens { b with
      errors := ⟨b.offset + Trivia.width t.leading, message⟩ :: b.errors } := by
  have hle : ∀ e ∈ b.errors, e.offset ≤ b.offset + Trivia.width t.leading := fun e he =>
    h.reached e he t (by simp [hb])
  have hlt : ∀ e ∈ b.errors, e.offset < b.offset + Trivia.width t.leading := by
    have hordered := h.ordered
    cases herrors : b.errors with
    | nil => simp
    | cons last earlier =>
      rw [herrors] at hle he hordered
      have hlast := Nat.lt_of_le_of_ne (hle last (by simp)) (he last rfl)
      intro e hmem
      rcases List.mem_cons.1 hmem with rfl | hmem
      · exact hlast
      · exact Nat.lt_trans (List.rel_of_pairwise_cons hordered hmem) hlast
  obtain ⟨front, hfront, hoffset⟩ := h.placed
  refine ⟨⟨front, hfront, hoffset⟩, ?_, ?_, .cons hlt h.ordered⟩
  · intro e hmem
    rcases List.mem_cons.1 hmem with rfl | hmem
    · rw [hfront, hb]
      exact textStarts_renderAll (by rw [hoffset])
    · exact h.starts e hmem
  · intro e hmem u hu
    obtain rfl : t = u := by simpa [hb] using hu
    rcases List.mem_cons.1 hmem with rfl | hmem
    · exact Nat.le_refl _
    · exact hle e hmem

end Located

theorem Makes.located {tokens : List Token} {b b' : Builder} (h : Makes b b')
    (hb : Located tokens b) : Located tokens b' := by
  induction h with
  | refl => exact hb
  | trans _ _ ih ih' => exact ih' (ih hb)
  | place hts _ _ => exact hb.place hts
  | note hts he message => exact hb.note hts he message
  -- What becomes of the parts changes neither what is ahead nor the problems.
  | gather _ _ ih | inline _ ih | wrap _ _ ih =>
    have := ih ⟨hb.placed, hb.starts, hb.reached, hb.ordered⟩
    exact ⟨this.placed, this.starts, this.reached, this.ordered⟩
  | wrapAll => exact ⟨hb.placed, hb.starts, hb.reached, hb.ordered⟩

end Grammar

namespace SourceFile

/-- In every file whose text can be cut into tokens, the problems stand at texts of tokens, at most
one at each and in the order of the file, and there is one if anything was set aside as an error. -/
theorem parse_orders_problems (path : String) {source : String} {tokens : List Token}
    (h : Lexer.tokenize source = .ok tokens) :
    ∃ f, parse path source = .ok f ∧
      f.errors.Pairwise (fun e e' => e.offset < e'.offset) ∧
      (∀ e ∈ f.errors, TextStarts source tokens e.offset ∧ e.offset ≤ source.utf8ByteSize) ∧
      (f.errors = [] → ∀ n ∈ f.nodes, n.kind ≠ .error) := by
  obtain ⟨f, b, _, hf, hmakes, herrors, hkind, hparts⟩ := exists_makes_of_tokenize path h
  have hlocated := hmakes.located (.start tokens)
  refine ⟨f, hf, ?_, fun e he => ?_, fun hnone n hn => ?_⟩
  · rw [herrors, List.pairwise_reverse]
    exact hlocated.ordered
  · have hstarts := hlocated.starts e (by simpa [herrors] using he)
    rw [(Lexer.tokenize_lossless h).1] at hstarts
    exact ⟨hstarts, hstarts.le_size⟩
  · have hempty : b.errors = [] := by simpa [herrors] using hnone
    refine closed_of_mem_nodes (S := fun kind _ => kind ≠ .error) hmakes hparts ?_ ?_ hn
    · rw [hkind]
      decide
    · intro kind parts errors hsuffix hk hkerror
      rw [hempty, List.suffix_nil] at hsuffix
      exact hk.noted hkerror hsuffix

/-- Two problems, the second at the end of the file. -/
theorem parse_orders_problems_brace :
    Lexer.tokenize "\x7d return 1" = .ok
      [⟨.punct, "\x7d", [], [.space]⟩, ⟨.keyword, "return", [], [.space]⟩,
        ⟨.numericLiteral, "1", [], []⟩, .endOfFile []] ∧
    ∃ f, parse "Brace.cs" "\x7d return 1" = .ok f ∧
      f.errors.Pairwise (fun e e' => e.offset < e'.offset) ∧
      (∀ e ∈ f.errors, TextStarts "\x7d return 1"
        [⟨.punct, "\x7d", [], [.space]⟩, ⟨.keyword, "return", [], [.space]⟩,
          ⟨.numericLiteral, "1", [], []⟩, .endOfFile []] e.offset ∧
        e.offset ≤ "\x7d return 1".utf8ByteSize) ∧
      (f.errors = [] → ∀ n ∈ f.nodes, n.kind ≠ .error) := by
  refine ⟨?tokens, parse_orders_problems "Brace.cs" ?tokens⟩
  decide +kernel

example : (parse "Brace.cs" "\x7d return 1").map (fun f => f.errors.map ParseError.offset) =
    .ok [0, 10] := by
  decide +kernel

end SourceFile

end PluginLint
