import PluginLint.Proofs.Lexing.OffsetsInStep

/-!
# Texts without tokens

The scanner of offsets makes one step without looking: over the quote that should open a literal.
The step goes wrong where the marks in front of the literal, at least two of them, are followed by
no character or by one that is more than one byte wide. Nothing else can go wrong. A text in which
the scan comes to such marks has no tokens. In every other text all offsets are boundaries, each
token moves the offset on, and the rounds suffice.
-/
namespace PluginLint.Lexer

open Text (byteLength)

/-- What comes next begins with `@$`, `$@` or `$$`, and behind all such marks there is nothing, or a
character beyond ASCII. -/
def Broken (s : List Char) : Prop :=
  ∃ marks rest, s = marks ++ rest ∧ (∀ c ∈ marks, c = '$' ∨ c = '@') ∧
    (['@', '$'] <+: marks ∨ ['$', '@'] <+: marks ∨ ['$', '$'] <+: marks) ∧
    ∀ c ∈ rest.head?, 128 ≤ c.toNat

/-- The scan reads some tokens and the trivia behind them, and then comes to a broken literal. -/
def Breaks (p : Place) : Prop :=
  ∃ ts q leading r, Run p ts q ∧ Skips false q leading r ∧ Broken r.ahead

section

variable {s : List Char} {fuel : Nat} {p q : Place} {ts : List Token}

theorem isSigil_iff {c : Char} : isSigil c = true ↔ c = '$' ∨ c = '@' := by simp [isSigil]

/-- Marks behind which no further one follows are all the marks. -/
theorem dropWhile_marks {marks rest : List Char} (hmarks : ∀ c ∈ marks, c = '$' ∨ c = '@')
    (hrest : ∀ c ∈ rest.head?, 128 ≤ c.toNat) : (marks ++ rest).dropWhile isSigil = rest := by
  rw [List.dropWhile_append_of_pos fun c hc => isSigil_iff.2 (hmarks c hc)]
  cases rest with
  | nil => rfl
  | cons c rest =>
    have hc : isSigil c = false := by
      rw [Bool.eq_false_iff, Ne, isSigil_iff]
      have hwide := hrest c rfl
      rintro (rfl | rfl)
      · exact absurd hwide (by decide)
      · exact absurd hwide (by decide)
    rw [List.dropWhile_cons, hc]
    rfl

theorem isBrokenString_iff :
    isBrokenString s = true ↔ ∀ c ∈ (s.dropWhile isSigil).head?, 128 ≤ c.toNat := by
  unfold isBrokenString
  cases s.dropWhile isSigil with
  | nil => simp
  | cons c rest => simp

theorem broken_iff : Broken s ↔ opensString s = true ∧ isBrokenString s = true := by
  constructor
  · rintro ⟨marks, rest, rfl, hmarks, hstart, hrest⟩
    refine ⟨?_, isBrokenString_iff.2 (by rwa [dropWhile_marks hmarks hrest])⟩
    rcases hstart with ⟨t, rfl⟩ | ⟨t, rfl⟩ | ⟨t, rfl⟩ <;> rfl
  · rintro ⟨hopens, hbroken⟩
    rw [isBrokenString_iff] at hbroken
    refine ⟨s.takeWhile isSigil, s.dropWhile isSigil, List.takeWhile_append_dropWhile.symm,
      fun c hc => isSigil_iff.1 (List.mem_takeWhile_imp hc), ?_, hbroken⟩
    -- A quote in front or behind the first mark would be the character behind all marks.
    unfold opensString at hopens
    split at hopens
    · exact absurd (hbroken '"' rfl) (by decide)
    · rename_i c rest
      simp only [Bool.or_eq_true, beq_iff_eq] at hopens
      rcases hopens with rfl | rfl
      · exact absurd (hbroken '"' rfl) (by decide)
      · exact .inl ⟨rest.takeWhile isSigil, rfl⟩
    · rename_i c rest
      simp only [Bool.or_eq_true, beq_iff_eq] at hopens
      rcases hopens with (rfl | rfl) | rfl
      · exact absurd (hbroken '"' rfl) (by decide)
      · exact .inr (.inl ⟨rest.takeWhile isSigil, rfl⟩)
      · exact .inr (.inr ⟨rest.takeWhile isSigil, rfl⟩)
    · cases hopens

theorem Breaks.of_step {t : Token} (hstep : Step p t q) (h : Breaks q) : Breaks p := by
  obtain ⟨ts, q', leading, r, hrun, hskips, hbroken⟩ := h
  exact ⟨t :: ts, q', leading, r, .cons hstep hrun, hskips, hbroken⟩

/-- A text has no tokens exactly if the scan comes to a broken literal. -/
theorem tokensFrom_eq_error_iff (hf : p.ahead.length < fuel) :
    tokensFrom fuel p = .error .brokenString ↔ Breaks p := by
  constructor
  · intro h
    induction fuel generalizing p with
    | zero => omega
    | succ fuel ih =>
      have hlead := skips_trivia false hf
      have hle := hlead.reads.length_le
      obtain ⟨hne, htok | ⟨kind, k, htok, hrest⟩⟩ := tokensFrom_succ_error h
      · exact ⟨[], p, _, _, .nil, hlead, broken_iff.2 (token_eq_error_iff.1 htok).2⟩
      · have htake : Takes _ kind k.lexeme _ := ⟨hne, _, k, by omega, htok, rfl, rfl⟩
        have hlt := htake.reads.2
        have htrail := skips_trivia true (Nat.lt_trans hlt (by omega : _ < fuel + 1))
        have hle' := htrail.reads.length_le
        have hstep : Step p ⟨kind, k.lexeme, _, _⟩ _ := ⟨_, _, hlead, htake, htrail⟩
        exact (ih (by omega) hrest).of_step hstep
  · rintro ⟨ts, q, leading, r, hrun, hskips, hbroken⟩
    induction hrun generalizing fuel with
    | nil =>
      cases fuel with
      | zero => omega
      | succ fuel =>
        have htok : token (fuel + 1) r.ahead = .error .brokenString :=
          token_eq_error_iff.2 ⟨rfl, broken_iff.1 hbroken⟩
        have hne : r.ahead ≠ [] := by
          intro hnil
          rw [hnil] at htok
          cases htok
        rw [tokensFrom, hskips.within hf]
        simp [hne, htok, bind, Except.bind]
    | cons hstep hrun ih =>
      cases fuel with
      | zero => omega
      | succ fuel =>
        have hlt := hstep.reads.2
        rw [tokensFrom_of_step hstep hf, ih (by omega) hskips]
        rfl

/-- Which tokens a text has does not depend on the bound. -/
theorem tokensFrom_congr {fuel' : Nat} (h : tokensFrom fuel p = .ok ts) (hf : p.ahead.length < fuel)
    (hf' : p.ahead.length < fuel') : tokensFrom fuel' p = .ok ts := by
  obtain ⟨init, leading, q, rfl, hrun, hdone⟩ := run_of_tokensFrom h hf
  exact tokensFrom_of_run hrun hdone hf'

end

namespace ByOffset

/-- A token begins at every boundary with text ahead. If it is broken, the text is looked at from an
offset that is no boundary; otherwise the token is found, and it has moved the offset on. -/
theorem token_advances {s u v : List Char} (hs : s = u ++ v) (hv : v ≠ []) {fuel : Nat}
    (hf : v.length < fuel) (visited : List Nat) :
    Broken v ∧ token s fuel ⟨byteLength u, visited⟩ = .error .outside ∨
      ¬Broken v ∧ ∃ found head, token s fuel ⟨byteLength u, visited⟩ = .ok (found, head) ∧
        byteLength u < head.pos := by
  cases htok : Lexer.token fuel v with
  | error e =>
    exact .inl ⟨broken_iff.2 (token_eq_error_iff.1 htok).2, Strays.token hf htok hs visited⟩
  | ok found =>
    obtain ⟨kind, k⟩ := found
    have hbroken : ¬Broken v := by
      intro h
      have herror : Lexer.token fuel v = .error .brokenString :=
        token_eq_error_iff.2 ⟨rfl, broken_iff.1 h⟩
      rw [htok] at herror
      cases herror
    obtain ⟨w, more, hw, hrun, -⟩ := Moves.token (u := u) hf hv htok hs visited
    refine .inr ⟨hbroken, _, _, hrun, ?_⟩
    -- The characters taken are some, and each has a byte.
    have hlt := (advances_token htok hv).1.2
    have hne : w ≠ [] := by
      rintro rfl
      simp only [Cursor.start, List.nil_append] at hlt hw
      rw [hw] at hlt
      exact Nat.lt_irrefl _ hlt
    have hpos : byteLength w ≠ 0 := by rwa [Ne, byteLength_eq_zero_iff]
    simp only [Text.byteLength_append]
    omega

/-- With enough rounds the scan by offsets gives the tokens of a text, or it comes to a broken
literal. -/
theorem tokenize_eq {s : List Char} {fuel : Nat} (hf : s.length < fuel) :
    (Breaks ⟨[], s⟩ ∧ tokenize s fuel = .error .outside) ∨
      ¬Breaks ⟨[], s⟩ ∧ ∃ ts head, tokenize s fuel = .ok (ts, head) ∧
        Lexer.tokensFrom fuel ⟨[], s⟩ = .ok ts ∧ ∀ o ∈ head.visited, Boundary s o := by
  cases htokens : Lexer.tokensFrom fuel ⟨[], s⟩ with
  | error e =>
    obtain rfl := eq_brokenString_of_tokensFrom htokens
    exact .inl ⟨(tokensFrom_eq_error_iff hf).1 htokens, Strays.tokensFrom hf htokens rfl [0]⟩
  | ok ts =>
    have hbreaks : ¬Breaks ⟨[], s⟩ := by
      intro h
      rw [(tokensFrom_eq_error_iff hf).2 h] at htokens
      cases htokens
    obtain ⟨y, -, hmoves⟩ := Leads.tokensFrom (s := s) hf htokens
    obtain ⟨v, more, -, hrun, hmore⟩ := hmoves rfl [0]
    refine .inr ⟨hbreaks, ts, _, hrun, rfl, fun o ho => ?_⟩
    rcases List.mem_append.1 ho with ho | ho
    · exact hmore o ho
    · obtain rfl : o = 0 := by simpa using ho
      exact ⟨[], s, rfl, rfl⟩

end ByOffset

/-- The scan by offsets looks at a text where it must not exactly if it comes to a broken literal.
Otherwise it ends with the tokens of the text, all offsets have been boundaries, and wherever a
token is read the offset grows. More rounds than characters change nothing. -/
theorem tokenize_breaks_iff (source : String) (more : Nat) :
    (ByOffset.tokenize source.toList (source.toList.length + 1 + more) = .error .outside ↔
        Breaks ⟨[], source.toList⟩) ∧
      (tokenize source = .error .brokenString ↔ Breaks ⟨[], source.toList⟩) ∧
      (¬Breaks ⟨[], source.toList⟩ → ∃ ts head,
        ByOffset.tokenize source.toList (source.toList.length + 1 + more) = .ok (ts, head) ∧
          tokenize source = .ok ts ∧
          ∀ o ∈ head.visited, ByOffset.Boundary source.toList o ∧ o ≤ byteLength source.toList) ∧
      ∀ u v, source.toList = u ++ v → v ≠ [] → ∀ fuel, v.length < fuel → ∀ visited,
        Broken v ∧ ByOffset.token source.toList fuel ⟨byteLength u, visited⟩ = .error .outside ∨
          ¬Broken v ∧ ∃ found head,
            ByOffset.token source.toList fuel ⟨byteLength u, visited⟩ = .ok (found, head) ∧
              byteLength u < head.pos := by
  have hf : source.toList.length < source.toList.length + 1 + more := by omega
  refine ⟨⟨fun h => ?_, fun h => ?_⟩, tokensFrom_eq_error_iff (Nat.lt_succ_self _), fun h => ?_,
    fun u v hs hv fuel hfuel => ByOffset.token_advances hs hv hfuel⟩
  · rcases ByOffset.tokenize_eq hf with ⟨hbreaks, -⟩ | ⟨-, ts, head, hrun, -⟩
    · exact hbreaks
    · rw [hrun] at h
      cases h
  · exact ((ByOffset.tokenize_eq hf).resolve_right fun hno => hno.1 h).2
  · obtain ⟨-, ts, head, hrun, htokens, hvisited⟩ :=
      (ByOffset.tokenize_eq hf).resolve_left fun hyes => h hyes.1
    refine ⟨ts, head, hrun, tokensFrom_congr htokens hf (Nat.lt_succ_self _), fun o ho => ?_⟩
    exact ⟨hvisited o ho, (hvisited o ho).le_byteLength⟩

/-- Two marks and a letter of two bytes behind a word, and the same with the quotes in place. -/
theorem tokenize_breaks_iff_wide :
    Breaks ⟨[], "x $@é".toList⟩ ∧ ByOffset.tokenize "x $@é".toList 6 = .error .outside ∧
      ∃ ts head, ByOffset.tokenize "x $@\"é\"".toList 8 = .ok (ts, head) ∧
        tokenize "x $@\"é\"" = .ok ts ∧
        ∀ o ∈ head.visited, ByOffset.Boundary "x $@\"é\"".toList o ∧ o ≤ 8 := by
  obtain ⟨hstrays, hbreaks, -⟩ := tokenize_breaks_iff "x $@é" 0
  have hyes : Breaks ⟨[], "x $@é".toList⟩ := hbreaks.1 (by decide +kernel)
  obtain ⟨-, hbreaks', htokens, -⟩ := tokenize_breaks_iff "x $@\"é\"" 0
  have hno : ¬Breaks ⟨[], "x $@\"é\"".toList⟩ := fun h => absurd (hbreaks'.2 h) (by decide +kernel)
  exact ⟨hyes, hstrays.2 hyes, htokens hno⟩

end PluginLint.Lexer
