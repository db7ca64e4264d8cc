import Mathlib.Data.List.Basic
import PluginLint.Proofs.Lexing.InStep

/-!
# Reading tokens one after the other

Where a token is read, and what is read there, depends on the text ahead and on whether only blanks
stand between here and the last line feed. So two texts that agree up to some point give the same
tokens up to there, and the same text behind different beginnings gives the same tokens from there
on.
-/
namespace PluginLint.Lexer

open Cursor

/-! ### Trivia -/

/-- A character at which trivia end. -/
def isFirm (c : Char) : Bool := !isSpace c && !"\r\n/*#".toList.contains c

/-- Trivia end on the second side, and no line does on the first. -/
def Firm (c c' : Char) : Prop := isInLine c = true ∧ isFirm c' = true

theorem Stop.firm {c c' : Char} (h : Stop c c') : Firm c c' :=
  ⟨h.1, Stop.forall (P := fun a => isFirm a = true) (by decide) c c' h⟩

theorem isFirm_of_mem_halts : ∀ c ∈ halts, isFirm c = true := forall_mem_halts.2 (by decide)

theorem joint_firm {z z' : List Char} (h : Joint Stop z z') : Joint Firm z z' := by
  cases h with
  | nil => exact .nil
  | cons h => exact .cons h.firm

theorem isFirm_iff {c : Char} (h : isFirm c = true) :
    isSpace c = false ∧ c ≠ '\r' ∧ c ≠ '\n' ∧ c ≠ '/' ∧ c ≠ '*' ∧ c ≠ '#' := by
  simpa [isFirm] using h

theorem isInLine_of_isFirm {c : Char} (h : isFirm c = true) : isInLine c = true := by
  obtain ⟨-, hr, hn, -⟩ := isFirm_iff h
  simp [isInLine, hr, hn]

theorem Firm.spares {lit : List Char} (h : lit.any isFirm = false) : Spares Firm lit := by
  rw [List.any_eq_false] at h
  intro c c' hc hmem
  exact h c' hmem hc.2

section firm

variable {z z' : List Char} {k k' : Cursor}

theorem blockComment_go_cons {a : Char} {rest : List Char}
    (h : a = '*' → rest.head? ≠ some '/') (taken : List Char) :
    blockComment.go taken (a :: rest) = blockComment.go (a :: taken) rest := by
  rw [blockComment.go]
  intro rest' ha hrest
  exact h ha (by rw [hrest]; rfl)

/-- A comment takes the next character, whatever it is. -/
theorem beyond_blockComment_go (c : Char) (s taken : List Char) :
    (blockComment.go taken (c :: s)).Beyond (c :: s) := by
  by_cases hend : c = '*' ∧ s.head? = some '/'
  · obtain ⟨rfl, hs⟩ := hend
    obtain ⟨rest, rfl⟩ := List.head?_eq_some_iff.1 hs
    simp only [blockComment.go, Beyond, List.length_cons]
    omega
  · rw [blockComment_go_cons fun hc hs => hend ⟨hc, hs⟩]
    exact (reaches_blockComment_go _ _).beyond

theorem blockComment_go_inStep (hz : Joint Firm z z') (mid taken : List Char) :
    Abreast z z' (blockComment.go taken (mid ++ z)) (blockComment.go taken (mid ++ z')) := by
  induction mid generalizing taken with
  | nil =>
    cases hz with
    | nil => exact .inr (tied_nil _)
    | cons hc => exact .inl (beyond_blockComment_go _ _ _)
  | cons a mid ih =>
    by_cases hend : a = '*' ∧ mid.head? = some '/'
    · obtain ⟨rfl, hmid⟩ := hend
      obtain ⟨rest, rfl⟩ := List.head?_eq_some_iff.1 hmid
      exact .inr ⟨rfl, rest, rfl, rfl⟩
    cases mid with
    | cons b mid =>
      have hgo : ∀ t, blockComment.go taken (a :: b :: mid ++ t) =
          blockComment.go (a :: taken) (b :: mid ++ t) := by
        intro t
        refine blockComment_go_cons (fun ha hmid => hend ⟨ha, ?_⟩) taken
        simpa using hmid
      rw [hgo, hgo]
      exact ih (a :: taken)
    | nil =>
      cases hz with
      | nil => exact .inr (tied_nil _)
      | @cons c c' s s' hc =>
        left
        by_cases hslash : a = '*' ∧ c = '/'
        · obtain ⟨rfl, rfl⟩ := hslash
          simp [blockComment.go, Beyond]
        · rw [List.singleton_append,
            blockComment_go_cons fun ha hs => hslash ⟨ha, by simpa using hs⟩]
          exact beyond_blockComment_go _ _ _

theorem blockComment_inStep (hz : Joint Firm z z') (h : Tied z z' k k') :
    Abreast z z' (blockComment k) (blockComment k') := by
  obtain ⟨htaken, mid, hk, hk'⟩ := h
  rw [blockComment, blockComment, hk, hk', htaken]
  exact blockComment_go_inStep hz mid _

/-- Both sides find nothing, or the same kind of trivia with cursors that keep abreast, or the first
one finds trivia that go beyond the point where the texts part. -/
inductive Alike (z z' : List Char) :
    Option (TriviaKind × Cursor) → Option (TriviaKind × Cursor) → Prop
  | none : Alike z z' none none
  | some {kind : TriviaKind} {m m' : Cursor} (h : Abreast z z' m m') :
    Alike z z' (some (kind, m)) (some (kind, m'))
  | past {kind : TriviaKind} {m : Cursor} {found : Option (TriviaKind × Cursor)}
    (h : m.Beyond z) : Alike z z' (some (kind, m)) found

theorem Alike.ite {c : Prop} [Decidable c] {a a' b b' : Option (TriviaKind × Cursor)}
    (h : Alike z z' a a') (h' : Alike z z' b b') :
    Alike z z' (if c then a else b) (if c then a' else b') := by
  by_cases hc : c
  · rwa [if_pos hc, if_pos hc]
  · rwa [if_neg hc, if_neg hc]

theorem Alike.test {n : Nat} {b b' : Bool} {kind : TriviaKind} {m m' : Cursor}
    {a a' : Option (TriviaKind × Cursor)} (h : Agrees z n k b b') (htakes : (k.skip n).Reaches m)
    (hm : Abreast z z' m m') (ha : Alike z z' a a') :
    Alike z z' (if b then Option.some (kind, m) else a) (if b' then Option.some (kind, m') else a') := by
  obtain rfl | ⟨rfl, rfl, hshort⟩ := h
  · exact .ite (.some hm) ha
  · exact .past (hshort.beyond.of_reaches htakes)

/-- A firm character is no trivia. -/
theorem triviaPiece_of_isFirm {c : Char} {s behind : List Char} (trailing : Bool)
    (hc : isFirm c = true) (hk : k.ahead = c :: s) : triviaPiece trailing behind k = none := by
  obtain ⟨hspace, hr, hn, hslash, -, hhash⟩ := isFirm_iff hc
  simp [triviaPiece, startsWith, hk, hspace, hr, hn, hhash, Ne.symm hr, Ne.symm hslash]

/-- A comment that runs up to the point where the texts part goes beyond it. -/
theorem triviaPiece_past (hz : Joint Firm z z') (hne : z ≠ []) (trailing : Bool)
    {behind mid : List Char} (hk : k.ahead = mid ++ z) (hslashes : k.startsWith "//" = true)
    (hline : mid.all isInLine = true) (found : Option (TriviaKind × Cursor)) :
    Alike z z' (triviaPiece trailing behind k) found := by
  cases hz with
  | nil => exact absurd rfl hne
  | @cons c c' s s' hc =>
    have hbeyond : (k.skipWhile isInLine).Beyond (c :: s) := by
      rw [Beyond, ahead_skipWhile, hk, List.dropWhile_append_of_pos (List.all_eq_true.1 hline),
        List.dropWhile_cons_of_pos hc.1]
      exact Nat.lt_succ_of_le (List.dropWhile_suffix _).length_le
    have hpiece : ∃ kind, triviaPiece trailing behind k = some (kind, k.skipWhile isInLine) := by
      obtain ⟨t, ht⟩ := List.isPrefixOf_iff_prefix.1 hslashes
      have hspace : isSpace '/' = false := by decide
      have hbreak : k.startsWith "\r\n" = false := by
        rw [startsWith, ← ht]
        rfl
      by_cases hdoc : (k.startsWith "///" && !k.startsWith "////") = true
      · refine ⟨.docComment, ?_⟩
        simp [triviaPiece, ← ht, hspace, hbreak, hdoc]
      · refine ⟨.lineComment, ?_⟩
        simp [triviaPiece, ← ht, hspace, hbreak, hdoc, hslashes]
    obtain ⟨kind, hkind⟩ := hpiece
    rw [hkind]
    exact .past hbeyond

/-- A piece of trivia is read on both sides, or there is none on both. -/
theorem triviaPiece_inStep (hz : Joint Firm z z') (trailing : Bool) {behind behind' : List Char}
    (hb : atLineStart behind = atLineStart behind') (h : Tied z z' k k') :
    Alike z z' (triviaPiece trailing behind k) (triviaPiece trailing behind' k') := by
  have hspace : ∀ c c', Firm c c' → isSpace c = false → isSpace c' = false :=
    fun _ _ hc _ => (isFirm_iff hc.2).1
  have hline : ∀ c c', Firm c c' → isInLine c = false → isInLine c' = false := by
    intro c c' hc h
    rw [hc.1] at h
    cases h
  have hagrees : ∀ (lit : String) {n : Nat}, lit.toList.any isFirm = false →
      lit.toList.length = n → Agrees z n k (k.startsWith lit) (k'.startsWith lit) :=
    fun lit n hlit hn => h.startsWith_agrees hz (Firm.spares hlit) hn
  obtain ⟨-, mid, hk, hk'⟩ := id h
  cases mid with
  | nil =>
    cases hz with
    | nil =>
      rw [triviaPiece, triviaPiece, hk, hk']
      exact .none
    | cons hc =>
      rw [List.nil_append] at hk
      rw [triviaPiece_of_isFirm trailing hc.2 hk']
      cases hold : triviaPiece trailing behind k with
      | none => exact .none
      | some found => exact .past (hk ▸ (advances_triviaPiece hold).2)
  | cons a mid =>
    by_cases hcomment : z ≠ [] ∧ k.startsWith "//" = true ∧ (a :: mid).all isInLine = true
    · exact triviaPiece_past hz hcomment.1 trailing hk hcomment.2.1 hcomment.2.2 _
    -- What follows two slashes is the same then.
    have hslashes : ∀ lit ∈ ["//", "///", "////"], k.startsWith lit = k'.startsWith lit := by
      intro lit hlit
      obtain ⟨hfirm, hpre, hall⟩ : lit.toList.any isFirm = false ∧
          "//".toList.isPrefixOf lit.toList = true ∧ lit.toList.all isInLine = true :=
        (by decide : ∀ lit ∈ ["//", "///", "////"], lit.toList.any isFirm = false ∧
          "//".toList.isPrefixOf lit.toList = true ∧ lit.toList.all isInLine = true) lit hlit
      rw [startsWith, startsWith, hk, hk']
      refine (isPrefixOf_cases hz (Firm.spares hfirm) (a :: mid)).resolve_right ?_
      rintro ⟨hold, -, hne, hmid, -⟩
      rw [List.isPrefixOf_iff_prefix] at hold hpre
      refine hcomment ⟨hne, ?_, ?_⟩
      · rw [startsWith, hk, List.isPrefixOf_iff_prefix]
        exact hpre.trans hold
      · rw [List.all_eq_true] at hall ⊢
        exact fun c hc => hall c (hmid.subset hc)
    have hblock : Abreast z z' (blockComment (k.skip 2)) (blockComment (k'.skip 2)) :=
      (h.skip hz 2).andThen (reaches_blockComment _) (blockComment_inStep hz)
    unfold triviaPiece
    rw [List.cons_append] at hk hk'
    rw [hk, hk', ← hslashes "///" (by decide), ← hslashes "////" (by decide),
      ← hslashes "//" (by decide), ← hb]
    exact .ite (.some (h.skipWhile hz hspace)) (.test (hagrees "\r\n" (by decide) rfl) (.refl _)
      (h.skip hz 2) (.ite (.some (h.next hz)) (.ite (.some (h.skipWhile hz hline))
        (.ite (.some (h.skipWhile hz hline)) (.test (hagrees "/*" (by decide) rfl)
          (reaches_blockComment _) hblock (.ite (.some (h.skipWhile hz hline)) .none))))))

end firm

/-! ### Places -/

/-- Whether only blanks stand behind is known from the newest text and from what was known before
it. -/
theorem atLineStart_append_congr {b b' : List Char} (u : List Char)
    (h : atLineStart b = atLineStart b') : atLineStart (u ++ b) = atLineStart (u ++ b') := by
  induction u with
  | nil => exact h
  | cons c u ih =>
    unfold atLineStart at ih ⊢
    by_cases hc : c = '\n'
    · simp [hc]
    · simp only [List.cons_append, List.takeWhile_cons, bne_iff_ne, ne_eq, hc, not_false_eq_true,
        if_true, List.all_cons, ih]

theorem atLineStart_cons_of_isFirm {c : Char} (hc : isFirm c = true) (behind : List Char) :
    atLineStart (c :: behind) = false := by
  obtain ⟨hspace, -, hn, -⟩ := isFirm_iff hc
  have hblank : (c == ' ' || c == '\t') = false := by
    simp only [isSpace, Bool.or_eq_false_iff] at hspace
    simp [hspace]
  simp [atLineStart, hn, hblank]

/-- Ahead of the places is the same up to `z` and `z'`, and directives may stand at both or at
none. -/
def Place.Tied (z z' : List Char) (p p' : Place) : Prop :=
  atLineStart p.behind = atLineStart p'.behind ∧ ∃ mid, p.ahead = mid ++ z ∧ p'.ahead = mid ++ z'

/-- Trivia in front of the point where the texts part are the same. -/
theorem trivia_inStep {z z' : List Char} (hz : Joint Firm z z') (trailing : Bool) {fuel fuel' : Nat}
    {p p' : Place} (h : p.Tied z z' p') (hf : p.ahead.length < fuel) (hf' : p'.ahead.length < fuel') :
    (trivia trailing fuel p).2.ahead.length < z.length ∨
      (trivia trailing fuel p).1 = (trivia trailing fuel' p').1 ∧
        (trivia trailing fuel p).2.Tied z z' (trivia trailing fuel' p').2 := by
  induction fuel generalizing fuel' p p' with
  | zero => omega
  | succ fuel ih =>
    cases fuel' with
    | zero => omega
    | succ fuel' =>
      obtain ⟨hb, mid, hp, hp'⟩ := id h
      have htied : Cursor.Tied z z' (start p.ahead) (start p'.ahead) := ⟨rfl, mid, hp, hp'⟩
      have hpiece := triviaPiece_inStep hz trailing hb htied
      rw [trivia, trivia]
      generalize hm : triviaPiece trailing p.behind (start p.ahead) = piece at hpiece ⊢
      generalize hm' : triviaPiece trailing p'.behind (start p'.ahead) = piece' at hpiece ⊢
      -- Trivia that go beyond the point where the texts part never come back to it.
      have past : ∀ {kind : TriviaKind} {m : Cursor}, m.Beyond z →
          (if trailing && kind == .endOfLine then
              ([⟨kind, m.lexeme⟩], ⟨m.taken ++ p.behind, m.ahead⟩)
            else
              (⟨kind, m.lexeme⟩ :: (trivia trailing fuel ⟨m.taken ++ p.behind, m.ahead⟩).1,
                (trivia trailing fuel ⟨m.taken ++ p.behind, m.ahead⟩).2) :
            List Trivia × Place).2.ahead.length < z.length := by
        intro kind m hbeyond
        split
        · exact hbeyond
        · have hreads := (reads_trivia trailing fuel ⟨m.taken ++ p.behind, m.ahead⟩).1
          exact Nat.lt_of_le_of_lt hreads.length_le hbeyond
      cases hpiece with
      | none => exact .inr ⟨rfl, h⟩
      | past hbeyond => exact .inl (past hbeyond)
      | @some kind m m' habreast =>
        have hadv := (advances_triviaPiece hm).2
        have hadv' := (advances_triviaPiece hm').2
        simp only [start] at hadv hadv'
        dsimp only
        rcases habreast with hbeyond | htied
        · exact .inl (past hbeyond)
        · obtain ⟨htaken, mid', hm₁, hm₁'⟩ := id htied
          have hnext : Place.Tied z z' ⟨m.taken ++ p.behind, m.ahead⟩
              ⟨m'.taken ++ p'.behind, m'.ahead⟩ :=
            ⟨htaken ▸ atLineStart_append_congr m.taken hb, mid', hm₁, hm₁'⟩
          rw [htied.lexeme_eq]
          split
          · exact .inr ⟨rfl, hnext⟩
          · have hlt : m.ahead.length < fuel := by omega
            have hlt' : m'.ahead.length < fuel' := by omega
            rcases ih hnext hlt hlt' with hbeyond | ⟨hpieces, hplace⟩
            · exact .inl hbeyond
            · exact .inr ⟨by rw [hpieces], hplace⟩

/-! ### Steps -/

/-- A run of trivia is read from one place to another. -/
def Skips (trailing : Bool) (p : Place) (pieces : List Trivia) (q : Place) : Prop :=
  ∃ fuel, p.ahead.length < fuel ∧ trivia trailing fuel p = (pieces, q)

/-- A token without its trivia is read from one place to another. -/
def Takes (p : Place) (kind : TokenKind) (text : String) (q : Place) : Prop :=
  p.ahead ≠ [] ∧ ∃ fuel k, p.ahead.length < fuel ∧ token fuel p.ahead = .ok (kind, k) ∧
    k.lexeme = text ∧ q = ⟨k.taken ++ p.behind, k.ahead⟩

/-- A token is read with the trivia around it. -/
def Step (p : Place) (t : Token) (q : Place) : Prop :=
  ∃ r s, Skips false p t.leading r ∧ Takes r t.kind t.text s ∧ Skips true s t.trailing q

/-- Nothing but trivia is ahead. -/
def Done (p : Place) (leading : List Trivia) : Prop := ∃ q, Skips false p leading q ∧ q.ahead = []

theorem Place.Reads.place_eq {p q r : Place} {u : List Char} (h : p.Reads u q) (h' : p.Reads u r) :
    q = r := by
  obtain ⟨behind, ahead⟩ := q
  obtain ⟨behind', ahead'⟩ := r
  obtain rfl : ahead = ahead' := List.append_cancel_left (h.1.symm.trans h'.1)
  obtain rfl : behind = behind' := h.2.trans h'.2.symm
  rfl

theorem Place.tied_refl (p : Place) : p.Tied [] [] p := ⟨rfl, p.ahead, by simp, by simp⟩

section skips

variable {trailing : Bool} {pieces : List Trivia} {p p' q : Place}

theorem skips_trivia (trailing : Bool) {fuel : Nat} (hf : p.ahead.length < fuel) :
    Skips trailing p (trivia trailing fuel p).1 (trivia trailing fuel p).2 := ⟨fuel, hf, rfl⟩

theorem Skips.reads (h : Skips trailing p pieces q) : p.Reads (Trivia.render pieces).toList q := by
  obtain ⟨fuel, -, htrivia⟩ := h
  have hreads := (reads_trivia trailing fuel p).1
  rwa [htrivia] at hreads

theorem Skips.text_ne (h : Skips trailing p pieces q) : ∀ t ∈ pieces, t.text ≠ "" := by
  obtain ⟨fuel, -, htrivia⟩ := h
  have htexts := (reads_trivia trailing fuel p).2
  rwa [htrivia] at htexts

/-- Trivia that end before the texts go on differently are read on both sides. -/
theorem Skips.inStep {z z' : List Char} (hz : Joint Firm z z') (h : Skips trailing p pieces q)
    (hp : p.Tied z z' p') (hq : z.length ≤ q.ahead.length) {fuel : Nat}
    (hf : p'.ahead.length < fuel) :
    ∃ q', trivia trailing fuel p' = (pieces, q') ∧ q.Tied z z' q' := by
  obtain ⟨fuel₀, hf₀, htrivia⟩ := h
  have hsame := trivia_inStep hz trailing hp hf₀ hf
  rw [htrivia] at hsame
  obtain ⟨hpieces, htied⟩ := hsame.resolve_left (by simpa using hq)
  exact ⟨(trivia trailing fuel p').2, Prod.ext hpieces.symm rfl, htied⟩

/-- Which trivia are read does not depend on the bound. -/
theorem Skips.within (h : Skips trailing p pieces q) {fuel : Nat} (hf : p.ahead.length < fuel) :
    trivia trailing fuel p = (pieces, q) := by
  obtain ⟨q', hq', -⟩ := h.inStep .nil p.tied_refl (by simp) hf
  have hskips : Skips trailing p pieces q' := ⟨fuel, hf, hq'⟩
  rw [hq', h.reads.place_eq hskips.reads]

theorem Skips.unique {pieces' : List Trivia} {r : Place} (h : Skips trailing p pieces q)
    (h' : Skips trailing p pieces' r) : pieces = pieces' ∧ q = r := by
  obtain ⟨fuel, hf, htrivia⟩ := h'
  rw [h.within hf, Prod.mk.injEq] at htrivia
  exact htrivia

end skips

section takes

variable {kind : TokenKind} {text : String} {p p' q : Place}

theorem Takes.reads (h : Takes p kind text q) :
    p.Reads text.toList q ∧ q.ahead.length < p.ahead.length := by
  obtain ⟨hne, fuel, k, -, htok, rfl, rfl⟩ := h
  obtain ⟨hadv, -⟩ := advances_token htok hne
  exact ⟨.of_reaches hadv.1, hadv.2⟩

/-- A token that ends before the texts go on differently is read on both sides, whatever stands
behind. -/
theorem Takes.inStep {z z' mid : List Char} (hz : Joint Stop z z') (h : Takes p kind text q)
    (hp : p.ahead = mid ++ z) (hp' : p'.ahead = mid ++ z') (hq : z.length ≤ q.ahead.length)
    {fuel : Nat} (hf : p'.ahead.length < fuel) :
    ∃ k mid', token fuel p'.ahead = .ok (kind, k) ∧ k.lexeme = text ∧ q.ahead = mid' ++ z ∧
      k.ahead = mid' ++ z' := by
  obtain ⟨-, fuel₀, k₀, hf₀, htok, htext, rfl⟩ := h
  rw [hp] at hf₀ htok
  rw [hp'] at hf ⊢
  obtain ⟨k, hk, htied⟩ := token_inStep hz hf₀ hf htok (Nat.not_lt.2 hq)
  obtain ⟨-, mid', hahead, hahead'⟩ := id htied
  exact ⟨k, mid', hk, htied.lexeme_eq ▸ htext, hahead, hahead'⟩

theorem Takes.exists_inStep {z z' mid : List Char} (hz : Joint Stop z z') (h : Takes p kind text q)
    (hp : p.ahead = mid ++ z) (hp' : p'.ahead = mid ++ z') (hq : z.length ≤ q.ahead.length) :
    ∃ q' mid', Takes p' kind text q' ∧ q.ahead = mid' ++ z ∧ q'.ahead = mid' ++ z' := by
  obtain ⟨k, mid', htok, htext, hahead, hahead'⟩ :=
    h.inStep hz hp hp' hq (Nat.lt_succ_self p'.ahead.length)
  refine ⟨_, mid', ⟨?_, _, k, Nat.lt_succ_self _, htok, htext, rfl⟩, hahead, hahead'⟩
  have hlt := h.reads.2
  intro hnil
  rw [hp', List.append_eq_nil_iff] at hnil
  obtain ⟨rfl, rfl⟩ := hnil
  cases hz
  rw [hp] at hlt
  exact Nat.not_lt_zero _ hlt

/-- Which token is read does not depend on the bound. -/
theorem Takes.within (h : Takes p kind text q) {fuel : Nat} (hf : p.ahead.length < fuel) :
    ∃ k, token fuel p.ahead = .ok (kind, k) ∧ k.lexeme = text ∧
      q = ⟨k.taken ++ p.behind, k.ahead⟩ := by
  have hp : p.ahead = p.ahead ++ [] := (List.append_nil _).symm
  obtain ⟨k, -, htok, htext, -⟩ := h.inStep .nil hp hp (by simp) hf
  have htakes : Takes p kind text ⟨k.taken ++ p.behind, k.ahead⟩ :=
    ⟨h.1, fuel, k, hf, htok, htext, rfl⟩
  exact ⟨k, htok, htext, h.reads.1.place_eq htakes.reads.1⟩

theorem Takes.unique {kind' : TokenKind} {text' : String} {r : Place} (h : Takes p kind text q)
    (h' : Takes p kind' text' r) : kind = kind' ∧ text = text' ∧ q = r := by
  obtain ⟨-, fuel, k', hf, htok', rfl, rfl⟩ := h'
  obtain ⟨k, htok, rfl, rfl⟩ := h.within hf
  rw [htok, Except.ok.injEq, Prod.mk.injEq] at htok'
  obtain ⟨rfl, rfl⟩ := htok'
  exact ⟨rfl, rfl, rfl⟩

end takes

section steps

variable {t t' : Token} {p p' q r : Place}

theorem Step.reads (h : Step p t q) :
    p.Reads t.render.toList q ∧ q.ahead.length < p.ahead.length := by
  obtain ⟨r, s, hlead, htake, htrail⟩ := h
  obtain ⟨hreads, hlt⟩ := htake.reads
  refine ⟨?_, ?_⟩
  · simpa [Token.render] using (hlead.reads.trans hreads).trans htrail.reads
  · have hle := hlead.reads.length_le
    have hle' := htrail.reads.length_le
    omega

theorem Step.unique (h : Step p t q) (h' : Step p t' r) : t = t' ∧ q = r := by
  obtain ⟨kind, text, leading, trailing⟩ := t
  obtain ⟨kind', text', leading', trailing'⟩ := t'
  obtain ⟨p₁, p₂, hlead, htake, htrail⟩ := h
  obtain ⟨p₁', p₂', hlead', htake', htrail'⟩ := h'
  obtain ⟨rfl, rfl⟩ := hlead.unique hlead'
  obtain ⟨rfl, rfl, rfl⟩ := htake.unique htake'
  obtain ⟨rfl, rfl⟩ := htrail.unique htrail'
  exact ⟨rfl, rfl⟩

/-- Behind the same text directives may stand at both places or at none, if they could before. -/
theorem Place.Reads.atLineStart_eq {u : List Char} {q' : Place} (h : p.Reads u q)
    (h' : p'.Reads u q') (hb : atLineStart p.behind = atLineStart p'.behind) :
    atLineStart q.behind = atLineStart q'.behind := by
  rw [h.2, h'.2]
  exact atLineStart_append_congr _ hb

theorem Takes.tied {z z' : List Char} {kind : TokenKind} {text : String} (hz : Joint Stop z z')
    (h : Takes p kind text q) (hp : p.Tied z z' p') (hq : z.length ≤ q.ahead.length) :
    ∃ q', Takes p' kind text q' ∧ q.Tied z z' q' := by
  obtain ⟨hb, mid, hmid, hmid'⟩ := hp
  obtain ⟨q', mid', htake, hahead, hahead'⟩ := h.exists_inStep hz hmid hmid' hq
  exact ⟨q', htake, h.reads.1.atLineStart_eq htake.reads.1 hb, mid', hahead, hahead'⟩

theorem Skips.tied {z z' : List Char} {trailing : Bool} {pieces : List Trivia}
    (hz : Joint Firm z z') (h : Skips trailing p pieces q) (hp : p.Tied z z' p')
    (hq : z.length ≤ q.ahead.length) : ∃ q', Skips trailing p' pieces q' ∧ q.Tied z z' q' := by
  obtain ⟨q', htrivia, htied⟩ := h.inStep hz hp hq (Nat.lt_succ_self p'.ahead.length)
  exact ⟨q', ⟨_, Nat.lt_succ_self _, htrivia⟩, htied⟩

/-- Trivia are read up to a firm character, whatever stands there. -/
theorem Skips.exists_firm {p p' r : Place} {leading : List Trivia} {c c' : Char} {x x' : List Char}
    (hlead : Skips false p leading r) (hr : r.ahead = c :: x) (hc : Firm c c')
    (hb : atLineStart p.behind = atLineStart p'.behind)
    (hp' : p'.ahead = (Trivia.render leading).toList ++ c' :: x') :
    ∃ r', Skips false p' leading r' ∧ r'.ahead = c' :: x' ∧
      atLineStart r.behind = atLineStart r'.behind := by
  have hp := hlead.reads.1
  rw [hr] at hp
  obtain ⟨r', hlead', hline, mid, hmid, hmid'⟩ :=
    hlead.tied (.cons hc) ⟨hb, _, hp, hp'⟩ (Nat.le_of_eq (by rw [hr]))
  obtain rfl : mid = [] := by simpa [hr] using hmid
  exact ⟨r', hlead', hmid', hline⟩

/-- A step that ends before the texts go on differently is made on both sides. -/
theorem Step.tied {z z' : List Char} (hz : Joint Stop z z') (h : Step p t q) (hp : p.Tied z z' p')
    (hq : z.length ≤ q.ahead.length) : ∃ q', Step p' t q' ∧ q.Tied z z' q' := by
  obtain ⟨r, s, hlead, htake, htrail⟩ := h
  have hle := htrail.reads.length_le
  have hlt := htake.reads.2
  obtain ⟨r', hlead', hr⟩ := hlead.tied (joint_firm hz) hp (by omega)
  obtain ⟨s', htake', hs⟩ := htake.tied hz hr (by omega)
  obtain ⟨q', htrail', hq'⟩ := htrail.tied (joint_firm hz) hs hq
  exact ⟨q', ⟨r', s', hlead', htake', htrail'⟩, hq'⟩

theorem Done.congr {leading : List Trivia} (h : Done p leading) (hp : p.Tied [] [] p') :
    Done p' leading := by
  obtain ⟨q, hlead, hend⟩ := h
  obtain ⟨q', hlead', -, mid, hmid, hmid'⟩ := hlead.tied .nil hp (by simp)
  exact ⟨q', hlead', by rw [hmid', ← hmid, hend]⟩

end steps

/-! ### Runs -/

/-- Tokens are read from one place to another. -/
inductive Run : Place → List Token → Place → Prop
  | nil {p : Place} : Run p [] p
  | cons {p q r : Place} {t : Token} {ts : List Token} (h : Step p t q) (hs : Run q ts r) :
    Run p (t :: ts) r

section runs

variable {p p' q r : Place} {ts us : List Token}

theorem Run.exists_append (h : Run p (ts ++ us) r) : ∃ q, Run p ts q ∧ Run q us r := by
  induction ts generalizing p with
  | nil => exact ⟨p, .nil, h⟩
  | cons t ts ih =>
    obtain ⟨-⟩ | ⟨hstep, hrun⟩ := h
    obtain ⟨q, hq, hr⟩ := ih hrun
    exact ⟨q, .cons hstep hq, hr⟩

theorem Run.exists_cons {t : Token} (h : Run p (t :: ts) r) : ∃ q, Step p t q ∧ Run q ts r := by
  obtain ⟨-⟩ | ⟨hstep, hrun⟩ := h
  exact ⟨_, hstep, hrun⟩

theorem Run.append (h : Run p ts q) (h' : Run q us r) : Run p (ts ++ us) r := by
  induction h with
  | nil => exact h'
  | cons hstep _ ih => exact .cons hstep (ih h')

theorem Run.reads (h : Run p ts q) : p.Reads (Token.renderAll ts).toList q := by
  induction h with
  | nil => exact .refl _
  | cons hstep _ ih => simpa using hstep.reads.1.trans ih

/-- From a place there is one run of a length. -/
theorem Run.unique (h : Run p ts q) (h' : Run p us r) (hlen : ts.length = us.length) :
    ts = us ∧ q = r := by
  induction h generalizing us with
  | nil =>
    obtain rfl := List.length_eq_zero_iff.1 hlen.symm
    cases h'
    exact ⟨rfl, rfl⟩
  | cons hstep _ ih =>
    cases h' with
    | nil => simp at hlen
    | cons hstep' hrun' =>
      obtain ⟨rfl, rfl⟩ := hstep.unique hstep'
      obtain ⟨rfl, rfl⟩ := ih hrun' (by simpa using hlen)
      exact ⟨rfl, rfl⟩

/-- Tokens in front of the point where two texts part are read from both. -/
theorem Run.tied {z z' : List Char} (hz : Joint Stop z z') (h : Run p ts q) (hp : p.Tied z z' p')
    (hq : z.length ≤ q.ahead.length) : ∃ q', Run p' ts q' ∧ q.Tied z z' q' := by
  induction h generalizing p' with
  | nil => exact ⟨p', .nil, hp⟩
  | cons hstep hrun ih =>
    have hle := hrun.reads.length_le
    obtain ⟨q', hstep', hq'⟩ := hstep.tied hz hp (by omega)
    obtain ⟨r', hrun', hr'⟩ := ih hq' hq
    exact ⟨r', .cons hstep' hrun', hr'⟩

/-- The tokens of a text are a run of steps up to its last trivia. -/
theorem run_of_tokensFrom {fuel : Nat} (h : tokensFrom fuel p = .ok ts)
    (hf : p.ahead.length < fuel) :
    ∃ init leading q, ts = init ++ [.endOfFile leading] ∧ Run p init q ∧ Done q leading := by
  induction fuel generalizing p ts with
  | zero => omega
  | succ fuel ih =>
    have hlead : Skips false p (trivia false (fuel + 1) p).1 (trivia false (fuel + 1) p).2 :=
      ⟨_, hf, rfl⟩
    obtain ⟨hend, rfl⟩ | ⟨kind, k, rest, hne, htok, hrest, rfl⟩ := tokensFrom_succ h
    · exact ⟨[], _, p, rfl, .nil, _, hlead, hend⟩
    · have hle := hlead.reads.length_le
      have htake : Takes _ kind k.lexeme _ := ⟨hne, _, k, by omega, htok, rfl, rfl⟩
      have hlt := htake.reads.2
      have htrail : Skips true ⟨k.taken ++ (trivia false (fuel + 1) p).2.behind, k.ahead⟩
          (trivia true (fuel + 1) ⟨k.taken ++ (trivia false (fuel + 1) p).2.behind, k.ahead⟩).1
          (trivia true (fuel + 1) ⟨k.taken ++ (trivia false (fuel + 1) p).2.behind, k.ahead⟩).2 :=
        ⟨fuel + 1, by omega, rfl⟩
      have hle' := htrail.reads.length_le
      obtain ⟨init, leading, r, rfl, hrun, hdone⟩ := ih hrest (by omega)
      exact ⟨_ :: init, leading, r, rfl, .cons ⟨_, _, hlead, htake, htrail⟩ hrun, hdone⟩

/-- A step gives one token, and what comes behind it gives the others. -/
theorem tokensFrom_of_step {t : Token} (h : Step p t q) {fuel : Nat}
    (hf : p.ahead.length < fuel + 1) :
    tokensFrom (fuel + 1) p = (tokensFrom fuel q).map (t :: ·) := by
  obtain ⟨r, s, hlead, htake, htrail⟩ := h
  have hle := hlead.reads.length_le
  have hlt := htake.reads.2
  have hr : r.ahead.length < fuel + 1 := by omega
  have hs : s.ahead.length < fuel + 1 := by omega
  obtain ⟨k, htok, htext, rfl⟩ := htake.within hr
  have hne := htake.1
  rw [tokensFrom, hlead.within hf]
  dsimp only
  rw [htok]
  simp only [bind, Except.bind, htrail.within hs]
  cases tokensFrom fuel q with
  | error e => simp [hne, Except.map]
  | ok rest => simp [hne, htext, pure, Except.pure, Except.map]

/-- A run up to the last trivia gives the tokens of a text. -/
theorem tokensFrom_of_run {leading : List Trivia} (h : Run p ts q) (hdone : Done q leading)
    {fuel : Nat} (hf : p.ahead.length < fuel) :
    tokensFrom fuel p = .ok (ts ++ [.endOfFile leading]) := by
  induction h generalizing fuel with
  | nil =>
    cases fuel with
    | zero => omega
    | succ fuel =>
      obtain ⟨r, hlead, hend⟩ := hdone
      rw [tokensFrom, hlead.within hf]
      simp [hend, pure, Except.pure]
  | cons hstep hrun ih =>
    cases fuel with
    | zero => omega
    | succ fuel =>
      have hlt := hstep.reads.2
      rw [tokensFrom_of_step hstep hf, ih hdone (by omega)]
      rfl

end runs

/-- The tokens of a text, some of them taken apart from those around. -/
theorem exists_run_of_tokenize {source : String} {pre mid post : List Token} {last : Token}
    (h : tokenize source = .ok (pre ++ (mid ++ post))) (hlast : mid.getLast? = some last)
    (htext : last.text ≠ "") :
    ∃ post' leading p q r, post = post' ++ [.endOfFile leading] ∧
      Run ⟨[], source.toList⟩ pre p ∧ Run p mid q ∧ Run q post' r ∧ Done r leading := by
  obtain ⟨init, leading, r, hinit, hrun, hdone⟩ := run_of_tokensFrom h (by simp)
  obtain rfl | ⟨post', last', rfl⟩ := List.eq_nil_or_concat' post
  · have hends := congrArg List.getLast? hinit
    rw [List.append_nil, List.getLast?_append, hlast, List.getLast?_concat, Option.some_or] at hends
    obtain rfl : last = .endOfFile leading := Option.some.inj hends
    exact absurd rfl htext
  · rw [← List.append_assoc, ← List.append_assoc] at hinit
    obtain ⟨rfl, hends⟩ := List.append_inj' hinit rfl
    obtain rfl : last' = .endOfFile leading := by simpa using hends
    obtain ⟨q, hrun, hpost⟩ := hrun.exists_append
    obtain ⟨p, hpre, hmid⟩ := hrun.exists_append
    exact ⟨post', leading, p, q, r, rfl, hpre, hmid, hpost, hdone⟩

end PluginLint.Lexer
