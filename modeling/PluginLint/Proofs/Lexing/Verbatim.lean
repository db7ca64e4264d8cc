import PluginLint.Proofs.Lexing.Levels

/-!
# Verbatim literals

A verbatim literal is `@`, a quote, a text with each quote doubled, and a quote. It is read back as
one token unless the text begins with a quote. Then the literal begins with three quotes at least,
and three quotes begin a raw literal, marks or no marks: the body ends with the first run of as many
quotes as it began with. So whether such a literal is one token depends on the other runs of quotes
in the text, and on what stands behind.
-/
namespace PluginLint.Lexer

open Cursor

/-! ### Literals -/

/-- A text with each quote doubled. -/
def doubled : List Char → List Char
  | [] => []
  | c :: s => if c = '"' then '"' :: '"' :: doubled s else c :: doubled s

@[simp] theorem doubled_nil : doubled [] = [] := rfl

@[simp] theorem doubled_quote (s : List Char) : doubled ('"' :: s) = '"' :: '"' :: doubled s := rfl

theorem doubled_cons_of_ne {c : Char} (hc : c ≠ '"') (s : List Char) :
    doubled (c :: s) = c :: doubled s := if_neg hc

theorem doubled_replicate_append (n : Nat) (s : List Char) :
    doubled (List.replicate n '"' ++ s) = List.replicate (2 * n) '"' ++ doubled s := by
  induction n with
  | zero => rfl
  | succ n ih =>
    rw [List.replicate_succ, List.cons_append, doubled_quote, ih]
    rfl

/-- A text as a verbatim literal. -/
def verbatim (content : List Char) : List Char := '@' :: '"' :: doubled content ++ ['"']

/-- The part of a text behind the quotes that it begins with. -/
def unquoted (content : List Char) : List Char := content.dropWhile (· == '"')

/-- How many quotes a text begins with. -/
def leadingQuotes (content : List Char) : Nat := (content.takeWhile (· == '"')).length

theorem eq_replicate_append_unquoted (content : List Char) :
    content = List.replicate (leadingQuotes content) '"' ++ unquoted content := by
  have hquotes : content.takeWhile (· == '"') = List.replicate (leadingQuotes content) '"' :=
    List.eq_replicate_of_mem fun c hc => by simpa using List.mem_takeWhile_imp hc
  rw [← hquotes, unquoted, List.takeWhile_append_dropWhile]

theorem head?_unquoted (content : List Char) : (unquoted content).head? ≠ some '"' := by
  intro h
  have hnot := List.head?_dropWhile_not (· == '"') content
  rw [← unquoted, h] at hnot
  simp at hnot

/-- A run of more than `k` quotes comes before the end of a text. -/
def HasLongRun (k : Nat) (s : List Char) : Prop :=
  ∃ c, c ≠ '"' ∧ List.replicate (k + 1) '"' ++ [c] <:+: s

/-- A verbatim literal with this content, and with this text behind it, ends where it should. If
the content begins with quotes, then no run inside may be longer than the first, and the last run
must be as long, or nothing may stand behind the literal. -/
def Closes (content rest : List Char) : Prop :=
  content.head? = some '"' →
    ¬HasLongRun (leadingQuotes content) (unquoted content) ∧
      (rest = [] ∨ List.replicate (leadingQuotes content) '"' <:+ unquoted content)

/-! ### Runs of quotes -/

theorem not_hasLongRun_replicate (k i : Nat) : ¬HasLongRun k (List.replicate i '"') := by
  rintro ⟨c, hc, hsub⟩
  exact hc (List.eq_of_mem_replicate (hsub.subset (by simp)))

theorem replicate_append_prefix_iff {k i : Nat} {c x : Char} (hc : c ≠ '"') (hx : x ≠ '"')
    (s : List Char) :
    List.replicate k '"' ++ [c] <+: List.replicate i '"' ++ x :: s ↔ k = i ∧ c = x := by
  induction k generalizing i with
  | zero =>
    cases i with
    | zero => simp
    | succ i => simp [List.replicate_succ, hc]
  | succ k ih =>
    cases i with
    | zero => simp [List.replicate_succ, hx.symm]
    | succ i => simp [List.replicate_succ, ih]

/-- A long run comes before the end if the first one is long, or if one comes later. -/
theorem hasLongRun_append_cons {k i : Nat} {x : Char} (hx : x ≠ '"') (s : List Char) :
    HasLongRun k (List.replicate i '"' ++ x :: s) ↔ k < i ∨ HasLongRun k s := by
  have hprefix : ∀ i, (∃ c, c ≠ '"' ∧
      List.replicate (k + 1) '"' ++ [c] <+: List.replicate i '"' ++ x :: s) ↔ k + 1 = i := by
    intro i
    constructor
    · rintro ⟨c, hc, h⟩
      exact ((replicate_append_prefix_iff hc hx s).1 h).1
    · intro h
      exact ⟨x, hx, (replicate_append_prefix_iff hx hx s).2 ⟨h, rfl⟩⟩
  have hcons : ∀ d t, HasLongRun k (d :: t) ↔
      (∃ c, c ≠ '"' ∧ List.replicate (k + 1) '"' ++ [c] <+: d :: t) ∨ HasLongRun k t := by
    intro d t
    simp only [HasLongRun, List.infix_cons_iff, and_or_left, exists_or]
  induction i with
  | zero =>
    have hno := hprefix 0
    rw [List.replicate_zero, List.nil_append] at hno ⊢
    rw [hcons, hno]
    simp
  | succ i ih =>
    have hfirst := hprefix (i + 1)
    rw [List.replicate_succ (n := i), List.cons_append] at hfirst ⊢
    rw [hcons, hfirst]
    refine (or_congr_right ih).trans ?_
    rw [← or_assoc]
    exact or_congr_left (by omega)

/-- Only the last run is at the end. -/
theorem replicate_suffix_append_cons {k i : Nat} {x : Char} (hx : x ≠ '"') (s : List Char) :
    List.replicate k '"' <:+ List.replicate i '"' ++ x :: s ↔
      List.replicate k '"' <:+ s := by
  have hne : ∀ t : List Char, x ∈ t → List.replicate k '"' ≠ t := by
    rintro t hmem rfl
    exact hx (List.eq_of_mem_replicate hmem)
  induction i with
  | zero =>
    rw [List.replicate_zero, List.nil_append, List.suffix_cons_iff]
    exact or_iff_right (hne _ (by simp))
  | succ i ih =>
    rw [List.replicate_succ (n := i), List.cons_append, List.suffix_cons_iff]
    exact (or_iff_right (hne _ (by simp))).trans ih

theorem takeWhile_replicate_append (j : Nat) {s : List Char} (hs : s.head? ≠ some '"') :
    (List.replicate j '"' ++ s).takeWhile (· == '"') = List.replicate j '"' := by
  rw [List.takeWhile_append_of_pos fun c hc => by simp [List.eq_of_mem_replicate hc]]
  cases s with
  | nil => simp
  | cons c s =>
    have hc : c ≠ '"' := by simpa using hs
    simp [hc]

theorem dropWhile_replicate_append (j : Nat) {s : List Char} (hs : s.head? ≠ some '"') :
    (List.replicate j '"' ++ s).dropWhile (· == '"') = s := by
  rw [List.dropWhile_append_of_pos fun c hc => by simp [List.eq_of_mem_replicate hc]]
  cases s with
  | nil => rfl
  | cons c s =>
    have hc : c ≠ '"' := by simpa using hs
    simp [hc]

/-! ### Raw bodies -/

theorem isPrefixOf_replicate_append {n j : Nat} (hj : j < n) {s : List Char}
    (hs : s.head? ≠ some '"') :
    (List.replicate n '"').isPrefixOf (List.replicate j '"' ++ s) = false := by
  induction j generalizing n with
  | zero =>
    obtain ⟨n, rfl⟩ := Nat.exists_eq_succ_of_ne_zero (Nat.ne_of_gt hj)
    cases s with
    | nil => rfl
    | cons c s =>
      have hc : ('"' == c) = false := by
        rw [beq_eq_false_iff_ne]
        rintro rfl
        exact hs rfl
      simp [List.replicate_succ, List.isPrefixOf, hc]
  | succ j ih =>
    obtain ⟨n, rfl⟩ := Nat.exists_eq_succ_of_ne_zero (Nat.ne_of_gt (Nat.zero_lt_of_lt hj))
    simpa [List.replicate_succ, List.isPrefixOf] using ih (Nat.lt_of_succ_lt_succ hj)

/-- Quotes that are too few to close a body are part of it. -/
theorem rawBody_go_short {n j : Nat} (hj : j < n) {s : List Char} (hs : s.head? ≠ some '"')
    (taken : List Char) : rawBody.go n taken (List.replicate j '"' ++ s) =
      rawBody.go n (List.replicate j '"' ++ taken) s := by
  induction j generalizing taken with
  | zero => rfl
  | succ j ih =>
    have hopen := isPrefixOf_replicate_append hj hs
    rw [List.replicate_succ, List.cons_append] at hopen ⊢
    rw [rawBody.go, hopen, if_neg Bool.false_ne_true, ih (Nat.lt_of_succ_lt hj),
      List.append_cons, ← List.replicate_succ', List.replicate_succ]

/-- A character that is no quote is part of a raw body. -/
theorem rawBody_go_cons {n : Nat} (hn : n ≠ 0) {c : Char} (hc : c ≠ '"') (taken s : List Char) :
    rawBody.go n taken (c :: s) = rawBody.go n (c :: taken) s := by
  have hopen := isPrefixOf_replicate_append (j := 0) (s := c :: s) (Nat.pos_of_ne_zero hn)
    (by simpa using hc)
  rw [List.replicate_zero, List.nil_append] at hopen
  rw [rawBody.go, hopen, if_neg Bool.false_ne_true]

/-- Quotes enough to close a body are taken, all of them. -/
theorem rawBody_go_long {n j : Nat} (hn : n ≠ 0) (hj : n ≤ j) {s : List Char}
    (hs : s.head? ≠ some '"') (taken : List Char) :
    (rawBody.go n taken (List.replicate j '"' ++ s)).ahead = s := by
  have hclose : (List.replicate n '"').isPrefixOf (List.replicate j '"' ++ s) = true := by
    rw [List.isPrefixOf_iff_prefix]
    exact (List.prefix_replicate_iff.2 ⟨by simpa using hj, by simp⟩).trans (List.prefix_append _ _)
  have hdrop := dropWhile_replicate_append j hs
  obtain ⟨j, rfl⟩ := Nat.exists_eq_succ_of_ne_zero (n := j) (by omega)
  rw [List.replicate_succ, List.cons_append] at hclose hdrop ⊢
  rw [rawBody.go, if_pos hclose, ahead_skipWhile, hdrop]

/-- A body that has not ended in front of a text takes at least one character of it. -/
theorem rawBody_go_behind {n : Nat} (hn : n ≠ 0) {rest : List Char}
    (hrest : rest.head? ≠ some '"') (taken : List Char) :
    (rawBody.go n taken rest).ahead.length < rest.length ∨
      rest = [] ∧ (rawBody.go n taken rest).ahead = [] := by
  cases rest with
  | nil => exact .inr ⟨rfl, rfl⟩
  | cons c rest =>
    rw [rawBody_go_cons hn (by simpa using hrest)]
    exact .inl (Nat.lt_succ_of_le (reaches_rawBody_go _ _ _).length_le)

/-- How a raw body that opens with `2 * k + 1` quotes ends, if a text is still ahead as the content
of a verbatim literal: before the end of the literal, with it, or somewhere behind it. -/
inductive RawEnd (k : Nat) (content rest : List Char) (c : Cursor) : Prop where
  | inside (hlong : HasLongRun k content) (w : List Char) (hw : c.ahead = w ++ '"' :: rest)
  | there (hshort : ¬HasLongRun k content) (hlast : List.replicate k '"' <:+ content)
      (hc : c.ahead = rest)
  | behind (hshort : ¬HasLongRun k content) (hlast : ¬List.replicate k '"' <:+ content)
      (taken : List Char) (hc : c = rawBody.go (2 * k + 1) taken rest)

/-- A run that is not long changes nothing about the end, unless it is the last one. -/
theorem RawEnd.behind_run {k i : Nat} {content rest : List Char} {c : Cursor}
    (h : RawEnd k content rest c) (hi : ¬k < i) {x : Char} (hx : x ≠ '"') :
    RawEnd k (List.replicate i '"' ++ x :: content) rest c := by
  have hrun := hasLongRun_append_cons (k := k) (i := i) hx content
  have hsuffix := replicate_suffix_append_cons (k := k) (i := i) hx content
  cases h with
  | inside hlong w hw => exact .inside (hrun.2 (.inr hlong)) w hw
  | there hshort hlast hc =>
    exact .there (fun h => (hrun.1 h).elim hi hshort) (hsuffix.2 hlast) hc
  | behind hshort hlast taken hc =>
    exact .behind (fun h => (hrun.1 h).elim hi hshort) (fun h => hlast (hsuffix.1 h)) taken hc

/-- What a raw body leaves of a verbatim literal. The induction is on the content that is still
ahead; `i` quotes of it stand directly behind, in front of which no run was long. A long run ends
the body too early. Otherwise it ends with the literal if the last run is as long as the first, and
goes on behind the literal if it is shorter. -/
theorem rawBody_go_doubled (k : Nat) {rest : List Char} (hrest : rest.head? ≠ some '"')
    (content : List Char) (i : Nat) (taken : List Char) :
    RawEnd k (List.replicate i '"' ++ content) rest (rawBody.go (2 * k + 1) taken
      (List.replicate (2 * i) '"' ++ (doubled content ++ '"' :: rest))) := by
  induction content generalizing i taken with
  | nil =>
    have htext : List.replicate (2 * i) '"' ++ (doubled [] ++ '"' :: rest) =
        List.replicate (2 * i + 1) '"' ++ rest := by
      rw [doubled_nil, List.nil_append, List.append_cons, ← List.replicate_succ']
    have hshort := not_hasLongRun_replicate k i
    have hlast : List.replicate k '"' <:+ List.replicate i '"' ↔ k ≤ i := by
      simp [List.suffix_replicate_iff]
    rw [htext, List.append_nil]
    by_cases hk : k ≤ i
    · exact .there hshort (hlast.2 hk) (rawBody_go_long (by omega) (by omega) hrest taken)
    · exact .behind hshort (mt hlast.1 hk) _ (rawBody_go_short (by omega) hrest taken)
  | cons c content ih =>
    by_cases hc : c = '"'
    · subst hc
      have hcontent : List.replicate i '"' ++ '"' :: content =
          List.replicate (i + 1) '"' ++ content := by
        rw [List.append_cons, ← List.replicate_succ']
      have htext : List.replicate (2 * i) '"' ++ (doubled ('"' :: content) ++ '"' :: rest) =
          List.replicate (2 * (i + 1)) '"' ++ (doubled content ++ '"' :: rest) := by
        rw [doubled_quote, List.cons_append, List.cons_append, List.append_cons,
          ← List.replicate_succ', List.append_cons, ← List.replicate_succ']
        rfl
      rw [hcontent, htext]
      exact ih (i + 1) taken
    · have hhead : (c :: (doubled content ++ '"' :: rest)).head? ≠ some '"' := by simpa using hc
      rw [doubled_cons_of_ne hc, List.cons_append]
      by_cases hk : k < i
      · refine .inside ((hasLongRun_append_cons hc content).2 (.inl hk)) (c :: doubled content) ?_
        exact rawBody_go_long (by omega) (by omega) hhead taken
      · rw [rawBody_go_short (by omega) hhead, rawBody_go_cons (by omega) hc]
        exact (ih 0 (c :: (List.replicate (2 * i) '"' ++ taken))).behind_run hk hc

/-! ### Quoted bodies -/

/-- A quoted body takes the doubled quotes and ends with the single one. -/
theorem quotedBody_doubled {rest : List Char} (hrest : rest.head? ≠ some '"') (content : List Char)
    (taken : List Char) {fuel : Nat} (hf : (doubled content ++ '"' :: rest).length < fuel) :
    (quotedBody true false fuel ⟨taken, doubled content ++ '"' :: rest⟩).ahead = rest := by
  induction content generalizing taken fuel with
  | nil =>
    obtain ⟨fuel, rfl⟩ := Nat.exists_eq_succ_of_ne_zero (Nat.ne_of_gt (Nat.zero_lt_of_lt hf))
    have hsingle : (rest.head? == some '"') = false := by simpa using hrest
    rw [quotedBody_cons rfl]
    simp [hsingle]
  | cons c content ih =>
    obtain ⟨fuel, rfl⟩ := Nat.exists_eq_succ_of_ne_zero (Nat.ne_of_gt (Nat.zero_lt_of_lt hf))
    by_cases hc : c = '"'
    · subst hc
      rw [doubled_quote, List.cons_append, List.cons_append] at hf ⊢
      rw [quotedBody_cons rfl]
      exact ih _ (by simp only [List.length_cons] at hf ⊢; omega)
    · rw [doubled_cons_of_ne hc, List.cons_append] at hf ⊢
      rw [quotedBody_cons rfl]
      simpa [hc, next] using ih (c :: taken) (by simp only [List.length_cons] at hf ⊢; omega)

/-! ### The literal as a token -/

section

variable {content rest : List Char} {fuel : Nat}

/-- Behind a literal no mark of an encoding follows. -/
def Unmarked (rest : List Char) : Prop := ¬['u', '8'] <+: rest ∧ ¬['U', '8'] <+: rest

instance (rest : List Char) : Decidable (Unmarked rest) := inferInstanceAs (Decidable (_ ∧ _))

theorem encodingMark_of_unmarked {k : Cursor} (hk : Unmarked k.ahead) : encodingMark k = k := by
  refine if_neg fun h => ?_
  simp only [startsWith, Bool.or_eq_true, List.isPrefixOf_iff_prefix] at h
  exact h.elim hk.1 hk.2

/-- A mark is not taken out of the closing quote. -/
theorem length_lt_encodingMark {k : Cursor} {w : List Char} (hk : k.ahead = w ++ '"' :: rest) :
    rest.length < (encodingMark k).ahead.length := by
  unfold encodingMark
  split
  · rename_i h
    simp only [startsWith, Bool.or_eq_true, List.isPrefixOf_iff_prefix, hk] at h
    rw [ahead_skip, hk]
    rcases w with - | ⟨a, - | ⟨b, w⟩⟩
    · simp at h
    · simp at h
    · simp
      omega
  · simp [hk]
    omega

theorem stringForm_at (t : List Char) : stringForm ('@' :: '"' :: t) =
    if 2 ≤ leadingQuotes t then .raw (leadingQuotes t + 1) else .quoted true false := by
  have hat : isSigil '@' = true := by decide
  have hquote : isSigil '"' = false := by decide
  by_cases h : 2 ≤ leadingQuotes t
  · rw [leadingQuotes] at h
    simp [stringForm, hat, hquote, leadingQuotes, h]
  · rw [leadingQuotes] at h
    simp [stringForm, hat, hquote, leadingQuotes, h]

/-- Behind `@` and fewer than three quotes the first quote opens a body. -/
theorem stringLiteral_quoted {t : List Char} (ht : leadingQuotes t < 2) (fuel : Nat) :
    ∃ taken, stringLiteral fuel (start ('@' :: '"' :: t)) =
      encodingMark (quotedBody true false fuel ⟨taken, t⟩) := by
  have hat : isSigil '@' = true := by decide
  have hquote : isSigil '"' = false := by decide
  have hform : stringForm ('@' :: '"' :: t) = .quoted true false := by
    rw [stringForm_at, if_neg (by omega)]
  refine ⟨['"', '@'], ?_⟩
  simp [stringLiteral, openString, start, hform, skipWhile, hat, hquote, next]

/-- Behind `@` and three quotes or more all quotes open a raw body. -/
theorem stringLiteral_raw {n : Nat} (hn : 3 ≤ n) {s : List Char} (hs : s.head? ≠ some '"')
    (fuel : Nat) : ∃ taken, stringLiteral fuel (start ('@' :: (List.replicate n '"' ++ s))) =
      encodingMark (rawBody.go n taken s) := by
  have hat : isSigil '@' = true := by decide
  have hquote : isSigil '"' = false := by decide
  obtain ⟨n, rfl⟩ := Nat.exists_eq_succ_of_ne_zero (n := n) (by omega)
  have hquotes : leadingQuotes (List.replicate n '"' ++ s) = n := by
    rw [leadingQuotes, takeWhile_replicate_append n hs, List.length_replicate]
  have hform : stringForm ('@' :: '"' :: (List.replicate n '"' ++ s)) = .raw (n + 1) := by
    rw [stringForm_at, hquotes, if_pos (by omega)]
  have hopen : (openString (start ('@' :: '"' :: (List.replicate n '"' ++ s)))).ahead = s := by
    simp [openString, start, hform, hat, hquote]
  refine ⟨(openString (start ('@' :: '"' :: (List.replicate n '"' ++ s)))).taken, ?_⟩
  rw [List.replicate_succ, List.cons_append]
  simp only [stringLiteral, start, hform, rawBody]
  rw [start] at hopen
  rw [hopen]

theorem leadingQuotes_doubled (hcontent : content.head? ≠ some '"')
    (hrest : rest.head? ≠ some '"') : leadingQuotes (doubled content ++ '"' :: rest) < 2 := by
  cases content with
  | nil =>
    have := takeWhile_replicate_append 1 hrest
    rw [List.replicate_one, List.singleton_append] at this
    simp [leadingQuotes, this]
  | cons c content =>
    have hc : c ≠ '"' := by simpa using hcontent
    rw [doubled_cons_of_ne hc, List.cons_append]
    simp [leadingQuotes, hc]

/-- The quotes in front of the body of a literal whose content begins with a quote. -/
theorem verbatim_eq_of_head (content rest : List Char) :
    verbatim content ++ rest = '@' :: (List.replicate (2 * leadingQuotes content + 1) '"' ++
      (doubled (unquoted content) ++ '"' :: rest)) := by
  conv_lhs => rw [verbatim, eq_replicate_append_unquoted content, doubled_replicate_append]
  simp [List.replicate_succ]

theorem leadingQuotes_pos (hcontent : content.head? = some '"') : leadingQuotes content ≠ 0 := by
  obtain ⟨s, rfl⟩ := List.head?_eq_some_iff.1 hcontent
  simp [leadingQuotes]

theorem ahead_encodingMark_le (k : Cursor) : (encodingMark k).ahead.length ≤ k.ahead.length :=
  (reaches_encodingMark k).length_le

/-- A literal that ends where the text behind it begins ends there with its mark. -/
theorem ahead_encodingMark (hmark : Unmarked rest) {k : Cursor} (hk : k.ahead = rest) :
    (encodingMark k).ahead = rest := by
  rw [encodingMark_of_unmarked (hk ▸ hmark), hk]

/-- A body that goes on behind the literal stops at the same place only if both are at the end. -/
theorem ahead_rawBody_go_iff (hrest : rest.head? ≠ some '"') (hmark : Unmarked rest) {n : Nat}
    (hn : n ≠ 0) (taken : List Char) :
    (encodingMark (rawBody.go n taken rest)).ahead = rest ↔ rest = [] := by
  rcases rawBody_go_behind hn hrest taken with hlt | ⟨hnil, hahead⟩
  · have hle := ahead_encodingMark_le (rawBody.go n taken rest)
    constructor
    · intro h
      rw [h] at hle
      omega
    · rintro rfl
      exact absurd hlt (Nat.not_lt_zero _)
  · exact iff_of_true (ahead_encodingMark hmark (by rw [hahead, hnil])) hnil

/-- The end of the literal if the content does not begin with a quote. -/
theorem ahead_stringLiteral_quoted (hrest : rest.head? ≠ some '"') (hmark : Unmarked rest)
    (hcontent : content.head? ≠ some '"') (hf : (verbatim content ++ rest).length < fuel) :
    (stringLiteral fuel (start (verbatim content ++ rest))).ahead = rest := by
  obtain ⟨taken, hquoted⟩ :=
    stringLiteral_quoted (leadingQuotes_doubled hcontent hrest) fuel
  have hlength : (doubled content ++ '"' :: rest).length < fuel := by
    simp only [verbatim, List.length_append, List.length_cons] at hf ⊢
    omega
  have htext : verbatim content ++ rest = '@' :: '"' :: (doubled content ++ '"' :: rest) := by
    simp [verbatim]
  rw [htext, hquoted]
  exact ahead_encodingMark hmark (quotedBody_doubled hrest content taken hlength)

/-- The end of the literal if the content is all quotes. The closing quote is one of those that open
the body. -/
theorem ahead_stringLiteral_quotes_iff (hrest : rest.head? ≠ some '"') (hmark : Unmarked rest)
    (hcontent : content.head? = some '"') (hall : unquoted content = []) :
    (stringLiteral fuel (start (verbatim content ++ rest))).ahead = rest ↔ rest = [] := by
  have hk := leadingQuotes_pos hcontent
  have htext : verbatim content ++ rest =
      '@' :: (List.replicate (2 * leadingQuotes content + 1 + 1) '"' ++ rest) := by
    rw [verbatim_eq_of_head, hall, doubled_nil, List.nil_append, List.append_cons,
      ← List.replicate_succ']
  obtain ⟨taken, hraw⟩ := stringLiteral_raw
    (n := 2 * leadingQuotes content + 1 + 1) (by omega) hrest fuel
  rw [htext, hraw, ahead_rawBody_go_iff hrest hmark (by omega)]

/-- The end of the literal if the content begins with quotes and goes on. -/
theorem ahead_stringLiteral_raw_iff (hrest : rest.head? ≠ some '"') (hmark : Unmarked rest)
    (hcontent : content.head? = some '"') (hmore : unquoted content ≠ []) :
    (stringLiteral fuel (start (verbatim content ++ rest))).ahead = rest ↔
      ¬HasLongRun (leadingQuotes content) (unquoted content) ∧
        (rest = [] ∨ List.replicate (leadingQuotes content) '"' <:+ unquoted content) := by
  have hk := leadingQuotes_pos hcontent
  have hhead : (doubled (unquoted content) ++ '"' :: rest).head? ≠ some '"' := by
    obtain ⟨c, body, hbody⟩ := List.exists_cons_of_ne_nil hmore
    have hc := head?_unquoted content
    rw [hbody] at hc ⊢
    have hne : c ≠ '"' := by simpa using hc
    simpa [doubled_cons_of_ne hne] using hne
  obtain ⟨taken, hraw⟩ := stringLiteral_raw
    (n := 2 * leadingQuotes content + 1) (by omega) hhead fuel
  rw [verbatim_eq_of_head, hraw]
  have hend := rawBody_go_doubled (leadingQuotes content) hrest (unquoted content) 0 taken
  rw [Nat.mul_zero, List.replicate_zero, List.nil_append, List.nil_append] at hend
  cases hend with
  | inside hlong w hw =>
    refine iff_of_false (fun h => ?_) fun h => h.1 hlong
    have hlt := length_lt_encodingMark hw
    rw [h] at hlt
    exact Nat.lt_irrefl _ hlt
  | there hshort hlast hc => exact iff_of_true (ahead_encodingMark hmark hc) ⟨hshort, .inr hlast⟩
  | behind hshort hlast taken' hc =>
    rw [hc, ahead_rawBody_go_iff hrest hmark (by omega)]
    simp [hshort, hlast]

/-- The literal is taken up to its end exactly if it closes. -/
theorem ahead_stringLiteral_iff (hrest : rest.head? ≠ some '"') (hmark : Unmarked rest)
    (hf : (verbatim content ++ rest).length < fuel) :
    (stringLiteral fuel (start (verbatim content ++ rest))).ahead = rest ↔ Closes content rest := by
  by_cases hcontent : content.head? = some '"'
  · rw [Closes, forall_prop_of_true hcontent]
    by_cases hall : unquoted content = []
    · have hno : ¬HasLongRun (leadingQuotes content) [] := not_hasLongRun_replicate _ 0
      have hk := leadingQuotes_pos hcontent
      rw [ahead_stringLiteral_quotes_iff hrest hmark hcontent hall, hall]
      simp [hno, hk]
    · exact ahead_stringLiteral_raw_iff hrest hmark hcontent hall
  · have hend := ahead_stringLiteral_quoted hrest hmark hcontent hf
    exact iff_of_true hend fun h => absurd h hcontent

/-- The first token of a text that begins with a verbatim literal is some literal. -/
theorem token_verbatim (content rest : List Char) (fuel : Nat) :
    token fuel (verbatim content ++ rest) =
      .ok (.stringLiteral, stringLiteral fuel (start (verbatim content ++ rest))) := by
  have hat : isSigil '@' = true := by decide
  have hquote : isSigil '"' = false := by decide
  simp [token, verbatim, opensString, isBrokenString, stringKind, hat, hquote]

end

/-! ### The first token -/

section

variable {content rest : List Char}

/-- The text of the token is the literal exactly if the rest is still ahead. -/
theorem lexeme_eq_iff {k : Cursor} {u : List Char} (hk : (start (u ++ rest)).Reaches k) :
    k.lexeme = String.ofList u ↔ k.ahead = rest := by
  have htext : k.lexeme.toList ++ k.ahead = u ++ rest := hk.toList_lexeme
  constructor
  · intro h
    rw [h, String.toList_ofList] at htext
    exact List.append_cancel_left htext
  · intro h
    rw [h] at htext
    rw [← List.append_cancel_right htext, String.ofList_toList]

/-- The first token of a text that begins with a verbatim literal, and the place behind it. -/
theorem exists_takes_verbatim (content : List Char) (hrest : rest.head? ≠ some '"')
    (hmark : Unmarked rest) :
    ∃ text q, Takes ⟨[], verbatim content ++ rest⟩ .stringLiteral text q ∧
      (text = String.ofList (verbatim content) ↔ Closes content rest) := by
  have hne : verbatim content ++ rest ≠ [] := by simp [verbatim]
  have htok := token_verbatim content rest ((verbatim content ++ rest).length + 1)
  have hadv := (advances_token htok hne).1.1
  refine ⟨_, _, ⟨hne, _, _, Nat.lt_succ_self _, htok, rfl, rfl⟩, ?_⟩
  rw [lexeme_eq_iff hadv, ahead_stringLiteral_iff hrest hmark (Nat.lt_succ_self _)]

/-- A verbatim literal is read back as the first token exactly if it closes and the text behind it
can be read there. A text that does not begin with a directive can be read behind the literal
exactly if it has tokens of its own. -/
theorem tokenize_verbatim_iff (content rest : List Char) (hrest : rest.head? ≠ some '"')
    (hmark : Unmarked rest) :
    ((∃ trailing more, tokenize (String.ofList (verbatim content ++ rest)) =
        .ok (⟨.stringLiteral, String.ofList (verbatim content), [], trailing⟩ :: more)) ↔
      Closes content rest ∧ ¬Breaks ⟨(verbatim content).reverse, rest⟩) ∧
    (¬StartsDirective rest → ((∃ ts, tokenize (String.ofList rest) = .ok ts) ↔
      ¬Breaks ⟨(verbatim content).reverse, rest⟩)) := by
  constructor
  · obtain ⟨text, q, htake, htext⟩ := exists_takes_verbatim content hrest hmark
    have hfirm : isFirm '@' = true := by decide
    have hlead : Skips false ⟨[], verbatim content ++ rest⟩ [] _ := skips_nil_of_isFirm hfirm rfl
    rw [exists_tokenize_cons_iff hlead htake, ← htext]
    refine and_congr_right ?_
    rintro rfl
    obtain rfl : q = ⟨(verbatim content).reverse, rest⟩ := by
      refine htake.reads.1.place_eq ⟨?_, ?_⟩ <;> simp
    exact Iff.rfl
  · intro hstart
    have hlevel : Place.Level ⟨[], rest⟩ ⟨(verbatim content).reverse, rest⟩ := ⟨rfl, .inr hstart⟩
    have htokens := exists_tokensFrom_iff (p := ⟨[], rest⟩) (Nat.lt_succ_self _)
    rw [tokenize, String.toList_ofList]
    refine htokens.trans (not_congr ?_)
    exact ⟨fun h => h.level hlevel, fun h => h.level hlevel.symm⟩

/-- A quote inside the content, and a word behind the literal. -/
theorem tokenize_verbatim_iff_inside : ∃ trailing more, tokenize "@\"a\"\"b\" x" =
    .ok (⟨.stringLiteral, "@\"a\"\"b\"", [], trailing⟩ :: more) := by
  obtain ⟨hfirst, hreadable⟩ :=
    tokenize_verbatim_iff "a\"b".toList " x".toList (by decide) (by decide)
  have htokens : tokenize " x" =
      .ok [⟨.identifier, "x", [.space], []⟩, .endOfFile []] := by decide +kernel
  have hcloses : Closes "a\"b".toList " x".toList := fun h => absurd h (by decide)
  exact hfirst.2 ⟨hcloses, (hreadable (by decide)).1 ⟨_, htokens⟩⟩

/-- The text of one quote, with a blank and a word behind the literal: all of it is one token. -/
theorem tokenize_verbatim_quote :
    (∃ ts, tokenize " x" = .ok ts) ∧ ¬∃ trailing more, tokenize "@\"\"\"\" x" =
      .ok (⟨.stringLiteral, "@\"\"\"\"", [], trailing⟩ :: more) := by
  have hone : tokenize "@\"\"\"\" x" =
      .ok [⟨.stringLiteral, "@\"\"\"\" x", [], []⟩, .endOfFile []] := by decide +kernel
  have hrest : tokenize " x" =
      .ok [⟨.identifier, "x", [.space], []⟩, .endOfFile []] := by decide +kernel
  refine ⟨⟨_, hrest⟩, ?_⟩
  rintro ⟨trailing, more, h⟩
  rw [hone] at h
  simp at h

end

end PluginLint.Lexer
