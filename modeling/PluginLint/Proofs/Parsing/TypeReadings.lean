import PluginLint.Proofs.Parsing.Files
import PluginLint.Proofs.Parsing.FollowedTypes

/-!
# Types are read as they were followed

A type is followed over the tokens ahead by one set of functions and read by another one. Both stop at
the same token, and where the one finds a type the other notes no problem. Inside a type both have the
bound of the phrase around it less one, so the proof is by induction on the bound.
-/
namespace PluginLint.Grammar

variable {n m k : Nat} {g : Phrases} {ts mid rest : List Token}

/-- Where fewer than `k` tokens are ahead, the phrase for a type reads what is followed as a type. -/
def ReadsTypes (k : Nat) (g : Phrases) : Prop :=
  ∀ ts rest, ts.length < k → skipType k ts = .ok (some rest) → Reads (g .type) ts true rest

/-! ### Type arguments -/

/-- One round of type arguments: a comma, the closing bracket or a type. -/
def typeArgument (g : Phrases) : Parse Bool := do
  if ← eat "," then return true
  if ← eat ">" then return false
  orReport (g .type) "expected `>`"

theorem reads_typeArgument_comma (h : startsText ts "," = true) :
    Reads (typeArgument g) ts true (ts.drop 1) :=
  (Reads.eat h (by decide)).bind (.ite_pos rfl .pure)

theorem reads_typeArgument_close (hcomma : startsText ts "," = false)
    (h : startsText ts ">" = true) : Reads (typeArgument g) ts false (ts.drop 1) := by
  apply (Reads.eat_none hcomma).bind
  apply Reads.ite_neg Bool.false_ne_true
  exact (Reads.eat h (by decide)).bind (.ite_pos rfl .pure)

theorem reads_typeArgument_type (hg : ReadsTypes k g) (hk : ts.length < k)
    (h : skipType k ts = .ok (some rest)) : Reads (typeArgument g) ts true rest := by
  apply Reads.of_spelled
  intro hs
  apply (Reads.eat_none (not_startsText_of_skipType hs h (by decide))).bind
  apply Reads.ite_neg Bool.false_ne_true
  apply (Reads.eat_none (not_startsText_of_skipType hs h (by decide))).bind
  exact .ite_neg Bool.false_ne_true (.orReport (hg ts rest hk h))

/-- Commas up to the closing bracket. -/
theorem reads_blankArguments (h : startsText (skipText "," ts) ">" = true) (hm : ts.length < m) :
    Reads (repeatUpTo m (typeArgument g)) ts () ((skipText "," ts).drop 1) := by
  induction m generalizing ts with
  | zero => omega
  | succ m ih =>
    cases hcomma : startsText ts "," with
    | true =>
      have hlt := length_drop_one_lt hcomma (by decide)
      rw [skipText_of_startsText hcomma] at h ⊢
      exact .repeat_again (reads_typeArgument_comma hcomma) (ih h (by omega))
    | false =>
      rw [skipText_of_not_startsText hcomma] at h ⊢
      exact .repeat_stop (reads_typeArgument_close hcomma h)

/-- Types with commas between them up to the closing bracket. A comma is read in a round of its own. -/
theorem reads_typeItems (hg : ReadsTypes k g) (h : skipTypeItems (skipType k) n ts = .ok (some rest))
    (hk : ts.length < k) (hm : ts.length < m) :
    Reads (repeatUpTo m (typeArgument g)) ts () rest := by
  induction n generalizing ts m with
  | zero => cases h
  | succ n ih =>
    obtain ⟨mid, hmid, hnext⟩ := skipTypeItems_cases h
    have hlt := length_of_skipType hmid hk
    have htype := reads_typeArgument_type hg hk hmid
    rcases hnext with ⟨hcomma, hnext⟩ | ⟨hcomma, hclose, rfl⟩
    · have hdrop := length_drop_one_lt hcomma (by decide)
      obtain ⟨m, rfl⟩ : ∃ m', m = m' + 2 := ⟨m - 2, by omega⟩
      have hitems := ih hnext (by omega) (show (mid.drop 1).length < m by omega)
      exact .repeat_again htype (.repeat_again (reads_typeArgument_comma hcomma) hitems)
    · have hdrop := length_drop_one_lt hclose (by decide)
      obtain ⟨m, rfl⟩ : ∃ m', m = m' + 2 := ⟨m - 2, by omega⟩
      exact .repeat_again htype (.repeat_stop (reads_typeArgument_close hcomma hclose))

theorem reads_typeArgumentList (hg : ReadsTypes k g)
    (h : skipTypeArgumentsWith (skipType k) n ts = .ok (some rest)) (hend : startsEnd ts = false)
    (hk : ts.length ≤ k) (hm : ts.length ≤ m) : Reads (typeArgumentList m g) ts () rest := by
  have hlt := length_drop_one_lt_of_more hend
  apply Reads.node
  apply (Reads.bump hend).bind
  unfold skipTypeArgumentsWith at h
  dsimp only at h
  split at h
  · rw [Except.ok.injEq] at h
    split at h
    · rename_i hclose
      cases h
      exact reads_blankArguments hclose (by omega)
    · cases h
  · exact reads_typeItems hg h (by omega) (by omega)

/-! ### Names -/

/-- A name is read with the type arguments that are followed behind it, and without any if none are. -/
theorem reads_simpleTypeName (hg : ReadsTypes k g) (hname : startsIdentifier ts = true)
    (h : skipSegment (skipType k) n ts = .ok rest) (hn : n ≤ k + 1) (hk : ts.length ≤ k) :
    Reads (simpleTypeName (k + 1) g) ts () rest := by
  have hend := not_startsEnd_of_identifier hname
  have hlt := length_drop_one_lt_of_more hend
  have hopen : startsText (ts.drop 1) "<" = (textAt ts 1 == "<") := by
    rw [startsText, textAt_drop]
  unfold skipSegment at h
  dsimp only at h
  rw [hopen] at h
  split at h
  · rename_i hangle
    obtain ⟨found, hfound, h⟩ := exists_ok_of_bind h
    cases h
    have hlook : startsGenericType (k + 1) ts = .ok found.isSome := by
      have harguments : skipTypeArguments (k + 1) (ts.drop 1) = .ok found :=
        carries_skipTypeArgumentsWith (fun us => carries_skipType (Nat.le_succ k)) hn found hfound
      rw [startsGenericType, if_pos hangle, harguments]
      rfl
    apply (Reads.look hlook).bind
    cases found with
    | none => exact .ite_neg Bool.false_ne_true (.node (.bump hend))
    | some rest =>
      apply Reads.ite_pos rfl
      apply Reads.node
      apply (Reads.bump hend).bind
      apply Reads.of_spelled
      intro hs
      exact reads_typeArgumentList hg hfound (hs.not_startsEnd (hopen.trans hangle) (by decide))
        (by omega) (by omega)
  · rename_i hangle
    cases h
    have hlook : startsGenericType (k + 1) ts = .ok false := by
      rw [startsGenericType, if_neg hangle]
      rfl
    exact (Reads.look hlook).bind (.ite_neg Bool.false_ne_true (.node (.bump hend)))

theorem startsQualifier_cases (h : startsQualifier ts = true) :
    (∃ text, startsText ts text = true ∧ text ≠ "") ∧ startsIdentifier (ts.drop 1) = true := by
  rw [startsQualifier, Bool.and_eq_true, Bool.or_eq_true] at h
  constructor
  · rcases h.1 with hdot | hcolons
    · exact ⟨".", hdot, by decide⟩
    · exact ⟨"::", hcolons, by decide⟩
  · rw [startsIdentifier, kindAt, nth_drop]
    exact h.2

/-- Further segments of a dotted name, one round each. -/
theorem reads_qualifiers (hg : ReadsTypes k g) (h : skipSegments (skipType k) n ts = .ok rest)
    (hn : n ≤ k + 1) (hk : ts.length ≤ k) (hlt : ts.length < n) : Reads (repeatUpTo n do
      if startsQualifier (← ahead) then
        wrapLast .qualifiedName do
          bump
          simpleTypeName (k + 1) g
        return true
      return false) ts () rest := by
  induction n generalizing ts with
  | zero => cases h
  | succ n ih =>
    rw [skipSegments] at h
    split at h
    · rename_i hdot
      obtain ⟨mid, hmid, h⟩ := exists_ok_of_bind h
      obtain ⟨⟨text, hmark, hne⟩, hname⟩ := startsQualifier_cases hdot
      have hdrop := length_drop_one_lt hmark hne
      have hle := length_drop_le (ts.drop 1) 1
      have hlength := (settles_skipSegment (followsInside_skipType (n := k) (by omega))
        (n := n) (by omega)).of_eq hmid
      have hsegment : Reads (do bump; simpleTypeName (k + 1) g) ts () mid := by
        apply (Reads.bump_text hmark hne).bind
        exact reads_simpleTypeName hg hname hmid (by omega) (by omega)
      apply Reads.repeat_again _ (ih h (by omega) (by omega) (by omega))
      exact Reads.ahead.bind (.ite_pos hdot hsegment.wrapLast.return_true)
    · rename_i hdot
      cases h
      exact .repeat_stop (Reads.ahead.bind (.ite_neg hdot .pure))

theorem reads_dottedName (hg : ReadsTypes k g) (hname : startsIdentifier ts = true)
    (hmid : skipSegment (skipType k) (k + 1) ts = .ok mid)
    (h : skipSegments (skipType k) (k + 1) mid = .ok rest) (hk : ts.length ≤ k) :
    Reads (dottedName (k + 1) g) ts true rest := by
  have hle := length_drop_le ts 1
  have hlength := (settles_skipSegment (followsInside_skipType hk) (n := k + 1) (by omega)).of_eq hmid
  apply Reads.atIdentifier.bind
  apply Reads.ite_neg (by simp [hname])
  apply (reads_simpleTypeName hg hname hmid (Nat.le_refl _) hk).bind
  exact (reads_qualifiers hg h (Nat.le_refl _) (by omega) (by omega)).bind .pure

/-! ### Tuples -/

/-- An element of a tuple type: a type and the name that it may have. -/
def tupleElement (g : Phrases) : Parse Bool := do
  if ← expectType (g .type) then
    if ← atIdentifier then bump
    return true
  return false

theorem reads_tupleElement (hg : ReadsTypes k g) (hk : ts.length < k)
    (h : skipType k ts = .ok (some mid)) : Reads (tupleElement g) ts true (skipName mid) := by
  apply (Reads.orReport (hg ts mid hk h)).bind
  apply Reads.ite_pos rfl
  apply Reads.atIdentifier.bind
  unfold skipName
  split
  · rename_i hname
    exact (Reads.bump (not_startsEnd_of_identifier hname)).return_true
  · exact .pure

/-- The elements of a tuple up to the closing parenthesis, one round each. -/
theorem reads_tupleItems (hg : ReadsTypes k g) {count : Nat}
    (h : skipTupleItems (skipType k) n count ts = .ok (some rest)) (hk : ts.length < k)
    (hm : n ≤ m) : ∃ mid, startsText mid ")" = true ∧ rest = mid.drop 1 ∧
      Reads (commaSeparated m (tupleElement g)) ts () mid := by
  induction n generalizing ts count m with
  | zero => cases h
  | succ n ih =>
    obtain ⟨m, rfl, hle⟩ := exists_succ_of_le hm
    obtain ⟨mid, hmid, hnext⟩ := skipTupleItems_cases h
    have hlt := length_of_skipType hmid hk
    have hname := length_skipName_le mid
    have helement := reads_tupleElement hg hk hmid
    rcases hnext with ⟨hcomma, hnext⟩ | ⟨hcomma, hclose, rfl⟩
    · have hdrop := length_drop_one_lt hcomma (by decide)
      obtain ⟨last, hlast, hrest, hitems⟩ := ih hnext (by omega) hle
      exact ⟨last, hlast, hrest, helement.comma_again hcomma hitems⟩
    · exact ⟨skipName mid, hclose, rfl, helement.comma_stop hcomma⟩

theorem reads_tupleType (hg : ReadsTypes k g) (hend : startsEnd ts = false)
    (h : skipTupleItems (skipType k) n 0 (ts.drop 1) = .ok (some rest)) (hk : ts.length ≤ k)
    (hm : n ≤ m) : Reads (tupleType m g) ts () rest := by
  have hlt := length_drop_one_lt_of_more hend
  obtain ⟨mid, hclose, rfl, hitems⟩ := reads_tupleItems hg h (by omega) hm
  apply Reads.node
  apply (Reads.bump hend).bind
  apply hitems.bind
  exact .discard (.expect hclose (by decide))

/-! ### Question marks and ranks -/

theorem reads_emptyRank (h : skipEmptyRank? ts = some rest) (hn : ts.length < n) :
    Reads (emptyRank n) ts true rest := by
  have hsome : (skipEmptyRank? ts).isSome = true := by
    rw [h]
    rfl
  simp only [skipEmptyRank?, Option.ite_none_right_eq_some, Option.some.injEq] at h
  obtain ⟨hopen, hclose, rfl⟩ := h
  have hlt := length_drop_one_lt hopen (by decide)
  have hrank : Reads (do bump; bumpWhile n ","; bump) ts () ((skipText "," (ts.drop 1)).drop 1) := by
    apply (Reads.bump_text hopen (by decide)).bind
    exact (Reads.bumpWhile (by decide) (by omega)).bind (.bump_text hclose (by decide))
  exact Reads.ahead.bind (.ite_pos hsome hrank.node.return_true)

theorem not_startsText_of_skipEmptyRank? (h : skipEmptyRank? ts = some rest) :
    startsText ts "?" = false := by
  simp only [skipEmptyRank?, Option.ite_none_right_eq_some] at h
  rw [startsText, startsText_iff.1 h.1]
  decide

theorem skipTypeSuffixes_rank (hrank : skipEmptyRank? ts = some mid)
    (h : skipTypeSuffixes (n + 1) ts = .ok rest) : skipTypeSuffixes n mid = .ok rest := by
  rw [skipTypeSuffixes, not_startsText_of_skipEmptyRank? hrank, if_neg Bool.false_ne_true, hrank] at h
  exact h

/-- Ranks are read together where they are followed one by one. -/
theorem reads_emptyRanks (h : skipTypeSuffixes n ts = .ok rest) (hm : ts.length < m)
    (hk : ts.length < k) : ∃ j mid, skipTypeSuffixes j mid = .ok rest ∧ mid.length ≤ ts.length ∧
      Reads (repeatUpTo m (emptyRank k)) ts () mid := by
  induction m generalizing n ts with
  | zero => omega
  | succ m ih =>
    cases hrank : skipEmptyRank? ts with
    | none =>
      refine ⟨n, ts, h, Nat.le_refl _, .repeat_stop (Reads.ahead.bind (.ite_neg ?_ .pure))⟩
      rw [hrank]
      exact Bool.false_ne_true
    | some next =>
      cases n with
      | zero => cases h
      | succ n =>
        have hlt := length_skipEmptyRank? hrank
        obtain ⟨j, mid, hmid, hle, hranks⟩ := ih (skipTypeSuffixes_rank hrank h) (by omega) (by omega)
        exact ⟨j, mid, hmid, by omega, .repeat_again (reads_emptyRank hrank hk) hranks⟩

/-- One round behind a type: a question mark, or all ranks that stand next to one another. -/
def typeSuffix (n : Nat) : Parse Bool := do
  if ← atText "?" then
    wrapLast .nullableType bump
    return true
  if (skipEmptyRank? (← ahead)).isSome then
    wrapLast .arrayType (repeatUpTo n (emptyRank n))
    return true
  return false

theorem reads_typeSuffix_mark (h : startsText ts "?" = true) :
    Reads (typeSuffix n) ts true (ts.drop 1) := by
  apply (Reads.atText "?").bind
  exact .ite_pos h (Reads.bump_text h (by decide)).wrapLast.return_true

theorem reads_typeSuffix_ranks {next : List Token} (hrank : skipEmptyRank? ts = some next)
    (h : Reads (repeatUpTo n (emptyRank n)) ts () rest) : Reads (typeSuffix n) ts true rest := by
  apply (Reads.atText "?").bind
  apply Reads.ite_neg (Bool.eq_false_iff.1 (not_startsText_of_skipEmptyRank? hrank))
  apply Reads.ahead.bind
  exact .ite_pos (by rw [hrank]; rfl) h.wrapLast.return_true

theorem reads_typeSuffix_none (hmark : startsText ts "?" = false)
    (hrank : skipEmptyRank? ts = none) : Reads (typeSuffix n) ts false ts := by
  apply (Reads.atText "?").bind
  apply Reads.ite_neg (Bool.eq_false_iff.1 hmark)
  apply Reads.ahead.bind
  exact .ite_neg (by rw [hrank]; exact Bool.false_ne_true) .pure

/-- Question marks are read one by one, and ranks that stand next to one another together. -/
theorem reads_typeSuffixes (h : skipTypeSuffixes n ts = .ok rest) (hm : ts.length < m)
    (hk : ts.length < k) : Reads (repeatUpTo m (typeSuffix k)) ts () rest := by
  induction m generalizing n ts with
  | zero => omega
  | succ m ih =>
    cases n with
    | zero => cases h
    | succ n =>
      cases hmark : startsText ts "?" with
      | true =>
        have hlt := length_drop_one_lt hmark (by decide)
        rw [skipTypeSuffixes, if_pos hmark] at h
        exact .repeat_again (reads_typeSuffix_mark hmark) (ih h (by omega) (by omega))
      | false =>
        cases hrank : skipEmptyRank? ts with
        | none =>
          rw [skipTypeSuffixes, if_neg (Bool.eq_false_iff.1 hmark), hrank] at h
          cases h
          exact .repeat_stop (reads_typeSuffix_none hmark hrank)
        | some next =>
          have hlt := length_skipEmptyRank? hrank
          obtain ⟨k, rfl⟩ : ∃ k', k = k' + 1 := ⟨k - 1, by omega⟩
          -- The first rank is read by itself, so that fewer tokens are left behind all of them.
          obtain ⟨j, mid, hmid, hle, hothers⟩ := reads_emptyRanks (m := k) (k := k + 1)
            (skipTypeSuffixes_rank hrank h) (by omega) (by omega)
          have hranks := (reads_emptyRank (n := k + 1) hrank (by omega)).repeat_again hothers
          exact .repeat_again (reads_typeSuffix_ranks hrank hranks) (ih hmid (by omega) (by omega))

/-! ### Types -/

theorem reads_fullType (hg : ReadsTypes k g) (h : skipType (k + 1) ts = .ok (some rest))
    (hk : ts.length < k + 1) : Reads (fullType (k + 1) g) ts true rest := by
  obtain ⟨mid, hmid, hsuffixes⟩ := skipType_cases h
  have hlength := length_of_skipBareType hmid (by omega)
  have hrest : Reads (do repeatUpTo (k + 1) (typeSuffix (k + 1)); return true) mid true rest :=
    (reads_typeSuffixes hsuffixes (by omega) (by omega)).return_true
  apply Reads.ahead.bind
  rcases skipBareType_cases hmid with ⟨hpredefined, rfl⟩ |
    ⟨hpredefined, hname, last, hlast, hqualifiers⟩ | ⟨hpredefined, hname, hopen, hitems⟩
  · apply Reads.ite_pos hpredefined
    have hend := not_startsEnd_of_predefined hpredefined
    exact (Reads.bump hend).node.bind hrest
  · apply Reads.ite_neg (Bool.eq_false_iff.1 hpredefined)
    apply Reads.ite_pos hname
    exact (reads_dottedName hg hname hlast hqualifiers (by omega)).discard.bind hrest
  · have htuple : startsTupleType (k + 1) ts = .ok true := by
      rw [startsTupleType, if_pos hopen, hitems]
      rfl
    apply Reads.of_spelled
    intro hs
    have hend := hs.not_startsEnd hopen (by decide)
    apply Reads.ite_neg (Bool.eq_false_iff.1 hpredefined)
    apply Reads.ite_neg (Bool.eq_false_iff.1 hname)
    apply (Reads.look htuple).bind
    apply Reads.ite_pos rfl
    exact (reads_tupleType hg hend hitems (by omega) (Nat.le_refl _)).bind hrest

/-- At every depth of nesting the phrase for a type reads what is followed as a type. -/
theorem readsTypes_phrases (k : Nat) : ReadsTypes k (phrases k) := by
  induction k with
  | zero => exact fun ts rest hk _ => absurd hk (Nat.not_lt_zero _)
  | succ k ih => exact fun ts rest hk h => reads_fullType ih h hk

/-- Where no type is followed, the phrase for a type leaves everything as it is. -/
theorem phrases_type_none {b : Builder} (h : skipType k b.ahead = .ok none) :
    phrases k .type b = .ok (false, b) := by
  cases k with
  | zero => cases h
  | succ k =>
    obtain ⟨hpredefined, hname, htuple⟩ := skipType_none_cases h
    change (if startsPredefined b.ahead then _ else if startsIdentifier b.ahead then _ else
      look (startsTupleType (k + 1)) >>= _ : Parse Bool) b = _
    rw [hpredefined, hname]
    change ((startsTupleType (k + 1) b.ahead).map fun a => (a, b)) >>= _ = _
    rw [htuple]
    rfl

/-! ### The same bound for both -/

/-- Inside type arguments a bound less by one is enough. -/
theorem skipTypeArguments_succ (hend : startsEnd ts = false) (hk : ts.length ≤ k)
    (h : skipTypeArguments (k + 1) ts = .ok (some rest)) :
    skipTypeArgumentsWith (skipType k) (k + 1) ts = .ok (some rest) := by
  obtain ⟨found, hfound, -⟩ := settles_skipTypeArgumentsWith (n := k + 1)
    (followsInside_skipType hk) (length_drop_one_lt_of_more hend) (by omega)
  have hlarger : skipTypeArguments (k + 1) ts = .ok found :=
    carries_skipTypeArgumentsWith (fun us => carries_skipType (Nat.le_succ k)) (Nat.le_refl _)
      found hfound
  rw [hfound, ← hlarger, h]

theorem skipTuple_succ (hend : startsEnd ts = false) (hk : ts.length ≤ k)
    (h : skipTuple (k + 1) ts = .ok (some rest)) :
    skipTupleItems (skipType k) (k + 1) 0 (ts.drop 1) = .ok (some rest) := by
  have hlt := length_drop_one_lt_of_more hend
  obtain ⟨found, hfound, -⟩ : Answers (skipTupleItems (skipType k) (k + 1) 0 (ts.drop 1)) :=
    (settles_skipTupleItems 0 (fun us hus => settles_skipType (by omega)) (by omega)).imp
      fun _ _ => trivial
  have hlarger : skipTuple (k + 1) ts = .ok found :=
    carries_skipTupleItems (fun us => carries_skipType (Nat.le_succ k)) 0 (Nat.le_refl _)
      found hfound
  rw [hfound, ← hlarger, h]

/-- In front of any tokens of a file, with a bound above their number, it is known whether a type can be
followed, and the phrase for a type finds one exactly then. If so it places one node, stops at the same
token and notes no problem; if not, nothing changes. Type arguments and tuple types that can be followed
are read up to the same token as well, and no problem is noted. -/
theorem types_read_as_followed {source : String} {tokens : List Token}
    (h : Lexer.tokenize source = .ok tokens) (n : Nat) (b : Builder) (hb : b.ahead <:+ tokens)
    (hn : b.ahead.length ≤ n) :
    (∃ found b', skipType (n + 1) b.ahead = .ok found ∧
      phrases (n + 1) .type b = .ok (found.isSome, b') ∧ (found = none → b' = b) ∧
      ∀ rest, found = some rest → b'.ahead = rest ∧ b'.errors = b.errors ∧
        ∃ t, b'.parts = b.parts.push t) ∧
    (∀ rest, skipTypeArguments (n + 1) b.ahead = .ok (some rest) →
      ∃ b', typeArgumentList (n + 1) (phrases n) b = .ok ((), b') ∧ b'.ahead = rest ∧
        b'.errors = b.errors) ∧
    ∀ rest, skipTuple (n + 1) b.ahead = .ok (some rest) →
      ∃ b', tupleType (n + 1) (phrases n) b = .ok ((), b') ∧ b'.ahead = rest ∧
        b'.errors = b.errors := by
  have hspelled : Spelled b.ahead := (spelled_of_tokenize h).of_suffix hb
  refine ⟨?_, ?_, ?_⟩
  · obtain ⟨found, hfound, -⟩ : Settles (skipType (n + 1) b.ahead) (Leaves b.ahead.length) :=
      settles_skipType (by omega)
    cases found with
    | none => exact ⟨none, b, hfound, phrases_type_none hfound, fun _ => rfl, nofun⟩
    | some rest =>
      obtain ⟨b', hrun, hahead, herrors⟩ :=
        (readsTypes_phrases (n + 1) b.ahead rest (by omega) hfound hspelled).2 b rfl
      refine ⟨some rest, b', hfound, hrun, nofun, ?_⟩
      rintro _ ⟨⟩
      have hne : b.ahead ≠ [] := by
        intro hnil
        have hend := not_startsEnd_of_skipType hspelled hfound
        rw [hnil] at hend
        cases hend
      have hended : Readable b := ((legible_of_tokenize h).of_suffix hb hne).ended
      obtain ⟨new, hgrown, t, rfl, -⟩ := (sound_phrases (n + 1)).type b hended true b' hrun
      refine ⟨hahead, herrors, t, ?_⟩
      rw [← Array.toList_inj, hgrown.parts, Array.toList_push]
  · intro rest hrest
    have hend := not_startsEnd_of_skipTypeArguments hspelled hrest
    have hread := reads_typeArgumentList (m := n + 1) (readsTypes_phrases n)
      (skipTypeArguments_succ hend hn hrest) hend hn (by omega)
    exact (hread hspelled).2 b rfl
  · intro rest hrest
    have hend := not_startsEnd_of_skipTuple hspelled hrest
    have hread := reads_tupleType (readsTypes_phrases n) hend (skipTuple_succ hend hn hrest) hn
      (Nat.le_refl _)
    exact (hread hspelled).2 b rfl

/-- A tuple with a name in it and type arguments of type arguments, with ranks and question marks behind
it, in front of a name. -/
theorem types_read_as_followed_tuple :
    ∃ tokens b b' rest, Lexer.tokenize "(int a,B.C<D[,][]?,E<,>>)?[]x" = .ok tokens ∧
      b.ahead = tokens ∧ b.ahead.length ≤ 40 ∧ skipType 41 b.ahead = .ok (some rest) ∧
      rest.map Token.text = ["x", ""] ∧ phrases 41 .type b = .ok (true, b') ∧ b'.ahead = rest ∧
      b'.errors = b.errors := by
  have hseen : (Lexer.tokenize "(int a,B.C<D[,][]?,E<,>>)?[]x").toOption.map (fun ts =>
      (decide (ts.length ≤ 40), (skipType 41 ts).toOption.bind fun found =>
        found.map (List.map Token.text))) = some (true, some ["x", ""]) := by
    rw [Lexer.tokenize_ofList]
    decide +kernel
  obtain ⟨tokens, htokens, hseen⟩ := Option.map_eq_some_iff.1 hseen
  have h := eq_ok_of_toOption htokens
  rw [Prod.mk.injEq, decide_eq_true_eq] at hseen
  obtain ⟨hn, htexts⟩ := hseen
  obtain ⟨⟨found, b', hfound, hrun, -, hsome⟩, -, -⟩ :=
    types_read_as_followed h 40 { ahead := tokens } List.suffix_rfl hn
  rw [show skipType 41 tokens = .ok found from hfound] at htexts
  cases found with
  | none => cases htexts
  | some rest =>
    obtain ⟨hahead, herrors, -⟩ := hsome rest rfl
    exact ⟨tokens, { ahead := tokens }, b', rest, h, rfl, hn, hfound, Option.some.inj htexts, hrun,
      hahead, herrors⟩

end PluginLint.Grammar
