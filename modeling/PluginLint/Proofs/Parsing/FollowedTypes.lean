import PluginLint.Proofs.Parsing.Readings

/-!
# What is followed as a type

A larger bound does not change what is followed, and what was followed to its end was followed in each
of its steps. A type begins with a word or a parenthesis and takes up at least one token.
-/
namespace PluginLint.Grammar

/-! ### The bound does not matter -/

/-- What the first computation gives, the second gives too. -/
def Carries (x y : Except Panic α) : Prop := ∀ a, x = .ok a → y = .ok a

namespace Carries

variable {x y : Except Panic α}

theorem refl : Carries x x := fun _ h => h

theorem error {e : Panic} : Carries (.error e) y := fun _ h => by cases h

theorem bind {f g : α → Except Panic β} (h : Carries x y) (hf : ∀ a, Carries (f a) (g a)) :
    Carries (x >>= f) (y >>= g) := by
  intro c hc
  cases x with
  | error e => cases hc
  | ok a =>
    rw [h a rfl]
    exact hf a c hc

theorem ite {x' y' : Except Panic α} {c : Prop} [Decidable c] (h : Carries x y)
    (h' : Carries x' y') : Carries (if c then x else x') (if c then y else y') := by
  split
  · exact h
  · exact h'

end Carries

section bounds

variable {type type' : Skip} {n m : Nat} {ts : List Token}

theorem exists_succ_of_le (h : n + 1 ≤ m) : ∃ k, m = k + 1 ∧ n ≤ k :=
  ⟨m - 1, by omega, by omega⟩

theorem carries_skipTypeSuffixes (h : n ≤ m) :
    Carries (skipTypeSuffixes n ts) (skipTypeSuffixes m ts) := by
  induction n generalizing m ts with
  | zero => exact .error
  | succ n ih =>
    obtain ⟨m, rfl, hle⟩ := exists_succ_of_le h
    rw [skipTypeSuffixes, skipTypeSuffixes]
    refine .ite (ih hle) ?_
    split
    · exact ih hle
    · exact .refl

variable (htype : ∀ us, Carries (type us) (type' us))

include htype

theorem carries_skipTypeItems (h : n ≤ m) :
    Carries (skipTypeItems type n ts) (skipTypeItems type' m ts) := by
  induction n generalizing m ts with
  | zero => exact .error
  | succ n ih =>
    obtain ⟨m, rfl, hle⟩ := exists_succ_of_le h
    rw [skipTypeItems, skipTypeItems]
    refine (htype ts).bind fun found => ?_
    cases found with
    | none => exact .refl
    | some rest => exact .ite (ih hle) .refl

theorem carries_skipTypeArgumentsWith (h : n ≤ m) :
    Carries (skipTypeArgumentsWith type n ts) (skipTypeArgumentsWith type' m ts) :=
  .ite .refl (carries_skipTypeItems htype h)

theorem carries_skipSegment (h : n ≤ m) :
    Carries (skipSegment type n ts) (skipSegment type' m ts) :=
  .ite ((carries_skipTypeArgumentsWith htype h).bind fun _ => .refl) .refl

theorem carries_skipSegments (h : n ≤ m) :
    Carries (skipSegments type n ts) (skipSegments type' m ts) := by
  induction n generalizing m ts with
  | zero => exact .error
  | succ n ih =>
    obtain ⟨m, rfl, hle⟩ := exists_succ_of_le h
    rw [skipSegments, skipSegments]
    exact .ite ((carries_skipSegment htype hle).bind fun _ => ih hle) .refl

theorem carries_skipTupleItems (count : Nat) (h : n ≤ m) :
    Carries (skipTupleItems type n count ts) (skipTupleItems type' m count ts) := by
  induction n generalizing m count ts with
  | zero => exact .error
  | succ n ih =>
    obtain ⟨m, rfl, hle⟩ := exists_succ_of_le h
    rw [skipTupleItems, skipTupleItems]
    refine (htype ts).bind fun found => ?_
    cases found with
    | none => exact .refl
    | some rest => exact .ite (ih _ hle) .refl

theorem carries_skipTypeWith (h : n ≤ m) :
    Carries (skipTypeWith type n ts) (skipTypeWith type' m ts) := by
  have hbare : Carries (skipBareType type n ts) (skipBareType type' m ts) :=
    .ite .refl (.ite ((carries_skipSegment htype h).bind fun _ =>
      (carries_skipSegments htype h).bind fun _ => .refl)
        (.ite (carries_skipTupleItems htype 0 h) .refl))
  refine hbare.bind fun found => ?_
  cases found with
  | none => exact .refl
  | some rest => exact (carries_skipTypeSuffixes h).bind fun _ => .refl

omit htype

/-- What is followed as a type with one bound is followed with any larger one. -/
theorem carries_skipType (h : n ≤ m) : Carries (skipType n ts) (skipType m ts) := by
  induction n generalizing m ts with
  | zero => exact .error
  | succ n ih =>
    obtain ⟨m, rfl, hle⟩ := exists_succ_of_le h
    exact carries_skipTypeWith (fun us => ih hle) h

end bounds

/-! ### What is followed -/

section followed

variable {type : Skip} {n k : Nat} {ts mid rest : List Token}

theorem Settles.of_eq {x : Except Panic α} {P : α → Prop} {a : α} (h : Settles x P)
    (hx : x = .ok a) : P a := by
  obtain ⟨b, hb, hp⟩ := h
  rw [hx, Except.ok.injEq] at hb
  rwa [hb]

theorem exists_ok_of_bind {x : Except Panic α} {f : α → Except Panic β} {c : β}
    (h : x >>= f = .ok c) : ∃ a, x = .ok a ∧ f a = .ok c := by
  cases x with
  | error e => cases h
  | ok a => exact ⟨a, rfl, h⟩

/-- What was followed to its end was followed in each of its steps. -/
theorem exists_of_follow {x : Except Panic (Option (List Token))}
    {f : List Token → Except Panic (Option (List Token))}
    (h : (x >>= fun found => match found with | some rest => f rest | _ => .ok none) =
      .ok (some rest)) : ∃ mid, x = .ok (some mid) ∧ f mid = .ok (some rest) := by
  obtain ⟨found, hx, hf⟩ := exists_ok_of_bind h
  cases found with
  | none => cases hf
  | some mid => exact ⟨mid, hx, hf⟩

theorem skipTypeItems_cases (h : skipTypeItems type (n + 1) ts = .ok (some rest)) :
    ∃ mid, type ts = .ok (some mid) ∧
      (startsText mid "," = true ∧ skipTypeItems type n (mid.drop 1) = .ok (some rest) ∨
        startsText mid "," = false ∧ startsText mid ">" = true ∧ rest = mid.drop 1) := by
  rw [skipTypeItems] at h
  obtain ⟨mid, hmid, h⟩ := exists_of_follow h
  refine ⟨mid, hmid, ?_⟩
  split at h
  · rename_i hcomma
    exact .inl ⟨hcomma, h⟩
  · rename_i hcomma
    split at h
    · rename_i hclose
      cases h
      exact .inr ⟨Bool.eq_false_iff.2 hcomma, hclose, rfl⟩
    · cases h

/-- The tokens behind the name that an element of a tuple may have. -/
def skipName (ts : List Token) : List Token := if startsIdentifier ts then ts.drop 1 else ts

theorem length_skipName_le (ts : List Token) : (skipName ts).length ≤ ts.length := by
  have hle := length_drop_le ts 1
  unfold skipName
  split
  · exact hle
  · exact Nat.le_refl _

theorem skipTupleItems_cases {count : Nat}
    (h : skipTupleItems type (n + 1) count ts = .ok (some rest)) :
    ∃ mid, type ts = .ok (some mid) ∧
      (startsText (skipName mid) "," = true ∧
          skipTupleItems type n (count + 1) ((skipName mid).drop 1) = .ok (some rest) ∨
        startsText (skipName mid) "," = false ∧ startsText (skipName mid) ")" = true ∧
          rest = (skipName mid).drop 1) := by
  rw [skipTupleItems] at h
  obtain ⟨mid, hmid, h⟩ := exists_of_follow h
  refine ⟨mid, hmid, ?_⟩
  change (if startsText (skipName mid) "," then
      skipTupleItems type n (count + 1) ((skipName mid).drop 1)
    else if startsText (skipName mid) ")" && 2 ≤ count + 1 then .ok (some ((skipName mid).drop 1))
    else .ok none) = _ at h
  split at h
  · rename_i hcomma
    exact .inl ⟨hcomma, h⟩
  · rename_i hcomma
    split at h
    · rename_i hclose
      cases h
      exact .inr ⟨Bool.eq_false_iff.2 hcomma, (Bool.and_eq_true_iff.1 hclose).1, rfl⟩
    · cases h

/-- A type begins with a predefined one, a name or a tuple. -/
theorem skipBareType_cases (h : skipBareType type n ts = .ok (some rest)) :
    startsPredefined ts = true ∧ rest = ts.drop 1 ∨
    startsPredefined ts = false ∧ startsIdentifier ts = true ∧
      (∃ mid, skipSegment type n ts = .ok mid ∧ skipSegments type n mid = .ok rest) ∨
    startsPredefined ts = false ∧ startsIdentifier ts = false ∧ startsText ts "(" = true ∧
      skipTupleItems type n 0 (ts.drop 1) = .ok (some rest) := by
  unfold skipBareType at h
  split at h
  · rename_i hpredefined
    cases h
    exact .inl ⟨hpredefined, rfl⟩
  · rename_i hpredefined
    rw [Bool.not_eq_true] at hpredefined
    split at h
    · rename_i hname
      obtain ⟨mid, hmid, h⟩ := exists_ok_of_bind h
      obtain ⟨last, hlast, h⟩ := exists_ok_of_bind h
      cases h
      exact .inr (.inl ⟨hpredefined, hname, mid, hmid, hlast⟩)
    · rename_i hname
      rw [Bool.not_eq_true] at hname
      split at h
      · rename_i hopen
        exact .inr (.inr ⟨hpredefined, hname, hopen, h⟩)
      · cases h

theorem skipType_cases (h : skipType (k + 1) ts = .ok (some rest)) :
    ∃ mid, skipBareType (skipType k) (k + 1) ts = .ok (some mid) ∧
      skipTypeSuffixes (k + 1) mid = .ok rest := by
  rw [skipType, skipTypeWith] at h
  obtain ⟨mid, hmid, h⟩ := exists_of_follow h
  obtain ⟨last, hlast, h⟩ := exists_ok_of_bind h
  cases h
  exact ⟨mid, hmid, hlast⟩

/-- Where no type is followed there is neither a predefined type nor a name nor a tuple. -/
theorem skipType_none_cases (h : skipType (k + 1) ts = .ok none) :
    startsPredefined ts = false ∧ startsIdentifier ts = false ∧
      startsTupleType (k + 1) ts = .ok false := by
  have hbare : skipBareType (skipType k) (k + 1) ts = .ok none := by
    rw [skipType, skipTypeWith] at h
    obtain ⟨found, hfound, h⟩ := exists_ok_of_bind h
    cases found with
    | none => exact hfound
    | some mid =>
      obtain ⟨last, -, h⟩ := exists_ok_of_bind h
      cases h
  unfold skipBareType at hbare
  split at hbare
  · cases hbare
  · rename_i hpredefined
    split at hbare
    · obtain ⟨mid, -, hbare⟩ := exists_ok_of_bind hbare
      obtain ⟨last, -, hbare⟩ := exists_ok_of_bind hbare
      cases hbare
    · rename_i hname
      refine ⟨Bool.eq_false_iff.2 hpredefined, Bool.eq_false_iff.2 hname, ?_⟩
      rw [startsTupleType]
      split at hbare
      · rename_i hopen
        rw [if_pos hopen, hbare]
        rfl
      · rename_i hopen
        rw [if_neg hopen]
        rfl

/-- What can start a type. -/
theorem starts_of_skipType (h : skipType k ts = .ok (some rest)) :
    kindAt ts 0 = .keyword ∨ kindAt ts 0 = .identifier ∨ startsText ts "(" = true := by
  cases k with
  | zero => cases h
  | succ k =>
    obtain ⟨mid, hmid, -⟩ := skipType_cases h
    rcases skipBareType_cases hmid with ⟨hpredefined, -⟩ | ⟨-, hname, -⟩ | ⟨-, -, hopen, -⟩
    · rw [startsPredefined, Bool.and_eq_true, beq_iff_eq] at hpredefined
      exact .inl hpredefined.1
    · exact .inr (.inl (beq_iff_eq.1 hname))
    · exact .inr (.inr hopen)

/-- A type does not begin like what stands between types or behind them. -/
theorem not_startsText_of_skipType (hs : Spelled ts) (h : skipType k ts = .ok (some rest))
    {text : String} (ht : text ∈ [",", ">"]) : startsText ts text = false := by
  have hmark : text ∈ Lexer.listMarks := List.mem_append_right _ ht
  have hne : text ≠ "" ∧ text ≠ "(" := by
    simp only [List.mem_cons, List.not_mem_nil, or_false] at ht
    rcases ht with rfl | rfl <;> decide
  rcases starts_of_skipType h with hkind | hkind | hopen
  · exact hs.not_startsText_of_kind (by rw [hkind]; decide) hmark hne.1
  · exact hs.not_startsText_of_kind (by rw [hkind]; decide) hmark hne.1
  · rw [Bool.eq_false_iff]
    intro htext
    exact hne.2 ((startsText_iff.1 htext).symm.trans (startsText_iff.1 hopen))

theorem not_startsEnd_of_skipType (hs : Spelled ts) (h : skipType k ts = .ok (some rest)) :
    startsEnd ts = false := by
  rcases starts_of_skipType h with hkind | hkind | hopen
  · exact not_startsEnd_of_kind (by rw [hkind]; decide)
  · exact not_startsEnd_of_kind (by rw [hkind]; decide)
  · exact hs.not_startsEnd hopen (by decide)

theorem length_drop_one_lt_of_more (h : startsEnd ts = false) :
    (ts.drop 1).length < ts.length := by
  cases ts with
  | nil => cases h
  | cons t ts => simp

/-- Follows the elements of a tuple type behind the first token. -/
def skipTuple (n : Nat) : Skip := fun ts => skipTupleItems (skipType n) n 0 (ts.drop 1)

/-- Type arguments do not begin with the end of the file. -/
theorem not_startsEnd_of_skipTypeArguments (hs : Spelled ts)
    (h : skipTypeArguments n ts = .ok (some rest)) : startsEnd ts = false := by
  have hinner : Spelled (ts.drop 1) := hs.of_suffix (List.drop_suffix 1 ts)
  apply hs.not_startsEnd_of_drop
  unfold skipTypeArguments skipTypeArgumentsWith at h
  dsimp only at h
  split at h
  · rename_i hmark
    rcases Bool.or_eq_true_iff.1 hmark with hmark | hmark
    · exact hinner.not_startsEnd hmark (by decide)
    · exact hinner.not_startsEnd hmark (by decide)
  · cases n with
    | zero => cases h
    | succ n =>
      obtain ⟨mid, hmid, -⟩ := skipTypeItems_cases h
      exact not_startsEnd_of_skipType hinner hmid

theorem not_startsEnd_of_skipTuple (hs : Spelled ts) (h : skipTuple n ts = .ok (some rest)) :
    startsEnd ts = false := by
  cases n with
  | zero => cases h
  | succ n =>
    obtain ⟨mid, hmid, -⟩ := skipTupleItems_cases h
    apply hs.not_startsEnd_of_drop
    exact not_startsEnd_of_skipType (hs.of_suffix (List.drop_suffix 1 ts)) hmid

theorem length_of_skipBareType (h : skipBareType (skipType k) (k + 1) ts = .ok (some rest))
    (hk : ts.length ≤ k) : rest.length < ts.length := by
  have hinside : FollowsInside (skipType k) ts := followsInside_skipType hk
  rcases skipBareType_cases h with ⟨hpredefined, rfl⟩ | ⟨-, hname, mid, hmid, hrest⟩ |
    ⟨-, -, hopen, hitems⟩
  · exact length_drop_one_lt_of_more (not_startsEnd_of_predefined hpredefined)
  · have hdrop := length_drop_one_lt_of_more (not_startsEnd_of_identifier hname)
    have hfirst := (settles_skipSegment hinside (Nat.le_succ_of_le hk)).of_eq hmid
    have hmidside : FollowsInside (skipType k) mid := hinside.of_le (by omega)
    have hothers := (settles_skipSegments hmidside (show mid.length < k + 1 by omega)).of_eq hrest
    omega
  · have hdrop := length_drop_one_lt hopen (by decide)
    have hitem : ∀ us : List Token, us.length ≤ (ts.drop 1).length →
        Settles (skipType k us) (Leaves us.length) := fun us hus => hinside us (by omega)
    have hfound := (settles_skipTupleItems 0 hitem (by omega)).of_eq hitems rest rfl
    omega

/-- A type takes up at least one token. -/
theorem length_of_skipType (h : skipType k ts = .ok (some rest)) (hk : ts.length < k) :
    rest.length < ts.length := by
  cases k with
  | zero => cases h
  | succ k =>
    obtain ⟨mid, hmid, hsuffixes⟩ := skipType_cases h
    have hlt := length_of_skipBareType hmid (by omega)
    have hsettles : Settles (skipTypeSuffixes (k + 1) mid) (·.length ≤ mid.length) :=
      settles_skipTypeSuffixes (by omega)
    have hle := hsettles.of_eq hsuffixes
    omega

end followed

end PluginLint.Grammar
