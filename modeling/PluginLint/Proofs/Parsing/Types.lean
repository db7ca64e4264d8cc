import PluginLint.Grammar.Types
import PluginLint.Proofs.Parsing.Steps

/-!
# Parsing types

A type is one node, or nothing at all is placed. What is known of the phrases inside a phrase is
gathered in `Sound`; it is an assumption here and is proved when the phrases are tied together.
-/
namespace PluginLint.Grammar

/-- The phrases inside a phrase do what the parser around them relies on. -/
structure Sound (g : Phrases) : Prop where
  type : ∀ b, Yields (g .type) b (Tried NodeKind.IsInner b)
  expression : ∀ b, Yields (g .expression) b (Tried NodeKind.IsInner b)
  unary : ∀ b, Yields (g .unary) b (Tried NodeKind.IsInner b)
  binary : ∀ least b, Yields (g (.binary least)) b (Tried NodeKind.IsInner b)
  statement : ∀ b, Yields (g .statement) b (Tried NodeKind.IsStatement b)
  initializer : ∀ b, More b → Yields (g .initializer) b Anything
  block : ∀ b, startsText b.ahead "\x7b" = true → Yields (g .block) b Anything
  member : ∀ b, More b → Yields (g .member) b Anything
  namespaceBody : ∀ braced, Steady (g (.namespaceBody braced))

variable {n : Nat} {g : Phrases} {b : Builder}

theorem yields_expectType {p : Parse Bool} (hp : Yields p b (Tried NodeKind.IsInner b)) :
    Yields (expectType p) b (Required fun x => x.HasKind NodeKind.IsInner) :=
  yields_orReport hp

theorem yields_expectExpression (hg : Sound g) :
    Yields (expectExpression g) b (Required fun x => x.HasKind NodeKind.IsInner) :=
  yields_orReport (hg.expression b)

theorem steady_expectExpression (hg : Sound g) : Steady (expectExpression g) :=
  fun _ => (yields_expectExpression hg).anything

/-- A block, if there is a brace, and otherwise something else. -/
theorem steady_blockOr {rest : Parse Unit} (hg : Sound g) (hrest : Steady rest) :
    Steady (do if ← atText "\x7b" then discard (g .block) else rest) :=
  fun b => .atText_bind (by decide) (fun _ hs => (hg.block b hs).discard.anything) fun _ => hrest b

theorem yields_typeArgumentList (hg : Sound g) (hb : More b) :
    Yields (typeArgumentList n g) b (One NodeKind.IsInner) := by
  refine yields_node rfl rfl (yields_bump_then hb.fresh (steady_repeatUpTo ?_ n))
  refine (steady_eat _).bind fun _ => .ite (.pure _) ?_
  refine (steady_eat _).bind fun _ => .ite (.pure _) ?_
  exact steady_orReport fun b => (hg.type b).anything

/-- An identifier, with or without type arguments. -/
theorem yields_nameNode (hg : Sound g) (hb : More b) {c : Prop} [Decidable c]
    (hc : c → textAt b.ahead 1 = "<") :
    Yields (if c then node .genericName (bump >>= fun _ => typeArgumentList n g)
      else node .identifierName bump) b (One NodeKind.IsInner) := by
  refine .ite (fun h => yields_node rfl rfl ?_) fun _ => yields_node_of rfl ?_
  rotate_left
  · refine (yields_bump hb.fresh).imp fun _ _ _ _ ⟨t, _, hnew⟩ => ?_
    rw [hnew]
    exact ⟨.of_name t, fun _ => .of_name⟩
  refine .bump_something hb.fresh fun b' t ht => .of_readable fun hb' => ?_
  have hnext : textAt b'.ahead 0 = "<" := by
    have := hc h
    rwa [ht] at this
  exact (yields_typeArgumentList hg (more_of_textAt_ne hb' (by rw [hnext]; decide))).anything

theorem textAt_of_startsGenericType {ts : List Token} (h : startsGenericType n ts = .ok true) :
    textAt ts 1 = "<" := by
  unfold startsGenericType at h
  split at h
  · rename_i hopening
    simpa using hopening
  · cases h

theorem yields_simpleTypeName (hg : Sound g) (hb : More b) :
    Yields (simpleTypeName n g) b (One NodeKind.IsInner) :=
  .look_bind fun _ h => yields_nameNode hg hb fun hgeneric =>
    textAt_of_startsGenericType (hgeneric ▸ h)

/-- Further segments of a dotted name go around those before. -/
theorem rewraps_qualifiers (hg : Sound g) :
    Rewraps NodeKind.IsInner NodeKind.IsInner (fun _ => True) (repeatUpTo n do
      if startsQualifier (← ahead) then
        wrapLast .qualifiedName do
          bump
          simpleTypeName n g
        return true
      return false) b := by
  refine Rewraps.repeatUpTo (R := fun _ => True) (fun b => .ahead_bind (.ite (fun h => ?_) ?_)) n b
  · refine .wrapLast_return trivial rfl rfl fun b' hb' => .of_readable fun hr => ?_
    simp only [startsQualifier, Bool.and_eq_true, Bool.or_eq_true, ← hb'] at h
    have hm : More b' := by
      rcases h.1 with h | h
      · exact more_of_startsText hr h (by decide)
      · exact more_of_startsText hr h (by decide)
    refine .anything (.bump_something hm fun b'' t ht => ?_)
    have hid : startsIdentifier b''.ahead = true := by
      have := h.2
      rwa [ht] at this
    exact (yields_simpleTypeName hg (more_of_startsIdentifier hid)).anything
  · exact fun _ => .pure trivial

theorem yields_dottedName_of_identifier (hg : Sound g) (hb : startsIdentifier b.ahead = true) :
    Yields (dottedName n g) b fun found _ new =>
      found = true ∧ ∃ x, new = [x] ∧ x.HasKind NodeKind.IsInner := by
  refine .atIdentifier_bind (fun hm _ => ?_) fun h => by simp [hb] at h
  refine (yields_simpleTypeName hg hm).rewrap fun _ b' => ?_
  exact (rewraps_qualifiers hg).bind fun _ _ _ => .pure rfl

theorem yields_dottedName (hg : Sound g) :
    Yields (dottedName n g) b (Tried NodeKind.IsInner b) := by
  by_cases hb : startsIdentifier b.ahead = true
  · refine (yields_dottedName_of_identifier hg hb).imp fun found _ new _ h => ?_
    obtain ⟨rfl, hx⟩ := h
    exact hx
  · exact .atIdentifier_bind (fun _ h => absurd h hb) fun _ => .tried_none

theorem yields_tupleType (hg : Sound g) (hb : More b) :
    Yields (tupleType n g) b (One NodeKind.IsInner) := by
  refine yields_node rfl rfl (yields_bump_then hb.fresh ?_)
  refine (steady_commaSeparated ?_ n).bind fun _ => (steady_expect _).discard
  refine Steady.bind (fun b => (yields_expectType (hg.type b)).anything) fun _ => .ite ?_ (.pure _)
  exact fun b => .atIdentifier_bind (fun _ _ => steady_bump.bind (fun _ => .pure true) b)
    fun _ => .pure trivial

theorem more_of_skipEmptyRank? (hb : Readable b) (h : (skipEmptyRank? b.ahead).isSome = true) :
    More b := by
  unfold skipEmptyRank? at h
  split at h
  · exact more_of_startsText hb ‹_› (by decide)
  · cases h

theorem steady_emptyRank : Steady (emptyRank n) := by
  refine fun b => .ahead_bind (.ite (fun h => .of_readable fun hb => ?_) fun _ => .pure trivial)
  have hm : More b := more_of_skipEmptyRank? hb h
  have hnode : Yields (node .arrayRankSpecifier do bump; bumpWhile n ","; bump) b
      (One NodeKind.IsInner) :=
    yields_node rfl rfl
      (yields_bump_then hm.fresh ((steady_bumpWhile n _).bind fun _ => steady_bump))
  exact hnode.anything.gives fun _ _ => .pure trivial

/-- A question mark and empty ranks go around the type in front of them. -/
theorem rewraps_typeSuffixes {nullable arrays : Bool} :
    Rewraps NodeKind.IsInner NodeKind.IsInner (· = true) (do
      repeatUpTo n do
        if nullable && (← atText "?") then
          wrapLast .nullableType bump
          return true
        if arrays && (skipEmptyRank? (← ahead)).isSome then
          wrapLast .arrayType (repeatUpTo n (emptyRank n))
          return true
        return false
      return true) b := by
  refine Rewraps.bind (R := fun _ => True) ?_ fun _ _ _ => .pure rfl
  refine Rewraps.repeatUpTo (R := fun _ => True) (fun b => ?_) n b
  refine (Rewraps.atText _).bind fun _ b _ => ?_
  refine .ite (fun _ => .wrapLast_return trivial rfl rfl fun b' _ => steady_bump b') fun _ => ?_
  refine .ahead_bind (.ite (fun _ => ?_) fun _ => .pure trivial)
  exact .wrapLast_return trivial rfl rfl fun b' _ => steady_repeatUpTo steady_emptyRank n b'

/-- The next tokens are those of a type. -/
def StartsType (n : Nat) (ts : List Token) : Prop :=
  startsPredefined ts = true ∨ startsIdentifier ts = true ∨
    startsTupleType n ts = .ok true

theorem startsText_of_startsTupleType {ts : List Token} (h : startsTupleType n ts = .ok true) :
    startsText ts "(" = true := by
  unfold startsTupleType at h
  split at h
  · cases h
  · split at h
    · rename_i hopening
      exact hopening
    · cases h

theorem yields_typePhrase_of (hg : Sound g) (nullable arrays : Bool) (h : StartsType n b.ahead) :
    Yields (typePhrase n g nullable arrays) b fun found _ new =>
      found = true ∧ ∃ x, new = [x] ∧ x.HasKind NodeKind.IsInner := by
  refine .ahead_bind (.ite (fun hp => ?_) fun hp => .ite (fun hi => ?_) fun hi =>
    .look_bind fun tuple htuple => .ite (fun ht => ?_) fun ht => ?_)
  · have hb : More b := by
      simp only [startsPredefined, Bool.and_eq_true, beq_iff_eq] at hp
      exact more_of_kindAt (by simp [hp.1])
    have hnode : Yields (node .predefinedType bump) b (One NodeKind.IsInner) :=
      yields_node rfl rfl (yields_bump hb.fresh).took_something
    exact hnode.rewrap fun _ _ => rewraps_typeSuffixes
  · have hname : Yields (discard (dottedName n g)) b (One NodeKind.IsInner) :=
      (yields_dottedName_of_identifier hg hi).discard.imp fun _ _ _ _ ⟨_, _, hx⟩ => hx
    exact hname.rewrap fun _ _ => rewraps_typeSuffixes
  · refine .of_readable fun hb => ?_
    have hstart : startsText b.ahead "(" = true := startsText_of_startsTupleType (ht ▸ htuple)
    have hm : More b := more_of_startsText hb hstart (by decide)
    exact (yields_tupleType hg hm).rewrap fun _ _ => rewraps_typeSuffixes
  · rcases h with h | h | h
    · exact absurd h hp
    · exact absurd h hi
    · rw [h] at htuple
      exact absurd (Except.ok.inj htuple).symm ht

theorem yields_typePhrase (hg : Sound g) (nullable arrays : Bool) :
    Yields (typePhrase n g nullable arrays) b (Tried NodeKind.IsInner b) := by
  by_cases h : StartsType n b.ahead
  · refine (yields_typePhrase_of hg nullable arrays h).imp fun found _ new _ hx => ?_
    obtain ⟨rfl, hx⟩ := hx
    exact hx
  · simp only [StartsType, not_or] at h
    obtain ⟨hp, hi, ht⟩ := h
    refine .ahead_bind (.ite (fun h => absurd h hp) fun _ => .ite (fun h => absurd h hi) fun _ =>
      .look_bind fun tuple htuple => .ite (fun h => ?_) fun _ => .tried_none)
    exact absurd (h ▸ htuple) ht

/-- What is followed as a type is one. -/
theorem startsType_of_skipType {ts rest : List Token} (h : skipType n ts = .ok (some rest)) :
    StartsType n ts := by
  cases n with
  | zero => cases h
  | succ n =>
    have hbare : ∃ rest', skipBareType (skipType n) (n + 1) ts = .ok (some rest') := by
      simp only [skipType, skipTypeWith] at h
      cases hb : skipBareType (skipType n) (n + 1) ts with
      | error e => simp [hb, bind, Except.bind] at h
      | ok found =>
        cases found with
        | none => simp [hb, bind, Except.bind, pure, Except.pure] at h
        | some rest' => exact ⟨rest', rfl⟩
    obtain ⟨rest', hbare⟩ := hbare
    simp only [skipBareType] at hbare
    split_ifs at hbare with hp hi ht
    · exact .inl hp
    · exact .inr (.inl hi)
    · refine .inr (.inr ?_)
      rw [startsTupleType, if_pos ht, hbare]
      rfl
    · cases hbare

theorem yields_fullType (hg : Sound g) :
    Yields (fullType n g) b (Tried NodeKind.IsInner b) := yields_typePhrase hg true true

theorem steady_expectType (hg : Sound g) (nullable arrays : Bool) :
    Steady (expectType (typePhrase n g nullable arrays)) :=
  fun _ => (yields_expectType (yields_typePhrase hg nullable arrays)).anything

end PluginLint.Grammar
