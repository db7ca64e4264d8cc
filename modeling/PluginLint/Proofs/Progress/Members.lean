import PluginLint.Proofs.Parsing.Members
import PluginLint.Proofs.Progress.Statements

/-!
# Members and type declarations do not panic

A member places a token wherever there is one, so the body of a type comes to its end. In front of
what a member is known by there may be attributes and words, and nothing else is placed before.
-/
namespace PluginLint.Grammar

variable {n : Nat} {g : Phrases} {ts : List Token}

/-! ### Accessors -/

theorem runs_accessor (hg : Able n g) (hts : ts.length + 1 < n) :
    Runs (accessor n g) ts (Tries ts) := by
  have hwords : Safe n (repeatUpTo n do
      if ["private", "protected", "internal", "readonly"].contains (textAt (← upcoming) 0) then
        bump
        return true
      return false) := by
    refine safe_repeatUpTo fun us _ => .of_legible fun hl => .upcoming_bind (.ite (fun h => ?_) fun _ =>
      .tries_none)
    have hne : textAt us 0 ≠ "" := fun h0 => by simp [h0] at h
    exact (runs_bump (hl.not_startsEnd (startsText_iff.2 rfl) hne)).return_true
  have hbody : Safe n (memberBody g >>= fun _ => pure true) :=
    (safe_memberBody hg).bind fun _ => .pure true
  refine runs_nodeWhen ((safe_attributeLists ts hts).bind fun _ us hus _ => ?_)
  refine (hwords us (by omega)).bind fun _ vs hvs _ => .ahead_bind (.ite (fun h => ?_) fun _ =>
    .pure fun h => by cases h)
  have hi : startsIdentifier vs = true := (Bool.and_eq_true_iff.1 h).1
  refine (Runs.bumpKeyword_then (n := n) (not_startsEnd_of_identifier hi) (by omega) hbody).imp ?_
  exact fun _ rest _ hlt _ => Nat.lt_of_lt_of_le hlt (by omega)

/-- What is no accessor is set aside. -/
theorem ready_accessorList (hg : Able n g) : Ready n (accessorList n g) := by
  refine ready_node (ready_bump.bind fun _ => (safe_repeatUpTo fun us hus => .unlessEnd fun he =>
    ?_).bind fun _ => (safe_expect _).discard)
  exact runs_orSkip (runs_accessor hg hus) he

theorem safe_accessorsOrSemicolon (hg : Able n g) : Safe n (accessorsOrSemicolon n g) :=
  .ifText (by decide) (ready_accessorList hg) (safe_expect _).discard

theorem safe_accessorsOrArrow (hg : Able n g) : Safe n (accessorsOrArrow n g) := by
  refine .ifText (by decide) ?_ ?_
  · exact (ready_arrowClause hg).bind fun _ => (safe_expect _).discard
  refine (safe_accessorsOrSemicolon hg).bind fun _ => .ifText (by decide) ?_ (.pure _)
  exact (ready_equalsValueClause hg).bind fun _ => (safe_expect _).discard

/-! ### Names of members -/

theorem startsInterfaceSegment_cases (h : startsInterfaceSegment n ts = .ok true) :
    startsIdentifier ts = true ∧
      ((∃ rest, textAt ts 1 = "<" ∧ skipTypeArguments n (ts.drop 1) = .ok (some rest) ∧
          startsText rest "." = true) ∨ textAt ts 1 = ".") := by
  refine ⟨startsIdentifier_of_startsInterfaceSegment h, ?_⟩
  unfold startsInterfaceSegment at h
  split at h
  · cases h
  split at h
  · rename_i hopen
    obtain ⟨found, hfound, h⟩ := exists_ok_of_bind h
    cases found with
    | none => cases h
    | some rest => exact .inl ⟨rest, beq_iff_eq.1 hopen, hfound, Except.ok.inj h⟩
  · exact .inr (beq_iff_eq.1 (Except.ok.inj h))

/-- A segment is read up to the dot that was seen behind it. -/
theorem runs_interfaceSegment (hg : Able n g) (h : startsInterfaceSegment n ts = .ok true)
    (hts : ts.length < n) :
    Runs (simpleTypeName n g) ts fun _ rest =>
      startsText rest "." = true ∧ rest.length < ts.length := by
  obtain ⟨k, rfl⟩ : ∃ k, n = k + 1 := ⟨n - 1, by omega⟩
  obtain ⟨hname, hdot⟩ := startsInterfaceSegment_cases h
  refine .of_legible fun hl => ?_
  have hsegment : ∃ rest, skipSegment (skipType k) (k + 1) ts = .ok rest ∧
      startsText rest "." = true := by
    have hopen : startsText (ts.drop 1) "<" = (textAt ts 1 == "<") := by rw [startsText, textAt_drop]
    unfold skipSegment
    dsimp only
    rw [hopen]
    rcases hdot with ⟨rest, hangle, harguments, hdot⟩ | hdot
    · have hend := hl.not_startsEnd_drop hangle (by decide)
      have hlt := length_drop_one_lt_of_more (not_startsEnd_of_identifier hname)
      rw [if_pos (beq_iff_eq.2 hangle), skipTypeArguments_succ hend (by omega) harguments]
      exact ⟨rest, rfl, hdot⟩
    · rw [if_neg (by rw [hdot]; decide)]
      exact ⟨ts.drop 1, rfl, by rw [startsText, textAt_drop, hdot]; rfl⟩
  obtain ⟨rest, hrest, hdot⟩ := hsegment
  have hreads := reads_simpleTypeName hg.reads hname hrest (Nat.le_refl _) (by omega)
  have hruns := runs_simpleTypeName hg hts (not_startsEnd_of_identifier hname)
  refine (hruns.reading hreads).imp ?_
  rintro _ _ - ⟨-, rfl, hlt⟩
  exact ⟨hdot, hlt⟩

theorem safe_interfaceSpecifier (hg : Able n g) : Safe n (interfaceSpecifier n g) := by
  have hsegments : Safe n (repeatUpTo n do
      if ← look (startsInterfaceSegment n) then
        simpleTypeName n g
        wrapAll .qualifiedName
        bump
        return true
      return false) := by
    refine safe_repeatUpTo fun us hus => .look_bind (answers_startsInterfaceSegment (by omega))
      fun found hfound => .ite (fun h => ?_) fun _ => .tries_none
    refine .tries_of_shorter ((runs_interfaceSegment hg (h ▸ hfound) (by omega)).bind ?_)
    rintro _ rest - ⟨hdot, hlt⟩
    refine runs_wrapAll.bind fun _ rest' _ hrest => .of_legible fun hl => ?_
    subst hrest
    have hafter := (ready_bump (n := n)).bind (fun _ => .pure true) rest' (by omega)
      (hl.not_startsEnd hdot (by decide))
    exact hafter.imp fun _ _ hle _ => Nat.lt_of_le_of_lt hle hlt
  refine fun us hus => .look_bind (answers_startsInterfaceSegment (by omega)) fun found hfound =>
    .ite (fun h => ?_) fun _ => .pure trivial
  have hnode : Runs (node .explicitInterfaceSpecifier do
      simpleTypeName n g
      bump
      repeatUpTo n do
        if ← look (startsInterfaceSegment n) then
          simpleTypeName n g
          wrapAll .qualifiedName
          bump
          return true
        return false) us Any := by
    refine runs_node ((runs_interfaceSegment hg (h ▸ hfound) (by omega)).bind ?_)
    rintro _ rest - ⟨hdot, hlt⟩
    refine .of_legible fun hl => ?_
    exact ready_bump.bind (fun _ => hsegments) rest (by omega) (hl.not_startsEnd hdot (by decide))
  exact hnode.bind fun _ _ _ _ => .pure trivial

/-- Behind each of the angle brackets that touch there is another token of the operator. -/
theorem safe_operatorToken : Safe n operatorToken := by
  have hnext : ∀ {us : List Token} {c : Bool}, Legible us → (c && textAt us 1 == ">") = true →
      startsEnd (us.drop 1) = false := fun hl h =>
    hl.not_startsEnd_drop (beq_iff_eq.1 (Bool.and_eq_true_iff.1 h).2) (by decide)
  have hsecond : Ready n (do
      let ts ← ahead
      if joined ts 0 && textAt ts 1 == ">" then bump
      bump) :=
    fun us hus he => .of_legible fun hl => .ahead_bind (.ite
      (fun h => (Runs.bump_ready (n := n) (hnext hl h) (by omega) ready_bump).any)
      fun _ => (runs_bump he).any)
  refine fun ts hts => .atEnd_bind (runs_report _).any fun he => .of_legible fun hl => .ahead_bind
    (.ite (fun h => ?_) fun _ => (runs_bump he).any)
  exact (Runs.bump_ready (n := n) (hnext hl h) (by omega) hsecond).any

/-! ### Members -/

theorem safe_fields (hg : Able n g) : Safe n (fields n g) :=
  (safe_declareVariables hg).bind fun _ => (safe_expect _).discard

/-- Parameters and a body, and the kind of the member. -/
theorem safe_parametersAndBody (hg : Able n g) (kind : NodeKind) : Safe n (do
    expectParameterList n g
    memberBody g
    return kind) :=
  (safe_expectParameterList hg).bind fun _ => (safe_memberBody hg).bind fun _ => .pure kind

theorem runs_constructor (hg : Able n g) (h : textAt ts 1 = "(") (hts : ts.length < n) :
    Runs (constructor n g) ts (Shorter ts) := by
  have hbody : Safe n (do
      memberBody g
      return NodeKind.constructorDeclaration) := (safe_memberBody hg).bind fun _ => .pure _
  have harguments : Safe n (do
      if ← atText "(" then argumentList n g else report "expected `(`") :=
    .ifText (by decide) (ready_argumentList hg) (safe_report _)
  refine .of_legible fun hl => .bump_ready (hl.not_startsEnd_drop h (by decide)) hts ?_
  refine (ready_parameterList hg).bind fun _ us hus => .of_legible fun hr => .ahead_bind ?_
  refine .ite (fun hcolon => ?_) fun _ => hbody us hus
  have hword : textAt us 1 ≠ "" := by
    intro hblank
    simp [hblank] at hcolon
  have hcall : Runs (do
      bump
      bump
      if ← atText "(" then argumentList n g else report "expected `(`") us (Shorter us) :=
    .bump_ready (hr.not_startsEnd_drop rfl hword) (Nat.lt_of_succ_lt hus)
      (ready_bump.bind fun _ => harguments)
  exact (runs_node hcall).bind fun _ rest _ hlt => hbody rest (Nat.lt_trans (Nat.succ_lt_succ hlt) hus)

theorem runs_destructor (hg : Able n g) (h : startsEnd ts = false) (hts : ts.length < n) :
    Runs (destructor n g) ts (Shorter ts) :=
  .bump_then h hts (safe_expectIdentifier.discard.bind fun _ => safe_parametersAndBody hg _)

theorem runs_conversion (hg : Able n g) (h : startsEnd ts = false) (hts : ts.length < n) :
    Runs (conversion n g) ts (Shorter ts) := by
  refine .bump_then h hts ((safe_expect _).discard.bind fun _ => (safe_eat _).discard.bind fun _ => ?_)
  exact (safe_expectFullType hg).discard.bind fun _ => safe_parametersAndBody hg _

theorem runs_event (hg : Able n g) (h : startsEnd ts = false) (hts : ts.length < n) :
    Runs (event n g) ts (Shorter ts) := by
  refine .bump_then h hts ((safe_expectFullType hg).bind fun _ => .ite ?_ (.pure _))
  refine (safe_interfaceSpecifier hg).bind fun _ => .ite ?_ ?_
  · refine safe_expectIdentifier.discard.bind fun _ => ?_
    exact (safe_accessorsOrSemicolon hg).bind fun _ => .pure _
  · refine fun us hus => .of_legible fun hl => .ahead_bind (.ite (fun h => ?_) fun _ => ?_)
    · have hopen := hl.not_startsEnd_drop (beq_iff_eq.1 (Bool.and_eq_true_iff.1 h).2) (by decide)
      refine (Runs.bump_ready (n := n) hopen (by omega) ?_).any
      exact (ready_accessorList hg).bind fun _ => .pure _
    · exact ((safe_fields hg).bind fun _ => .pure _) us hus

theorem ready_operatorRest (hg : Able n g) : Ready n (operatorRest n g) := by
  refine ready_bump.bind fun _ => (safe_eat _).discard.bind fun _ => ?_
  exact safe_operatorToken.bind fun _ => safe_parametersAndBody hg _

theorem ready_indexerRest (hg : Able n g) : Ready n (indexerRest n g) := by
  have hrest : Safe n (do
      accessorsOrArrow n g
      return NodeKind.indexerDeclaration) := (safe_accessorsOrArrow hg).bind fun _ => .pure _
  refine ready_bump.bind fun _ => .ifText (by decide) ?_ ?_
  · exact (ready_parametersTo hg _ _).bind fun _ => hrest
  · exact (safe_report _).bind fun _ => hrest

theorem safe_namedRest (hg : Able n g) : Safe n (namedRest n g) := by
  refine Safe.ahead.bind fun _ => .ite ?_ (.ite ?_ ?_)
  · refine safe_optionalTypeParameters.bind fun _ => (safe_expectParameterList hg).bind fun _ => ?_
    refine (safe_constraintClauses hg).bind fun _ => ?_
    exact (safe_memberBody hg).bind fun _ => .pure _
  · exact (safe_accessorsOrArrow hg).bind fun _ => .pure _
  · exact (safe_report _).bind fun _ => .pure _

theorem safe_typedMember (hg : Able n g) : Safe n (typedMember n g) := by
  have hnamed : Safe n (do
      discard (interfaceSpecifier n g)
      if ← atText "this" then return ← indexerRest n g
      if ← expectIdentifier then namedRest n g else return .error) := by
    refine (safe_interfaceSpecifier hg).discard.bind fun _ => ?_
    refine .ifText (by decide) (ready_indexerRest hg) (safe_expectIdentifier.bind fun _ => ?_)
    exact .ite (safe_namedRest hg) (.pure _)
  refine fun ts hts => .of_legible fun hl => .ahead_bind (.ite (fun _ => ?_) fun _ =>
    .ite (fun hword => ?_) fun _ => hnamed ts hts)
  · exact ((safe_fields hg).bind fun _ => .pure _) ts hts
  · exact ready_operatorRest hg ts hts (hl.not_startsEnd hword (by decide))

/-! ### Types -/

theorem ready_baseList (hg : Able n g) : Ready n (baseList n g) := by
  refine ready_node (ready_bump.bind fun _ => safe_commaSeparated ?_)
  refine (safe_orReport (safe_fullType hg)).bind fun _ => .ite ?_ (.pure _)
  refine (safe_wrapLast ?_).bind fun _ => .pure _
  exact .ifText (by decide) (ready_argumentList hg) (.pure _)

theorem safe_optionalBaseList (hg : Able n g) : Safe n (optionalBaseList n g) :=
  .ifText (by decide) (ready_baseList hg) (.pure _)

/-- Each enum member is followed by a comma, and what is none is set aside. -/
theorem safe_enumMembers (hg : Able n g) : Safe n (repeatUpTo n do
    if (← atEnd) || (← atText "\x7d") then return false
    if ← enumMember n g then eat ","
    else
      skipToken "expected enum member"
      return true) := by
  have hmember : Safe n (enumMember n g) := by
    refine safe_nodeWhen (safe_attributeLists.bind fun _ => ?_)
    refine safe_expectIdentifier.bind fun _ => .ite (.ifText (by decide) ?_ (.pure _)) (.pure _)
    exact (ready_equalsValueClause hg).bind fun _ => .pure _
  exact safe_repeatUpTo fun us hus => .unlessEnd fun he => runs_commaOrSkip (hmember us hus) he

theorem runs_enumRest (hg : Able n g) (h : startsEnd ts = false) (hts : ts.length < n) :
    Runs (enumRest n g) ts (Shorter ts) := by
  refine .bump_then h hts (safe_expectIdentifier.discard.bind fun _ => ?_)
  refine (safe_optionalBaseList hg).bind fun _ => (safe_expect _).bind fun _ => .ite ?_ (.pure _)
  refine (safe_enumMembers hg).bind fun _ => (safe_expect _).discard.bind fun _ => ?_
  exact (safe_eat _).discard.bind fun _ => .pure _

theorem runs_delegateRest (hg : Able n g) (h : startsEnd ts = false) (hts : ts.length < n) :
    Runs (delegateRest n g) ts (Shorter ts) := by
  refine .bump_then h hts ((safe_expectFullType hg).discard.bind fun _ => ?_)
  refine safe_expectIdentifier.discard.bind fun _ => safe_optionalTypeParameters.bind fun _ => ?_
  refine (safe_expectParameterList hg).bind fun _ => (safe_constraintClauses hg).bind fun _ => ?_
  exact (safe_expect _).discard.bind fun _ => .pure _

/-- Members up to the closing brace, each of which takes a token. -/
theorem safe_typeMembers (hg : Able n g) : Safe n (repeatUpTo n do
    if (← atEnd) || (← atText "\x7d") then return false
    g .member) :=
  safe_repeatUpTo fun us hus => .unlessEnd fun he => .tries_of_shorter (hg.member us hus he)

theorem safe_typeRest (hg : Able n g) : Safe n (typeRest n g) := by
  have hbase : Safe n (do
      optionalBaseList n g
      constraintClauses n g
      if ← eat "\x7b" then
        repeatUpTo n do
          if (← atEnd) || (← atText "\x7d") then return false
          g .member
        discard (expect "\x7d")
        discard (eat ";")
      else discard (expect ";")) := by
    refine (safe_optionalBaseList hg).bind fun _ => (safe_constraintClauses hg).bind fun _ => ?_
    refine (safe_eat _).bind fun _ => .ite ?_ (safe_expect _).discard
    exact (safe_typeMembers hg).bind fun _ => (safe_expect _).discard.bind fun _ => (safe_eat _).discard
  refine safe_expectIdentifier.discard.bind fun _ => safe_optionalTypeParameters.bind fun _ => ?_
  exact .ifText (by decide) ((ready_parameterList hg).bind fun _ => hbase) hbase

theorem runs_typeDeclaration (hg : Able n g) (h : startsEnd ts = false) (hts : ts.length < n) :
    Runs (typeDeclaration n g) ts (Shorter ts) := by
  have htype : ∀ kind : NodeKind, Safe n (typeRest n g >>= fun _ => pure kind) :=
    fun kind => (safe_typeRest hg).bind fun _ => .pure kind
  refine .upcoming_bind ?_
  split
  · exact runs_enumRest hg h hts
  · exact runs_delegateRest hg h hts
  · exact .bump_then h hts (htype _)
  · exact .bump_then h hts (htype _)
  · exact .bump_then h hts (htype _)
  · refine .bumpKeyword_then h hts ((safe_eat _).bind fun _ => .ite (htype _) ?_)
    exact (safe_eat _).discard.bind fun _ => htype _

theorem not_startsEnd_of_modifier (h : startsModifier ts = true) : startsEnd ts = false := by
  refine not_startsEnd_of_kind fun hk => ?_
  rw [startsModifier, hk] at h
  cases h

theorem runs_modifiers (hts : ts.length < n) : Runs (modifiers n) ts Any :=
  runs_words (fun _ => not_startsEnd_of_modifier) hts

/-- What stands behind attributes and words. A token that nothing fits is set aside only if none was
placed before it, and it is known to be there then. -/
theorem runsFrom_memberTail (hg : Able n g) {b : Builder} (hts : b.ahead.length < n)
    (hblank : b.parts = #[] → startsEnd b.ahead = false) : RunsFrom (do
    let ts ← upcoming
    if startsTypeKeyword ts then return ← typeDeclaration n g
    match textAt ts 0 with
    | "event" => event n g
    | "~" => destructor n g
    | "implicit" | "explicit" => conversion n g
    | _ =>
      if startsIdentifier ts && textAt ts 1 == "(" then return ← constructor n g
      if ← fullType n g then return ← typedMember n g
      report "expected member declaration"
      if ← isBlankNode then bump
      return .error) b Any := by
  refine .of_legible fun hl => .bind (Safe.upcoming (n := n + 1) _ (by omega)).from
    yields_upcoming fun ts b' new _ _ hsame => ?_
  obtain ⟨rfl, hsame, -⟩ := hsame
  obtain rfl := hsame.symm
  refine .ite (fun h => ?_) fun _ => ?_
  · exact (runs_typeDeclaration hg (more_of_startsTypeKeyword h) hts).any.from
  have hmore : ∀ text, textAt b.ahead 0 = text → text ≠ "" → startsEnd b.ahead = false :=
    fun text h ht => hl.not_startsEnd (startsText_iff.2 h) ht
  split
  · exact (runs_event hg (hmore _ ‹_› (by decide)) hts).any.from
  · exact (runs_destructor hg (hmore _ ‹_› (by decide)) hts).any.from
  · exact (runs_conversion hg (hmore _ ‹_› (by decide)) hts).any.from
  · exact (runs_conversion hg (hmore _ ‹_› (by decide)) hts).any.from
  refine .ite (fun h => ?_) fun _ => ?_
  · exact (runs_constructor hg (beq_iff_eq.1 (Bool.and_eq_true_iff.1 h).2) hts).any.from
  refine .bind (runs_fullType hg hts).from (yields_fullType hg.sound) fun found b' new _ htype htried =>
    .ite (fun h => ?_) fun h => ?_
  · exact (safe_typedMember hg b'.ahead (Nat.lt_of_le_of_lt (htype h) hts)).from
  -- Nothing fits, and nothing has changed.
  obtain ⟨rfl, -⟩ : b' = b ∧ new = [] := by simpa [Tried, h] using htried
  refine .bind (runs_report _).from (yields_report _) fun _ b₁ _ hgrown hahead hnone => ?_
  obtain ⟨-, rfl⟩ := hnone
  refine .isBlankNode_bind (.ite (fun hempty => ?_) fun _ => (Runs.pure trivial).from)
  have hparts : b₁.parts = b'.parts := Array.toList_inj.1 (by simpa using hgrown.parts)
  have he : startsEnd b₁.ahead = false := by
    rw [hahead]
    exact hblank (by simpa [hparts] using hempty)
  exact ((runs_bump he).bind fun _ _ _ _ => .pure trivial).from

theorem runs_member (hg : Able n g) (h : startsEnd ts = false) (hts : ts.length < n) :
    Runs (member n g) ts (Shorter ts) := by
  have hruns : Runs (member n g) ts Any := by
    refine .of_from fun b hb => .nodeOf ?_
    have hahead : ({ b with parts := #[] } : Builder).ahead = ts := hb
    generalize hb₀ : ({ b with parts := #[] } : Builder) = b₀ at hahead ⊢
    have hblank₀ : b₀.parts = #[] := hb₀ ▸ rfl
    subst hahead
    refine .bind (runs_attributeLists hts).suffix.from (careful_attributeLists n _)
      fun _ b₁ new₁ hgrown₁ hs₁ hquiet₁ => ?_
    have hlt₁ : b₁.ahead.length < n := Nat.lt_of_le_of_lt hs₁.1.length_le hts
    refine .bind (runs_modifiers hlt₁).suffix.from (careful_words _)
      fun _ b₂ new₂ hgrown₂ hs₂ hquiet₂ => ?_
    refine runsFrom_memberTail hg (Nat.lt_of_le_of_lt hs₂.1.length_le hlt₁) fun hblank => ?_
    -- Without parts no attribute and no word has been placed, so the tokens ahead are the same.
    have hnone : b₂.parts.toList = [] := by rw [hblank]
    rw [hgrown₂.parts, List.append_eq_nil_iff, Array.toList_eq_nil_iff] at hnone
    obtain rfl := hquiet₂ hnone.1 hnone.2
    have hnone₁ : new₁ = [] := by simpa [hnone.1, hblank₀] using hgrown₁.parts
    obtain rfl := hquiet₁ hblank₀ hnone₁
    exact h
  exact hruns.shorter fun b hb => (yields_member hg.sound (by rwa [More, hb])).something

end PluginLint.Grammar
