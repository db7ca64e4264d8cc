import PluginLint.Grammar.Members
import PluginLint.Proofs.Parsing.Statements

/-!
# Parsing members and type declarations

Members are nodes of kinds of which nothing special is known, so all that matters is that each of
them has parts. A type has at its front only attributes and words.
-/
namespace PluginLint.Grammar

variable {n : Nat} {g : Phrases} {b : Builder}

/-! ### Accessors -/

theorem steady_accessor (hg : Sound g) : Steady (accessor n g) := by
  refine fun b => yields_nodeWhen rfl (((careful_attributeLists n).steady _).bind fun _ b₁ _ _ _ => ?_)
  have hwords : Steady (repeatUpTo n do
      if ["private", "protected", "internal", "readonly"].contains (textAt (← upcoming) 0) then
        bump
        return true
      return false) := by
    refine steady_repeatUpTo (steady_upcoming.bind fun _ => .ite ?_ (.pure _)) n
    exact steady_bump.bind fun _ => .pure _
  refine (hwords b₁).bind fun _ b₂ _ _ _ => .ahead_bind (.ite (fun h => ?_) fun _ => ?_)
  · have hm : More b₂ := more_of_startsIdentifier (Bool.and_eq_true_iff.1 h).1
    refine (yields_bumpKeyword_then hm ((steady_memberBody hg).bind fun _ => .pure true)).imp ?_
    intro _ _ new _ hne _ h
    simp only [List.append_eq_nil_iff] at h
    exact hne h.2.2
  · exact .pure fun h => by cases h

theorem yields_accessorList (hg : Sound g) (hb : More b) :
    Yields (accessorList n g) b (One NodeKind.IsInner) := by
  refine yields_node rfl rfl (yields_bump_then hb.fresh ?_)
  refine (steady_repeatUpTo ?_ n).bind fun _ => (steady_expect _).discard
  refine steady_atEnd.bind fun _ => (steady_atText _).bind fun _ => .ite (.pure _) ?_
  refine (steady_accessor hg).bind fun _ => .ite ?_ (.pure _)
  exact (steady_skipToken _).bind fun _ => .pure _

theorem steady_accessorsOrSemicolon (hg : Sound g) : Steady (accessorsOrSemicolon n g) :=
  .atText_bind (by decide) (fun _ hb => (yields_accessorList hg hb).anything)
    (steady_expect _).discard

theorem steady_accessorsOrArrow (hg : Sound g) : Steady (accessorsOrArrow n g) := by
  have hend : Steady (discard (expect ";")) := (steady_expect _).discard
  refine .atText_bind (by decide) (fun b hb => ?_) ?_
  · exact (yields_arrowClause hg hb).anything.gives fun _ b' => hend b'
  refine (steady_accessorsOrSemicolon hg).bind fun _ => ?_
  refine .atText_bind (by decide) (fun b hb => ?_) (.pure ())
  exact (yields_equalsValueClause hg hb).anything.gives fun _ b' => hend b'

/-! ### Names of members -/

/-- All parts of a node that was opened here become one part. -/
theorem Grown.wrapAll {o b b' : Builder} {new : List Tree} {kind : NodeKind} (h : Grown o b new)
    (ho : o.parts = #[]) (hk : kind.isPlain = true) (hne : new ≠ [])
    (hrun : Grammar.wrapAll kind b = .ok ((), b')) : Grown o b' [.node kind new] := by
  have hparts : b.parts.toList = new := by simpa [ho] using h.parts
  obtain rfl : b' = { b with parts := #[.node kind new] } := by
    rw [← hparts]
    cases hrun
    rfl
  refine ⟨by simp [ho], by simpa using h.moved, by simpa using h.offset, h.errors, ?_, fun he => ?_⟩
  · simpa using ⟨.of_plain hk hne, h.formed⟩
  · simpa using ⟨.of_plain hk, h.complete he⟩

theorem startsIdentifier_of_startsInterfaceSegment {ts : List Token}
    (h : startsInterfaceSegment n ts = .ok true) : startsIdentifier ts = true := by
  unfold startsInterfaceSegment at h
  split at h
  · cases h
  · rename_i hi
    simpa using hi

/-- A further segment takes the parts so far into one node, so at least one part stays. -/
theorem interfaceSegment_keeps (hg : Sound g) {o b b' : Builder} {again : Bool}
    (ho : o.parts = #[]) (hr : Readable o) (h : ∃ new, new ≠ [] ∧ Grown o b new)
    (hrun : (do
      if ← look (startsInterfaceSegment n) then
        simpleTypeName n g
        wrapAll .qualifiedName
        bump
        return true
      return false : Parse Bool) b = .ok (again, b')) : ∃ new, new ≠ [] ∧ Grown o b' new := by
  obtain ⟨new, hne, hgrown⟩ := h
  have hb := hgrown.readable hr
  obtain ⟨found, b₀, hlook, hrun⟩ := exists_of_bind hrun
  have hlook' : Yields (look (startsInterfaceSegment n)) b fun a b' new =>
      startsInterfaceSegment n b.ahead = .ok a ∧ b' = b ∧ new = [] := yields_orPanic _
  obtain ⟨_, -, hfound, rfl, -⟩ := hlook' hb found b₀ hlook
  cases found with
  | false =>
    obtain ⟨-, rfl⟩ := eq_of_pure hrun
    exact ⟨new, hne, hgrown⟩
  | true =>
    have hm : More b₀ := more_of_startsIdentifier (startsIdentifier_of_startsInterfaceSegment hfound)
    obtain ⟨_, b₁, hname, hrun⟩ := exists_of_bind hrun
    obtain ⟨_, b₂, hwrap, hrun⟩ := exists_of_bind hrun
    obtain ⟨_, b₃, hbump, hrun⟩ := exists_of_bind hrun
    obtain ⟨-, rfl⟩ := eq_of_pure hrun
    obtain ⟨new₁, hg₁, -⟩ := yields_simpleTypeName hg hm hb _ b₁ hname
    have hg₂ : Grown o b₂ [.node .qualifiedName (new ++ new₁)] :=
      (hgrown.trans hg₁).wrapAll ho rfl (by simp [hne]) hwrap
    obtain ⟨new₃, hg₃, -⟩ := steady_bump b₂ (hg₂.readable hr) _ b' hbump
    exact ⟨_, by simp, hg₂.trans hg₃⟩

theorem steady_interfaceSpecifier (hg : Sound g) : Steady (interfaceSpecifier n g) := by
  refine fun b => .look_bind fun found hfound => .ite (fun h => ?_) fun _ => .pure trivial
  have hm : More b :=
    more_of_startsIdentifier (startsIdentifier_of_startsInterfaceSegment (h ▸ hfound))
  refine Yields.gives (Yields.anything (Q := One NodeKind.IsInner) ?_) fun _ _ => .pure trivial
  refine yields_node rfl rfl fun hr _ b' hrun => ?_
  obtain ⟨_, b₁, hname, hrun⟩ := exists_of_bind hrun
  obtain ⟨_, b₂, hbump, hrun⟩ := exists_of_bind hrun
  obtain ⟨new₁, hg₁, hne⟩ := (yields_simpleTypeName hg hm.fresh).something hr _ b₁ hname
  obtain ⟨new₂, hg₂, -⟩ := steady_bump b₁ (hg₁.readable hr) _ b₂ hbump
  have hfirst : new₁ ++ new₂ ≠ [] := fun h => hne (List.append_eq_nil_iff.1 h).1
  obtain ⟨new, hne, hg'⟩ := repeatUpTo_keeps (fun _ _ _ => interfaceSegment_keeps hg rfl hr)
    ⟨_, hfirst, hg₁.trans hg₂⟩ hrun
  exact ⟨new, hg', hne⟩

theorem steady_operatorToken : Steady operatorToken := by
  refine steady_atEnd.bind fun _ => .ite (steady_report _) (steady_ahead.bind fun _ => ?_)
  refine .ite (steady_bump.bind fun _ => steady_ahead.bind fun _ => ?_) steady_bump
  exact .ite (steady_bump.bind fun _ => steady_bump) steady_bump

/-! ### Members -/

/-- The kind of a member. -/
def IsMemberKind (kind : NodeKind) : Prop := kind.isPlain = true

theorem goes_fields (hg : Sound g) : Goes (fun _ => True) (fields n g) b :=
  .bind (.wrapLast rfl fun b => steady_declarators hg b) fun _ _ => .steady (steady_expect _).discard

/-- A body, and the kind of the member. -/
theorem goes_memberBody (kind : NodeKind) (hg : Sound g) (hk : IsMemberKind kind) :
    Goes IsMemberKind (memberBody g >>= fun _ => pure kind) b :=
  .steady_bind (steady_memberBody hg) fun _ _ => .pure hk

/-- Parameters, a body, and the kind of the member. -/
theorem goes_parametersAndBody (kind : NodeKind) (hg : Sound g) (hk : IsMemberKind kind) :
    Goes IsMemberKind (do
      expectParameterList n g
      memberBody g
      return kind) b :=
  .steady_bind (steady_expectParameterList hg) fun _ _ => goes_memberBody kind hg hk

theorem goes_constructorRest (hg : Sound g) : Goes IsMemberKind (do
    let ts ← ahead
    if startsText ts ":" && ["base", "this"].contains (textAt ts 1) then
      node .constructorInitializer do
        bump
        bump
        if ← atText "(" then argumentList n g else report "expected `(`"
    memberBody g
    return .constructorDeclaration) b := by
  refine .of_readable fun hr => .ahead_bind (.ite (fun h => ?_) fun _ => goes_memberBody _ hg rfl)
  have hm : More b := more_of_startsText hr (Bool.and_eq_true_iff.1 h).1 (by decide)
  have hnode : Yields (node .constructorInitializer do
      bump
      bump
      if ← atText "(" then argumentList n g else report "expected `(`") b
      (One NodeKind.IsInner) := by
    refine yields_node rfl rfl (yields_bump_then hm.fresh (steady_bump.bind fun _ => ?_))
    exact .atText_bind (by decide) (fun _ hb => (yields_argumentList hg hb).anything)
      (steady_report _)
  exact .yields_bind hnode fun _ _ _ _ => goes_memberBody _ hg rfl

theorem yields_constructor (hg : Sound g) (hb : More b) (hs : textAt b.ahead 1 = "(") :
    Yields (constructor n g) b fun kind _ new => IsMemberKind kind ∧ new ≠ [] := by
  refine .bump_goes hb fun b' t ht => .of_readable fun hr => ?_
  have hb' : More b' := by
    rw [ht] at hs
    exact more_of_startsText hr (startsText_iff.2 hs) (by decide)
  exact .yields_bind (yields_parameterList hg hb') fun _ _ _ _ => goes_constructorRest hg

theorem yields_destructor (hg : Sound g) (hb : More b) :
    Yields (destructor n g) b fun kind _ new => IsMemberKind kind ∧ new ≠ [] :=
  .bump_goes hb fun _ _ _ => .steady_bind steady_expectIdentifier.discard fun _ _ =>
    goes_parametersAndBody _ hg rfl

theorem yields_conversion (hg : Sound g) (hb : More b) :
    Yields (conversion n g) b fun kind _ new => IsMemberKind kind ∧ new ≠ [] := by
  refine .bump_goes hb fun _ _ _ => .steady_bind (steady_expect _).discard fun _ _ => ?_
  refine .steady_bind (steady_eat _).discard fun _ _ => ?_
  refine .steady_bind (steady_expectType hg true true).discard fun _ _ => ?_
  exact goes_parametersAndBody _ hg rfl

theorem yields_event (hg : Sound g) (hb : More b) :
    Yields (event n g) b fun kind _ new => IsMemberKind kind ∧ new ≠ [] := by
  have hkind : ∀ b, Goes IsMemberKind (pure .eventDeclaration : Parse NodeKind) b :=
    fun _ => .pure rfl
  refine .bump_goes hb fun _ _ _ => .steady_bind (steady_expectType hg true true) fun _ b =>
    .ite (fun _ => ?_) fun _ => hkind b
  refine .steady_bind (steady_interfaceSpecifier hg) fun _ b => .ite (fun _ => ?_) fun _ => ?_
  · refine .steady_bind steady_expectIdentifier.discard fun _ _ => ?_
    exact .steady_bind (steady_accessorsOrSemicolon hg) fun _ => hkind
  refine .ahead_bind (.ite (fun h => ?_) fun _ => (goes_fields hg).bind fun _ => hkind)
  obtain ⟨hi, hbrace⟩ := Bool.and_eq_true_iff.1 h
  refine .yields_bind (yields_bump (more_of_startsIdentifier hi)) fun _ b' _ ht => ?_
  obtain ⟨t, ht, -⟩ := ht
  refine .of_readable fun hr => ?_
  have hb' : More b' := by
    rw [ht] at hbrace
    exact more_of_startsText hr hbrace (by decide)
  exact .yields_bind (yields_accessorList hg hb') fun _ _ _ _ => hkind _

theorem goes_operatorRest (hg : Sound g) : Goes IsMemberKind (operatorRest n g) b :=
  .steady_bind steady_bump fun _ _ => .steady_bind (steady_eat _).discard fun _ _ =>
    .steady_bind steady_operatorToken fun _ _ => goes_parametersAndBody _ hg rfl

theorem goes_indexerRest (hg : Sound g) : Goes IsMemberKind (indexerRest n g) b := by
  have hrest : ∀ b, Goes IsMemberKind (do accessorsOrArrow n g; return .indexerDeclaration) b :=
    fun _ => .steady_bind (steady_accessorsOrArrow hg) fun _ _ => .pure rfl
  refine .steady_bind steady_bump fun _ b => .atText_bind (by decide) (fun hb => ?_) ?_
  · exact .yields_bind (yields_parametersTo hg hb rfl rfl) fun _ _ _ _ => hrest _
  · exact .steady_bind (steady_report _) fun _ => hrest

theorem goes_namedRest (hg : Sound g) : Goes IsMemberKind (namedRest n g) b := by
  refine .ahead_bind (.ite (fun _ => ?_) fun _ => .ite (fun _ => ?_) fun _ => ?_)
  · refine .steady_bind steady_optionalTypeParameters fun _ _ => ?_
    refine .steady_bind (steady_expectParameterList hg) fun _ _ => ?_
    exact .steady_bind (steady_constraintClauses hg) fun _ _ => goes_memberBody _ hg rfl
  · exact .steady_bind (steady_accessorsOrArrow hg) fun _ _ => .pure rfl
  · exact .steady_bind (steady_report _) fun _ _ => .pure rfl

theorem goes_typedMember (hg : Sound g) : Goes IsMemberKind (typedMember n g) b := by
  refine .ahead_bind (.ite (fun _ => ?_) fun _ => .ite (fun _ => goes_operatorRest hg) fun _ => ?_)
  · exact (goes_fields hg).bind fun _ _ => .pure rfl
  refine .steady_bind (steady_interfaceSpecifier hg).discard fun _ _ => ?_
  refine .steady_bind (steady_atText _) fun _ _ => .ite (fun _ => goes_indexerRest hg) fun _ => ?_
  refine .steady_bind steady_expectIdentifier fun _ _ => ?_
  exact .ite (fun _ => goes_namedRest hg) fun _ => .pure rfl

/-! ### Types -/

theorem yields_baseList (hg : Sound g) (hb : More b) :
    Yields (baseList n g) b (One NodeKind.IsInner) := by
  refine yields_node rfl rfl (yields_bump_then hb.fresh (steady_commaSeparated (fun b => ?_) n))
  refine (yields_orReport (yields_fullType hg)).found_of_required.found_goes (fun b => ?_) (.pure _)
  refine .bind (R := fun _ => True) (.wrapLast rfl fun b => ?_) fun _ _ => .pure trivial
  exact .atText_bind (by decide) (fun hb _ => (yields_argumentList hg hb).anything) fun _ =>
    .pure trivial

theorem steady_optionalBaseList (hg : Sound g) : Steady (optionalBaseList n g) :=
  .atText_bind (by decide) (fun _ hb => (yields_baseList hg hb).anything) (.pure ())

theorem steady_enumMember (hg : Sound g) : Steady (enumMember n g) := by
  refine fun b => yields_nodeWhen rfl (((careful_attributeLists n).steady _).bind fun _ b₁ _ _ _ => ?_)
  have hvalue : Steady (do
      if ← atText "=" then equalsValueClause n g
      return true) :=
    .atText_bind (by decide) (fun _ hb => (yields_equalsValueClause hg hb).anything.gives
      fun _ _ => .pure trivial) (.pure true)
  refine (yields_expectIdentifier (b := b₁)).bind fun found b₂ new₂ _ hne => ?_
  cases found with
  | true =>
    refine (hvalue b₂).imp fun _ _ new₃ _ _ _ h => ?_
    simp only [List.append_eq_nil_iff] at h
    exact hne rfl h.2.1
  | false => exact .pure fun h => by cases h

/-- The result is the kind of a type, and the first new part is a token. -/
def TypeFrom : NodeKind → Builder → List Tree → Prop :=
  fun kind b' new => kind.isTypeDeclaration = true ∧ Headed kind b' new

theorem yields_enumRest (hg : Sound g) (hb : More b) : Yields (enumRest n g) b TypeFrom := by
  refine (yields_bump hb).took_headed.headed_gives fun _ b₁ => ?_
  refine (steady_expectIdentifier.discard b₁).gives fun _ b₂ => ?_
  refine (steady_optionalBaseList hg b₂).gives fun _ b₃ => (steady_expect _ b₃).gives fun _ b₄ =>
    .ite (fun _ => (steady_repeatUpTo ?_ n b₄).gives fun _ b₅ => ?_) fun _ => .pure rfl
  · refine steady_atEnd.bind fun _ => (steady_atText _).bind fun _ => .ite (.pure _) ?_
    refine (steady_enumMember hg).bind fun _ => .ite (steady_eat _) ?_
    exact (steady_skipToken _).bind fun _ => .pure _
  · exact ((steady_expect _).discard b₅).gives fun _ b₆ =>
      ((steady_eat _).discard b₆).gives fun _ _ => .pure rfl

theorem yields_delegateRest (hg : Sound g) (hb : More b) :
    Yields (delegateRest n g) b fun kind _ new => IsMemberKind kind ∧ new ≠ [] := by
  refine .bump_goes hb fun _ _ _ => .steady_bind (steady_expectType hg true true).discard fun _ _ => ?_
  refine .steady_bind steady_expectIdentifier.discard fun _ _ => ?_
  refine .steady_bind steady_optionalTypeParameters fun _ _ => ?_
  refine .steady_bind (steady_expectParameterList hg) fun _ _ => ?_
  refine .steady_bind (steady_constraintClauses hg) fun _ _ => ?_
  exact .steady_bind (steady_expect _).discard fun _ _ => .pure rfl

theorem steady_typeRest (hg : Sound g) : Steady (typeRest n g) := by
  have hmembers : Steady (do
      if ← eat "\x7b" then
        repeatUpTo n do
          if (← atEnd) || (← atText "\x7d") then return false
          g .member
        discard (expect "\x7d")
        discard (eat ";")
      else discard (expect ";")) := by
    refine (steady_eat _).bind fun _ => .ite ?_ (steady_expect _).discard
    refine (steady_repeatUpTo (fun b => ?_) n).bind fun _ =>
      (steady_expect _).discard.bind fun _ => (steady_eat _).discard
    refine .atEnd_bind ?_ fun hb => ?_
    · exact (steady_atText _ b).gives fun _ _ => .ite (fun _ => .pure trivial) fun h => by simp at h
    · refine .atText_bind (by decide) (fun _ _ => .pure trivial) fun _ => ?_
      exact .ite (fun h => by cases h) fun _ => hg.member b hb
  have hbase : Steady (do
      optionalBaseList n g
      constraintClauses n g
      if ← eat "\x7b" then
        repeatUpTo n do
          if (← atEnd) || (← atText "\x7d") then return false
          g .member
        discard (expect "\x7d")
        discard (eat ";")
      else discard (expect ";")) :=
    (steady_optionalBaseList hg).bind fun _ => (steady_constraintClauses hg).bind fun _ => hmembers
  refine steady_expectIdentifier.discard.bind fun _ => steady_optionalTypeParameters.bind fun _ => ?_
  refine .atText_bind (by decide) (fun b hb => ?_) hbase
  exact (yields_parameterList hg hb).anything.gives fun _ b' => hbase b'

theorem more_of_startsTypeKeyword (h : startsTypeKeyword b.ahead = true) : More b := by
  simp only [startsTypeKeyword] at h
  split_ifs at h with ht
  · exact more_of_kindAt (by rw [beq_iff_eq.1 h]; decide)
  · exact more_of_startsWord (Bool.and_eq_true_iff.1 h).1

theorem gives_typeRest (kind : NodeKind) (hg : Sound g) (hk : kind.isTypeDeclaration = true) :
    Yields (typeRest n g >>= fun _ => pure kind) b
      (Gives fun kind => kind.isTypeDeclaration = true) :=
  (steady_typeRest hg b).gives fun _ _ => .pure hk

/-- The result is the kind of a member, or that of a type that begins with a token here. -/
def Tail : NodeKind → Builder → List Tree → Prop :=
  fun kind b' new => IsMemberKind kind ∨ TypeFrom kind b' new

theorem yields_typeDeclaration (hg : Sound g) (hb : More b) :
    Yields (typeDeclaration n g) b fun kind b' new => Tail kind b' new ∧ new ≠ [] := by
  have htype : ∀ {p : Parse NodeKind}, Yields p b TypeFrom →
      Yields p b fun kind b' new => Tail kind b' new ∧ new ≠ [] := by
    refine fun hp => hp.imp fun _ _ new _ h => ⟨.inr h, ?_⟩
    obtain ⟨-, t, rest, rfl⟩ := h
    exact List.cons_ne_nil (.leaf t) rest
  refine .upcoming_bind ?_
  split
  · exact htype (yields_enumRest hg hb)
  · exact (yields_delegateRest hg hb).imp fun _ _ _ _ h => ⟨.inl h.1, h.2⟩
  · exact htype ((yields_bump hb).took_headed.headed_gives fun _ _ => gives_typeRest _ hg rfl)
  · exact htype ((yields_bump hb).took_headed.headed_gives fun _ _ => gives_typeRest _ hg rfl)
  · exact htype ((yields_bump hb).took_headed.headed_gives fun _ _ => gives_typeRest _ hg rfl)
  · refine htype ((yields_bumpKeyword hb).took_headed.headed_gives fun _ b₁ => ?_)
    refine (steady_eat _ b₁).gives fun _ b₂ => .ite (fun _ => gives_typeRest _ hg rfl) fun _ => ?_
    exact ((steady_eat _).discard b₂).gives fun _ _ => gives_typeRest _ hg rfl

/-- What stands behind attributes and modifiers, if there are any. -/
theorem yields_memberTail (hg : Sound g) : Yields (do
    let ts ← upcoming
    if startsTypeKeyword ts then return ← typeDeclaration n g
    match textAt ts 0 with
    | "event" => event n g
    | "~" => destructor n g
    | "implicit" | "explicit" => conversion n g
    | _ =>
      if startsIdentifier ts && textAt ts 1 == "(" then return ← constructor n g
      if ← fullType n g then return ← typedMember n g
      report "expected member declaration"
      if ← isBlankNode then bump
      return .error) b fun kind b' new =>
        Tail kind b' new ∧ (b.parts = #[] → More b → new ≠ []) := by
  refine .of_readable fun hr => ?_
  have always : ∀ {p : Parse NodeKind}, Yields p b (fun kind _ new => IsMemberKind kind ∧ new ≠ []) →
      Yields p b fun kind b' new => Tail kind b' new ∧ (b.parts = #[] → More b → new ≠ []) :=
    fun h => h.imp fun _ _ _ _ ⟨hk, hne⟩ => ⟨.inl hk, fun _ _ => hne⟩
  refine .upcoming_bind (.ite (fun h => ?_) fun _ => ?_)
  · refine (yields_typeDeclaration hg (more_of_startsTypeKeyword h)).imp fun _ _ _ _ h => ?_
    exact ⟨h.1, fun _ _ => h.2⟩
  have hmore : ∀ text, textAt b.ahead 0 = text → text ≠ "" → More b :=
    fun text h ht => more_of_startsText hr (startsText_iff.2 h) ht
  split
  · exact always (yields_event hg (hmore _ ‹_› (by decide)))
  · exact always (yields_destructor hg (hmore _ ‹_› (by decide)))
  · exact always (yields_conversion hg (hmore _ ‹_› (by decide)))
  · exact always (yields_conversion hg (hmore _ ‹_› (by decide)))
  refine .ite (fun h => ?_) fun _ => ?_
  · obtain ⟨hi, hs⟩ := Bool.and_eq_true_iff.1 h
    exact always (yields_constructor hg (more_of_startsIdentifier hi) (by simpa using hs))
  refine (yields_fullType hg).tried_goes (fun _ => goes_typedMember hg) ?_
    fun _ _ _ hk hne => ⟨.inl hk, fun _ _ => hne⟩
  -- Nothing fits, so one token is set aside, unless something was placed before.
  refine (yields_report _).bind fun _ b₁ _ hgrown h => ?_
  obtain ⟨-, rfl⟩ := h
  refine .isBlankNode_bind (.ite (fun _ => ?_) fun hblank => .pure ⟨.inl rfl, fun hparts => ?_⟩)
  · by_cases hm : More b
    · have hm₁ : More b₁ := by rwa [More, hgrown.ahead_eq]
      exact .bump_bind hm₁ fun _ _ _ => .pure ⟨.inl rfl, by simp⟩
    · exact (steady_bump b₁).bind fun _ _ _ _ _ => .pure ⟨.inl rfl, fun _ h => absurd h hm⟩
  · have hparts₁ : b₁.parts = #[] := by simpa [hparts] using hgrown.parts
    simp [hparts₁] at hblank

/-- Behind attributes and words only, a type that begins with a token is formed as it should be. -/
theorem fits_of_tail {kind : NodeKind} {b' : Builder} {marks new : List Tree}
    (hmarks : ∀ x ∈ marks, IsMark x) (htail : Tail kind b' new) (hne : marks ++ new ≠ []) :
    Fits kind b' (marks ++ new) := by
  rcases htail with hk | ⟨hk, t, rest, rfl⟩
  · exact .of_plain hk hne
  · refine ⟨.of_typeDeclaration hk hne fun first inner hfirst => ?_, fun _ =>
      .of_loose (NodeKind.isLoose_of_isTypeDeclaration hk)⟩
    cases marks with
    | nil => cases hfirst
    | cons x marks =>
      rw [List.cons_append, List.head?_cons, Option.some.injEq] at hfirst
      exact hmarks x (by simp) first inner hfirst

theorem yields_member (hg : Sound g) (hb : More b) : Yields (member n g) b (One fun _ => True) := by
  have hlists := (careful_attributeLists n { b with parts := #[] }).and (each_attributeLists n)
  refine yields_nodeOf (hlists.bind fun _ b₁ new₁ _ h₁ => ?_)
  refine ((careful_words b₁).and each_words).bind fun _ b₂ new₂ _ h₂ =>
    (yields_memberTail hg).imp ?_
  rintro kind b₃ new₃ - ⟨htail, hne⟩
  obtain ⟨hq₁, hmarks₁⟩ := h₁
  obtain ⟨hq₂, hmarks₂⟩ := h₂
  have hmarks : ∀ x ∈ new₁ ++ new₂, IsMark x := fun x hx =>
    (List.mem_append.1 hx).elim (hmarks₁ x) (hmarks₂ x)
  rw [← List.append_assoc]
  refine ⟨trivial, fits_of_tail hmarks htail fun hnil => ?_⟩
  simp only [List.append_eq_nil_iff] at hnil
  obtain ⟨⟨hn₁, hn₂⟩, hn₃⟩ := hnil
  obtain rfl := hq₁ rfl hn₁
  obtain rfl := hq₂ rfl hn₂
  exact hne rfl hb hn₃

end PluginLint.Grammar
