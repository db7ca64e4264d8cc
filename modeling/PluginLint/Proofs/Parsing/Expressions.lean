import PluginLint.Grammar.Expressions
import PluginLint.Proofs.Parsing.Lists

/-!
# Parsing expressions

An expression is one node, or nothing at all is placed. What follows an operand goes around it, so
there is one node all along.
-/
namespace PluginLint.Grammar

variable {n : Nat} {g : Phrases} {b : Builder}

/-! ### Operands -/

theorem textAt_of_startsGenericName {ts : List Token} (h : startsGenericName n ts = .ok true) :
    textAt ts 1 = "<" := by
  unfold startsGenericName at h
  split at h
  · rename_i hopening
    simpa using hopening
  · cases h

theorem yields_simpleNameExpression (hg : Sound g) (hb : More b) :
    Yields (simpleNameExpression n g) b (One NodeKind.IsInner) :=
  .look_bind fun _ h => yields_nameNode hg hb fun hgeneric =>
    textAt_of_startsGenericName (hgeneric ▸ h)

theorem yields_anonymousMethod (modifiers : Nat) (hg : Sound g)
    (hb : startsEnd (b.ahead.drop modifiers) = false) :
    Yields (anonymousMethod n g modifiers) b (One NodeKind.IsInner) := by
  refine yields_node rfl rfl (yields_bumpKeywords_then hb fun b' _ hm => yields_bump_then hm ?_)
  have hblock : Steady (do if ← atText "\x7b" then discard (g .block) else report "expected `\x7b`") :=
    steady_blockOr hg (steady_report _)
  refine .atText_bind (by decide) (fun b hb => ?_) hblock
  exact (yields_parameterList hg hb).anything.gives fun _ b' => hblock b'

theorem steady_lambdaBody (hg : Sound g) : Steady (lambdaBody g) := by
  refine (steady_expect _).discard.bind fun _ => ?_
  exact steady_blockOr hg (steady_expectExpression hg).discard

theorem startsText_of_startsLambdaHead {ts : List Token} (h : startsLambdaHead ts = .ok true) :
    startsText ts "(" = true := by
  unfold startsLambdaHead at h
  split at h
  · rename_i hopening
    exact hopening
  · cases h

theorem yields_lambda (hg : Sound g) : Yields (lambda n g) b (Tried NodeKind.IsInner b) := by
  refine .of_readable fun hr => .ahead_bind (.ite (fun h => ?_) fun _ => .orPanic_bind fun _ hhead =>
    .ite (fun h => ?_) fun _ => .ite (fun h => ?_) fun _ => .tried_none)
  · have hm : startsEnd (b.ahead.drop (lambdaModifiers b.ahead)) = false :=
      more_of_startsIdentifier (b := { b with ahead := b.ahead.drop _ }) (Bool.and_eq_true_iff.1 h).1
    refine yields_foundNode rfl rfl (yields_bumpKeywords_then hm fun b' _ hb => ?_)
    have hparameter : Yields (node .parameter bump) b' (One NodeKind.IsInner) :=
      yields_node rfl rfl (yields_bump hb.fresh).took_something
    exact hparameter.something.then_steady fun _ => steady_lambdaBody hg
  · have hm : startsEnd (b.ahead.drop (lambdaModifiers b.ahead)) = false :=
      not_startsEnd_of_startsText hr (startsText_of_startsLambdaHead (h ▸ hhead)) (by decide)
    refine yields_foundNode rfl rfl (yields_bumpKeywords_then hm fun b' _ hb => ?_)
    exact (yields_parameterList hg hb).something.then_steady fun _ => steady_lambdaBody hg
  · have hm : startsEnd (b.ahead.drop (lambdaModifiers b.ahead)) = false :=
      not_startsEnd_of_startsText hr (Bool.and_eq_true_iff.1 h).1 (by decide)
    exact (yields_anonymousMethod _ hg hm).tried_one

theorem yields_creation (hg : Sound g) (hb : More b) :
    Yields (creation n g) b (One NodeKind.IsInner) := by
  have hlast : ∀ {kind : NodeKind} (b : Builder), NodeKind.IsInner kind ∧ kind.isPlain = true →
      Goes (fun kind => NodeKind.IsInner kind ∧ kind.isPlain = true)
        (optionalInitializer n g >>= fun _ => pure kind) b :=
    fun b hk => .steady_bind (steady_optionalInitializer hg) fun _ _ => .pure hk
  refine yields_nodeOf_bump hb fun b => .atText_bind (by decide) (fun hb => ?_) <|
    .atText_bind (by decide) (fun hb => ?_) <| .atText_bind (by decide) (fun hb => ?_) ?_
  · exact .bind (.of_yields (yields_initializer hg hb).anything) fun _ _ => .pure ⟨rfl, rfl⟩
  · exact .bind (.of_yields (yields_argumentList hg hb).anything) fun _ b' => hlast b' ⟨rfl, rfl⟩
  · have hrank : Yields (node .arrayRankSpecifier do
        bump
        bumpWhile n ","
        discard (expect "]")) b (One NodeKind.IsInner) :=
      yields_node rfl rfl (yields_bump_then hb.fresh
        ((steady_bumpWhile n _).bind fun _ => (steady_expect _).discard))
    exact .bind (.of_yields hrank.anything) fun _ b' => hlast b' ⟨rfl, rfl⟩
  refine .steady_bind (steady_expectType hg true false) fun _ b => .ite (fun _ => .pure ⟨rfl, rfl⟩)
    fun _ => .atText_bind (by decide) (fun _ => ?_) (.atText_bind (by decide) (fun hb => ?_) ?_)
  · exact .bind (.wrapLast rfl fun b => steady_rankSpecifiers hg b) fun _ b' => hlast b' ⟨rfl, rfl⟩
  · exact .bind (.of_yields (yields_argumentList hg hb).anything) fun _ b' => hlast b' ⟨rfl, rfl⟩
  · exact hlast b ⟨rfl, rfl⟩

theorem yields_stackArray (hg : Sound g) (hb : More b) :
    Yields (stackArray n g) b (One NodeKind.IsInner) := by
  have hlast : ∀ b, Goes (fun _ => True) (optionalInitializer n g) b :=
    fun b => .steady (steady_optionalInitializer hg)
  refine yields_node rfl rfl (yields_bump_goes hb.fresh fun b => ?_)
  refine .steady_bind (fun _ => (yields_typePhrase hg false false).anything) fun _ b => ?_
  refine .ite (fun _ => ?_) fun _ => .steady_bind (steady_rankSpecifiers hg) fun _ => hlast
  exact .bind (.wrapLast rfl fun b => steady_rankSpecifiers hg b) fun _ => hlast

theorem yields_parenthesizedType (kind : NodeKind) (hg : Sound g) (hb : More b)
    (hK : NodeKind.IsInner kind) (hk : kind.isPlain = true) :
    Yields (parenthesizedType n g kind) b (One NodeKind.IsInner) := by
  refine yields_node hK hk (yields_bump_then hb.fresh ((steady_expect _).discard.bind fun _ => ?_))
  exact (steady_expectType hg true true).discard.bind fun _ => (steady_expect _).discard

/-- If there was no problem, there is a value between two parentheses. -/
theorem yields_parenthesizedValue (hg : Sound g) :
    Yields (parenthesizedValue g) b fun _ b' new => b'.errors = [] →
      ∃ opening value closing, new = [.leaf opening, value, .leaf closing] ∧
        value.HasKind NodeKind.IsInner ∧ closing.text = ")" := by
  refine (yields_expect "(").discard.bind fun _ b₁ new₁ _ h₁ => ?_
  refine (yields_expectExpression hg).discard.bind fun _ b₂ new₂ hg₂ h₂ => ?_
  refine (yields_expect ")").discard.imp fun _ b₃ new₃ hg₃ h₃ he => ?_
  have he₂ := hg₃.errors_eq_nil he
  obtain ⟨_, rfl, opening, rfl, -⟩ := h₁.elim fun _ h => h.exists_of_clean (hg₂.errors_eq_nil he₂)
  obtain ⟨value, rfl, hvalue⟩ := h₂.elim fun _ h => h.exists_of_clean he₂
  obtain ⟨_, rfl, closing, rfl, hclosing⟩ := h₃.elim fun _ h => h.exists_of_clean he
  exact ⟨opening, value, closing, rfl, hvalue, hclosing⟩

theorem steady_parenthesizedValue (hg : Sound g) : Steady (parenthesizedValue g) :=
  fun _ => (yields_parenthesizedValue hg).anything

theorem yields_parenthesizedOrTuple (hg : Sound g) (hb : More b) :
    Yields (parenthesizedOrTuple n g) b (One NodeKind.IsInner) := by
  have helement : Steady (orReport (argument n g true) "expected expression") :=
    fun _ => (yields_orReport (yields_argument hg true)).anything
  have hrest : ∀ b, Goes (fun kind => NodeKind.IsInner kind ∧ kind.isPlain = true) (do
      repeatUpTo n do
        if ← eat "," then orReport (argument n g true) "expected expression" else return false
      discard (expect ")")
      return .tupleExpression) b := by
    refine fun b => .steady_bind (steady_repeatUpTo ?_ n) fun _ b => ?_
    · exact (steady_eat _).bind fun _ => .ite helement (.pure _)
    · exact .steady_bind (steady_expect _).discard fun _ b => .pure ⟨rfl, rfl⟩
  have htail : ∀ (named declared found : Bool) b,
      Goes (fun kind => NodeKind.IsInner kind ∧ kind.isPlain = true) (do
        if !(named || declared || (← atText ",")) then
          if !found then report "expected expression"
          discard (expect ")")
          return .parenthesizedExpression
        if found then wrapLast .argument (pure ()) else discard (argument n g true)
        repeatUpTo n do
          if ← eat "," then orReport (argument n g true) "expected expression" else return false
        discard (expect ")")
        return .tupleExpression) b := by
    intro named declared found b
    refine .steady_bind (steady_atText _) fun _ b => .ite (fun _ => ?_) fun _ => ?_
    · refine .ite (fun _ => .steady_bind (steady_report _) fun _ b => ?_) fun _ => ?_
      all_goals exact .steady_bind (steady_expect _).discard fun _ b => .pure ⟨rfl, rfl⟩
    · refine .ite (fun _ => ?_) fun _ => ?_
      · exact .bind (R := fun _ => True) (.wrapLast rfl fun b => .pure trivial) fun _ => hrest
      · exact .steady_bind (Steady.discard fun _ => (yields_argument hg true).anything) fun _ => hrest
  refine yields_nodeOf_bump hb fun b => .steady_bind steady_ahead fun ts b => ?_
  refine .steady_bind (fun _ => (yields_declarationExpression hg true).anything) fun declared b => ?_
  refine .ite (fun _ => htail _ _ _ b) fun _ => .ite (fun _ => htail _ _ _ b) fun _ => ?_
  exact .steady_bind (fun b => (hg.expression b).anything) fun _ => htail _ _ _

theorem yields_collectionExpression (hg : Sound g) (hb : More b) :
    Yields (collectionExpression n g) b (One NodeKind.IsInner) :=
  yields_node rfl rfl (yields_bump_then hb.fresh
    ((steady_elementList hg _).bind fun _ => (steady_expect _).discard))

theorem literalKind?_spec {ts : List Token} {kind : NodeKind} (h : literalKind? ts = some kind) :
    NodeKind.IsInner kind ∧ kind.isPlain = true ∧ kindAt ts 0 ≠ .endOfFile := by
  unfold literalKind? at h
  split at h
  case h_5 hk =>
    split at h
    case h_6 => split_ifs at h; cases h; exact ⟨rfl, rfl, by simp [hk]⟩
    case h_7 => cases h
    all_goals cases h; exact ⟨rfl, rfl, by simp [hk]⟩
  case h_6 => cases h
  all_goals
    rename_i hk
    cases h
    exact ⟨rfl, rfl, by simp [hk]⟩

theorem yields_keywordOperand (hg : Sound g) (hb : More b) :
    Yields (keywordOperand n g b.ahead) b (Tried NodeKind.IsInner b) := by
  unfold keywordOperand
  split
  · exact (yields_creation hg hb).tried_one
  · exact (yields_parenthesizedType .typeOfExpression hg hb rfl rfl).tried_one
  · exact (yields_parenthesizedType .defaultExpression hg hb rfl rfl).tried_one
  · exact (yields_parenthesizedType .sizeOfExpression hg hb rfl rfl).tried_one
  · exact yields_foundNode rfl rfl (yields_bump_then hb.fresh (steady_parenthesizedValue hg))
  · exact yields_foundNode rfl rfl (yields_bump_then hb.fresh (steady_parenthesizedValue hg))
  · exact (yields_anonymousMethod 0 hg hb).tried_one
  · exact (yields_stackArray hg hb).tried_one
  · refine .ite (fun _ => ?_) fun _ => .tried_none
    exact yields_foundNode rfl rfl (yields_bump hb.fresh).took_something

theorem yields_primary (hg : Sound g) : Yields (primary n g) b (Tried NodeKind.IsInner b) := by
  refine .upcoming_bind ?_
  split
  · rename_i kind hkind
    obtain ⟨hK, hk, hend⟩ := literalKind?_spec hkind
    exact yields_foundNode hK hk (yields_bump (more_of_kindAt hend).fresh).took_something
  split
  · rename_i hk
    exact (yields_simpleNameExpression hg (more_of_kindAt (by simp [hk]))).tried_one
  · rename_i hk
    exact yields_keywordOperand hg (more_of_kindAt (by simp [hk]))
  · rename_i hk
    have hb : More b := more_of_kindAt (by simp [hk])
    refine .ite (fun _ => (yields_parenthesizedOrTuple hg hb).tried_one) fun _ => ?_
    exact .ite (fun _ => (yields_collectionExpression hg hb).tried_one) fun _ => .tried_none
  · exact .tried_none

/-! ### What follows an operand -/

/-- A name behind a dot, which comes next. -/
theorem steady_memberName (hg : Sound g) {rest : Parse Bool} (hrest : Steady rest) : Steady (do
    bump
    if ← atIdentifier then
      simpleNameExpression n g
      return true
    rest) := by
  refine steady_bump.bind fun _ b => .atIdentifier_bind (fun hb _ => ?_) fun _ => hrest b
  exact (yields_simpleNameExpression hg hb).anything.gives fun _ _ => .pure trivial

theorem steady_noName : Steady (do report "expected identifier"; return false) :=
  (steady_report _).bind fun _ => .pure _

theorem rewraps_postfixStep (hg : Sound g) :
    Rewraps NodeKind.IsInner NodeKind.IsInner (fun _ => True) (postfixStep n g) b := by
  refine .upcoming_bind (.ite (fun _ => .pure trivial) fun hkind => ?_)
  have hb : ∀ b', b'.ahead = b.ahead → More b' := fun b' hb' => more_of_kindAt (by
    rw [hb']
    simp only [bne_iff_ne, ne_eq, not_not] at hkind
    simp [hkind])
  split
  · exact .wrapLast rfl rfl fun b' _ => steady_memberName hg steady_noName b'
  · exact .wrapLast rfl rfl fun b' _ => steady_memberName hg steady_noName b'
  · exact .wrapLast rfl rfl fun b' _ => steady_memberName hg steady_noName b'
  · refine .wrapLast rfl rfl fun b' _ => steady_memberName hg (fun b => ?_) b'
    refine .atText_bind (by decide) (fun hb _ => ?_) fun _ => steady_noName b
    exact (yields_bracketedArgumentList hg hb).anything.gives fun _ _ => .pure trivial
  · exact .wrapLast_return trivial rfl rfl fun b' hb' => (yields_argumentList hg (hb b' hb')).anything
  · exact .wrapLast_return trivial rfl rfl fun b' hb' => (yields_bracketedArgumentList hg (hb b' hb')).anything
  · refine .ite (fun h => ?_) fun _ => .pure trivial
    refine .wrapLast_return trivial rfl rfl fun b' hb' => .anything (.bump_something (hb b' hb') ?_)
    intro b'' t ht
    have hnext : textAt b''.ahead 0 = "[" := by
      have := (Bool.and_eq_true_iff.1 h).2
      rw [← hb', ht] at this
      exact beq_iff_eq.1 this
    refine .of_readable fun hr => ?_
    have hm : More b'' := more_of_textAt_ne hr (by rw [hnext]; decide)
    exact (yields_bracketedArgumentList hg hm).anything
  · exact .wrapLast_return trivial rfl rfl fun b' _ => steady_bump b'
  · exact .wrapLast_return trivial rfl rfl fun b' _ => steady_bump b'
  · exact .wrapLast_return trivial rfl rfl fun b' _ => steady_bump b'
  · exact .pure trivial

theorem yields_operand (hg : Sound g) : Yields (operand n g) b (Tried NodeKind.IsInner b) := by
  refine (yields_primary hg).tried_rewrap rfl fun b' => ?_
  exact (Rewraps.repeatUpTo (fun _ => rewraps_postfixStep hg) n b').bind fun _ _ _ => .pure rfl

/-! ### Operators in front -/

theorem steady_expectUnary (hg : Sound g) : Steady (expectUnary g) :=
  (steady_orReport fun b => (hg.unary b).anything).discard

theorem yields_castExpression (hg : Sound g) (hb : More b) :
    Yields (castExpression n g) b (Tried NodeKind.IsInner b) := by
  refine .look_bind fun _ _ => .ite (fun _ => ?_) fun _ => .tried_none
  refine yields_foundNode rfl rfl (yields_bump_then hb.fresh ?_)
  refine Steady.bind (fun b => (yields_orGiveUp (yields_fullType hg)).anything) fun _ => ?_
  exact (steady_expect _).discard.bind fun _ => steady_expectUnary hg

theorem yields_unary (hg : Sound g) : Yields (unary n g) b (Tried NodeKind.IsInner b) := by
  refine .upcoming_bind ?_
  split
  · rename_i hk
    have hb : More b := more_of_kindAt (by simp [hk])
    refine .ite (fun _ => ?_) fun _ => .ite (fun _ => ?_) fun _ => .ite (fun _ => ?_) fun _ => ?_
    · exact yields_foundNode rfl rfl (yields_bump_then hb.fresh (steady_expectUnary hg))
    · refine yields_foundNode rfl rfl (yields_bump_then hb.fresh (steady_ahead.bind fun _ => ?_))
      exact .ite (Steady.discard fun b => (hg.unary b).anything) (.pure _)
    · exact (yields_castExpression hg hb).tried_or (yields_operand hg)
    · exact yields_operand hg
  · rename_i hk
    have hb : More b := more_of_kindAt (by simp [hk])
    refine .ite (fun _ => ?_) fun _ => .ite (fun _ => ?_) fun _ => yields_operand hg
    · refine yields_foundNode rfl rfl (yields_bump_then hb.fresh ?_)
      exact (steady_eat _).discard.bind fun _ => steady_expectUnary hg
    · exact yields_foundNode rfl rfl (yields_bump_then hb.fresh (steady_expectExpression hg).discard)
  · rename_i hk
    have hb : More b := more_of_kindAt (by simp [hk])
    refine .ite (fun _ => ?_) fun _ => yields_operand hg
    exact yields_foundNode rfl rfl (yields_bumpKeyword_then hb.fresh (steady_expectUnary hg))
  · exact yields_operand hg

/-! ### Binary operators, conditions and assignments -/

theorem steady_switchArms (hg : Sound g) : Steady (switchArms n g) := by
  have harm : Steady (do
      if ← atWord "when" then
        bump
        discard (expectExpression g)
      discard (expect "=>")
      discard (expectExpression g)) := by
    have hvalue : Steady (do discard (expect "=>"); discard (expectExpression g)) :=
      (steady_expect _).discard.bind fun _ => (steady_expectExpression hg).discard
    refine (steady_atWord _).bind fun _ => .ite ?_ hvalue
    exact steady_bump.bind fun _ => (steady_expectExpression hg).discard.bind fun _ => hvalue
  refine (steady_expect _).bind fun _ => .ite ?_ (.pure _)
  refine (steady_repeatUpTo ?_ n).bind fun _ => (steady_expect _).discard
  refine steady_atEnd.bind fun _ => (steady_atText _).bind fun _ => .ite (.pure _) fun b => ?_
  refine yields_pattern.found_of_tried.found_goes (fun b => ?_) ?_
  · refine .bind (.wrapLast rfl fun b => harm b) fun _ _ => .steady (steady_eat _)
  · exact (steady_skipToken _).bind fun _ => .pure _

/-- Only the values of `with` need a brace in front of them, and the operator is there only if
one follows. -/
theorem binaryOperator?_withValues {ts : List Token} {op : BinaryOperator}
    (h : binaryOperator? ts = some op) (hop : op.form = .withValues) :
    op.tokens = 1 ∧ textAt ts 1 = "\x7b" ∧ kindAt ts 0 ≠ .endOfFile := by
  simp only [binaryOperator?] at h
  split at h
  case h_1 =>
    -- Operators that are spelled with signs are never followed by such values.
    split_ifs at h
    · simp only [greaterOperator?] at h
      split_ifs at h <;> cases h <;> cases hop
    · cases h
      cases hop
    · obtain ⟨p, -, rfl⟩ := Option.map_eq_some_iff.1 h
      cases hop
  case h_2 =>
    split_ifs at h <;> cases h <;> cases hop
  case h_3 hk =>
    split_ifs at h with hw
    cases h
    simp only [Bool.and_eq_true, beq_iff_eq] at hw
    exact ⟨rfl, hw.2, by simp [hk]⟩
  case h_4 => cases h

theorem steady_rightSide {op : BinaryOperator} (hg : Sound g) (hop : op.form ≠ .withValues) :
    Steady (rightSide n g op) := by
  unfold rightSide
  split
  · exact (steady_orReport fun b => (hg.binary _ b).anything).discard
  · exact (steady_orReport fun b => yields_pattern.anything).discard
  · refine fun b => (yields_expectType (yields_typePhrase hg false true)).found_of_required.found_goes
      (fun b => ?_) (.pure _)
    refine .steady_bind steady_ahead fun _ b => .ite (fun _ => ?_) fun _ => .pure trivial
    exact .wrapLast rfl fun b => steady_bump b
  · exact steady_switchArms hg
  · exact absurd ‹_› hop
  · exact steady_ahead.bind fun _ => .ite (Steady.discard fun b => (hg.binary _ b).anything) (.pure _)

theorem yields_binaryRest {op : BinaryOperator} (hg : Sound g)
    (hop : binaryOperator? b.ahead = some op) :
    Yields (bumpMany op.tokens >>= fun _ => rightSide n g op) b Anything := by
  by_cases hform : op.form = .withValues
  · obtain ⟨htokens, hbrace, hk⟩ := binaryOperator?_withValues hop hform
    rw [htokens, bumpMany, bumpMany, bind_assoc]
    simp only [pure_bind]
    refine .anything (.bump_something (f := fun _ => rightSide n g op) (more_of_kindAt hk) ?_)
    intro b' t ht
    refine .of_readable fun hr => ?_
    have hb' : More b' := by
      rw [ht] at hbrace
      exact more_of_startsText hr (startsText_iff.2 hbrace) (by decide)
    unfold rightSide
    rw [hform]
    exact (yields_initializer hg hb').anything
  · exact (steady_bumpMany _).bind (fun _ => steady_rightSide hg hform) b

theorem BinaryForm.isInner_kind (form : BinaryForm) : NodeKind.IsInner form.kind := by
  cases form <;> rfl

theorem BinaryForm.isPlain_kind (form : BinaryForm) : form.kind.isPlain = true := by
  cases form <;> rfl

theorem rewraps_binaryStep (hg : Sound g) (least : Nat) :
    Rewraps NodeKind.IsInner NodeKind.IsInner (fun _ => True) (do
      match binaryOperator? (← ahead) with
      | none => return false
      | some op =>
        if op.precedence < least then return false
        wrapLast op.form.kind do
          bumpMany op.tokens
          rightSide n g op
        return true) b := by
  refine .ahead_bind ?_
  split
  · exact .pure trivial
  · rename_i op hop
    refine .ite (fun _ => .pure trivial) fun _ => ?_
    refine .wrapLast_return trivial op.form.isInner_kind op.form.isPlain_kind fun b' hb' => ?_
    exact yields_binaryRest hg (by rw [hb', hop])

theorem yields_binary (hg : Sound g) (least : Nat) :
    Yields (binary n g least) b (Tried NodeKind.IsInner b) := by
  refine (yields_unary hg).tried_rewrap rfl fun b' => ?_
  exact (Rewraps.repeatUpTo (fun _ => rewraps_binaryStep hg least) n b').bind
    fun _ _ _ => .pure rfl

theorem yields_conditional (hg : Sound g) :
    Yields (conditional n g) b (Tried NodeKind.IsInner b) := by
  refine (yields_binary hg 0).tried_rewrap rfl fun b' => ?_
  refine .atText_bind (by decide) (fun _ => ?_) (.pure rfl)
  refine .wrapLast_return rfl rfl rfl fun b' _ => ?_
  refine steady_bump.bind (fun _ => (steady_expectExpression hg).discard.bind fun _ => ?_) b'
  exact (steady_expect _).bind fun _ => .ite (steady_expectExpression hg).discard (.pure _)

theorem assignmentOperator?_kind {ts : List Token} {kind : NodeKind} {tokens : Nat}
    (h : assignmentOperator? ts = some (kind, tokens)) :
    NodeKind.IsInner kind ∧ kind.isPlain = true := by
  simp only [assignmentOperator?] at h
  split_ifs at h <;> cases h <;> exact ⟨rfl, rfl⟩

theorem rewraps_assignment (hg : Sound g) :
    Rewraps NodeKind.IsInner NodeKind.IsInner (· = true) (do
      if let some (kind, tokens) := assignmentOperator? (← ahead) then
        wrapLast kind do
          bumpMany tokens
          if kind == .simpleAssignmentExpression then initialValue n g
          else discard (expectExpression g)
      return true) b := by
  refine .ahead_bind ?_
  split
  · rename_i kind tokens h
    obtain ⟨hK, hk⟩ := assignmentOperator?_kind h
    refine .wrapLast_return rfl hK hk fun b' _ => ?_
    refine (steady_bumpMany _).bind (fun _ => .ite (steady_initialValue hg) ?_) b'
    exact (steady_expectExpression hg).discard
  · exact .pure rfl

theorem yields_expression (hg : Sound g) :
    Yields (expression n g) b (Tried NodeKind.IsInner b) := by
  refine (yields_lambda hg).tried_or ?_
  exact (yields_conditional hg).tried_rewrap rfl fun b' => rewraps_assignment hg

end PluginLint.Grammar
