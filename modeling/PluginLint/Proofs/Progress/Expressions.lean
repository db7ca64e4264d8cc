import PluginLint.Proofs.Parsing.Expressions
import PluginLint.Proofs.Progress.Lists

/-!
# Expressions do not panic

An expression looks for the phrases inside it only behind a token of its own. The loops over what
follows an operand and over operators end because each of these begins with a token.
-/
namespace PluginLint.Grammar

variable {n : Nat} {g : Phrases} {ts : List Token}

/-! ### Operands -/

theorem runs_simpleNameExpression (hg : Able n g) (h : startsEnd ts = false) (hts : ts.length < n) :
    Runs (simpleNameExpression n g) ts (Shorter ts) :=
  .look_bind (answers_startsGenericName hts) fun _ hlook =>
    runs_nameNode hg hts h fun hc => textAt_of_startsGenericName (hc ▸ hlook)

theorem ready_simpleNameExpression (hg : Able n g) : Ready n (simpleNameExpression n g) :=
  .of_runs fun _ hts he => runs_simpleNameExpression hg he hts

/-- Words in front of a token that is there, and a step from that token on. -/
theorem Runs.bumpKeywords_bind {k : Nat} {f : Unit → Parse α} (h : startsEnd (ts.drop k) = false)
    (hf : Runs (f ()) (ts.drop k) Any) : Runs (bumpKeywords k >>= f) ts Any :=
  (runs_bumpKeywords h).bind fun _ _ _ hrest => hrest ▸ hf

theorem runs_anonymousMethod (modifiers : Nat) (hg : Able n g)
    (h : startsEnd (ts.drop modifiers) = false) (hts : ts.length < n) :
    Runs (anonymousMethod n g modifiers) ts Any := by
  have hblock : Safe n (do if ← atText "\x7b" then discard (g .block) else report "expected `\x7b`") :=
    safe_blockOr hg (safe_report _)
  have hle := length_drop_le ts modifiers
  refine runs_node (.bumpKeywords_bind h (Runs.any (.bump_then (n := n) h (by omega) ?_)))
  exact .ifText (by decide) ((ready_parameterList hg).bind fun _ => hblock) hblock

theorem safe_lambdaBody (hg : Able n g) : Safe n (lambdaBody g) :=
  (safe_expect _).discard.bind fun _ => safe_blockOr hg (safe_expectExpression hg).discard

theorem runs_lambda (hg : Able n g) (hts : ts.length < n) : Runs (lambda n g) ts (Tries ts) := by
  have hle := length_drop_le ts (lambdaModifiers ts)
  have hbody : ∀ {p : Parse Unit}, Runs p (ts.drop (lambdaModifiers ts))
      (Shorter (ts.drop (lambdaModifiers ts))) →
      Runs (p >>= fun _ => lambdaBody g) (ts.drop (lambdaModifiers ts)) Any := fun hp =>
    (hp.bind_shorter fun _ rest hlt => safe_lambdaBody hg rest (by omega)).any
  have hruns : Runs (lambda n g) ts Any := by
    refine .of_legible fun hl => .ahead_bind (.ite (fun h => ?_) fun _ =>
      .orPanic_bind answers_startsLambdaHead fun _ hhead => .ite (fun h => ?_) fun _ =>
        .ite (fun h => ?_) fun _ => .pure trivial)
    · have he := not_startsEnd_of_identifier (Bool.and_eq_true_iff.1 h).1
      refine (runs_node (.bumpKeywords_bind he ?_)).bind fun _ _ _ _ => .pure trivial
      exact hbody (runs_node (runs_bump he))
    · have he : startsEnd (ts.drop (lambdaModifiers ts)) = false :=
        not_startsEnd_of_startsText (b := { ahead := ts }) hl.ended
          (startsText_of_startsLambdaHead (h ▸ hhead)) (by decide)
      refine (runs_node (.bumpKeywords_bind he ?_)).bind fun _ _ _ _ => .pure trivial
      exact hbody (runs_parametersTo hg _ _ he (by omega))
    · have he : startsEnd (ts.drop (lambdaModifiers ts)) = false :=
        not_startsEnd_of_startsText (b := { ahead := ts }) hl.ended
          (Bool.and_eq_true_iff.1 h).1 (by decide)
      exact (runs_anonymousMethod _ hg he hts).bind fun _ _ _ _ => .pure trivial
  exact hruns.tries fun b _ => yields_lambda hg.sound

theorem runs_creation (hg : Able n g) (h : startsEnd ts = false) (hts : ts.length < n) :
    Runs (creation n g) ts (Shorter ts) := by
  have hlast : ∀ kind : NodeKind, Safe n (optionalInitializer n g >>= fun _ => pure kind) :=
    fun kind => (safe_optionalInitializer hg).bind fun _ => .pure kind
  refine runs_nodeOf (.bump_then h hts ?_)
  refine .ifText (by decide) ((ready_initializer hg).bind fun _ => .pure _) ?_
  refine .ifText (by decide) ((ready_argumentList hg).bind fun _ => hlast _) ?_
  refine .ifText (by decide) ?_ ?_
  · refine (ready_node (ready_bump.bind fun _ => ?_)).bind fun _ => hlast _
    exact (safe_bumpWhile _).bind fun _ => (safe_expect _).discard
  refine (safe_expectType (safe_typePhrase hg true false)).bind fun _ => .ite (.pure _) ?_
  refine (Safe.atText _).bind fun _ => .ite ?_ ?_
  · exact (safe_wrapLast (safe_rankSpecifiers hg)).bind fun _ => hlast _
  exact .ifText (by decide) ((ready_argumentList hg).bind fun _ => hlast _) (hlast _)

theorem runs_stackArray (hg : Able n g) (h : startsEnd ts = false) (hts : ts.length < n) :
    Runs (stackArray n g) ts (Shorter ts) := by
  refine runs_node (.bump_then h hts ((safe_typePhrase hg false false).bind fun _ => .ite ?_ ?_))
  · exact (safe_wrapLast (safe_rankSpecifiers hg)).bind fun _ => safe_optionalInitializer hg
  · exact (safe_rankSpecifiers hg).bind fun _ => safe_optionalInitializer hg

theorem runs_parenthesizedType (kind : NodeKind) (hg : Able n g) (h : startsEnd ts = false)
    (hts : ts.length < n) : Runs (parenthesizedType n g kind) ts (Shorter ts) := by
  refine runs_node (.bump_then h hts ((safe_expect _).discard.bind fun _ => ?_))
  exact (safe_expectFullType hg).discard.bind fun _ => (safe_expect _).discard

theorem safe_parenthesizedValue (hg : Able n g) : Safe n (parenthesizedValue g) := by
  refine (safe_expect _).discard.bind fun _ => ?_
  exact (safe_expectExpression hg).discard.bind fun _ => (safe_expect _).discard

theorem runs_parenthesizedOrTuple (hg : Able n g) (h : startsEnd ts = false) (hts : ts.length < n) :
    Runs (parenthesizedOrTuple n g) ts (Shorter ts) := by
  have helement : Safe n (orReport (argument n g true) "expected expression") :=
    safe_orReport (safe_argument hg true)
  have hrest : Safe n (do
      repeatUpTo n do
        if ← eat "," then orReport (argument n g true) "expected expression" else return false
      discard (expect ")")
      return NodeKind.tupleExpression) := by
    refine (safe_repeatUpTo fun ts hts => ?_).bind fun _ =>
      (safe_expect _).discard.bind fun _ => .pure _
    refine (runs_eat ",").tries_then fun rest hlt => helement rest (by omega)
  have htail : ∀ named declared found : Bool, Safe n (do
      if !(named || declared || (← atText ",")) then
        if !found then report "expected expression"
        discard (expect ")")
        return NodeKind.parenthesizedExpression
      if found then wrapLast .argument (pure ()) else discard (argument n g true)
      repeatUpTo n do
        if ← eat "," then orReport (argument n g true) "expected expression" else return false
      discard (expect ")")
      return .tupleExpression) := by
    intro named declared found
    refine (Safe.atText _).bind fun _ => .ite (.ite ((safe_report _).bind fun _ => ?_) ?_) (.ite ?_ ?_)
    · exact (safe_expect _).discard.bind fun _ => .pure _
    · exact (safe_expect _).discard.bind fun _ => .pure _
    · exact (safe_wrapLast (.pure ())).bind fun _ => hrest
    · exact (safe_argument hg true).discard.bind fun _ => hrest
  refine runs_nodeOf (.bump_then h hts (Safe.ahead.bind fun _ => ?_))
  refine (safe_declarationExpression hg true).bind fun _ => .ite (htail _ _ _) (.ite (htail _ _ _) ?_)
  exact hg.expression.bind fun _ => htail _ _ _

theorem runs_collectionExpression (hg : Able n g) (h : startsEnd ts = false) (hts : ts.length < n) :
    Runs (collectionExpression n g) ts (Shorter ts) :=
  runs_node (.bump_then h hts ((safe_elementList hg _).bind fun _ => (safe_expect _).discard))

theorem runs_keywordOperand (hg : Able n g) (h : startsEnd ts = false) (hts : ts.length < n) :
    Runs (keywordOperand n g ts) ts (Tries ts) := by
  have hchecked : Runs (node .checkedExpression do bump; parenthesizedValue g) ts (Shorter ts) :=
    runs_node (.bump_then h hts (safe_parenthesizedValue hg))
  unfold keywordOperand
  split
  · exact (runs_creation hg h hts).return_true
  · exact (runs_parenthesizedType _ hg h hts).return_true
  · exact (runs_parenthesizedType _ hg h hts).return_true
  · exact (runs_parenthesizedType _ hg h hts).return_true
  · exact hchecked.return_true
  · exact hchecked.return_true
  · refine ((runs_anonymousMethod 0 hg h hts).shorter fun b hb => ?_).return_true
    exact (yields_anonymousMethod 0 hg.sound (by rwa [hb])).something
  · exact (runs_stackArray hg h hts).return_true
  · exact .ite (fun _ => (runs_node (runs_bump h)).return_true) fun _ => .tries_none

theorem runs_primary (hg : Able n g) (hts : ts.length < n) : Runs (primary n g) ts (Tries ts) := by
  refine .upcoming_bind ?_
  split
  · rename_i kind hkind
    obtain ⟨-, -, hend⟩ := literalKind?_spec hkind
    exact (runs_node (runs_bump (not_startsEnd_of_kind hend))).return_true
  split
  · rename_i hk
    exact (runs_simpleNameExpression hg (not_startsEnd_of_kind (by simp [hk])) hts).return_true
  · rename_i hk
    exact runs_keywordOperand hg (not_startsEnd_of_kind (by simp [hk])) hts
  · rename_i hk
    have he : startsEnd ts = false := not_startsEnd_of_kind (by simp [hk])
    refine .ite (fun _ => (runs_parenthesizedOrTuple hg he hts).return_true) fun _ => ?_
    exact .ite (fun _ => (runs_collectionExpression hg he hts).return_true) fun _ => .tries_none
  · exact .tries_none

/-! ### What follows an operand -/

/-- A name or something else behind the sign in front of it. -/
theorem safe_memberName (hg : Able n g) {rest : Parse Bool} (hrest : Safe n rest) : Safe n (do
    if ← atIdentifier then
      simpleNameExpression n g
      return true
    rest) :=
  .ifIdentifier ((ready_simpleNameExpression hg).bind fun _ => .pure true) hrest

theorem safe_noName : Safe n (do report "expected identifier"; return false) :=
  (safe_report _).bind fun _ => .pure _

theorem runs_postfixStep (hg : Able n g) (hts : ts.length < n) :
    Runs (postfixStep n g) ts (Tries ts) := by
  refine .of_legible fun hl => .upcoming_bind (.ite (fun _ => .tries_none) fun hkind => ?_)
  have he : startsEnd ts = false := not_startsEnd_of_kind (by
    simp only [bne_iff_ne, ne_eq, not_not] at hkind
    simp [hkind])
  have hname : ∀ {kind : NodeKind} {rest : Parse Bool}, Safe n rest → Runs (wrapLast kind do
      bump
      if ← atIdentifier then
        simpleNameExpression n g
        return true
      rest) ts (Tries ts) := fun hrest =>
    .tries_of_shorter (runs_wrapLast (.bump_then he hts (safe_memberName hg hrest)))
  have hbracketed : Ready n (bracketedArgumentList n g >>= fun _ => pure true) :=
    (ready_bracketedArgumentList hg).bind fun _ => .pure true
  split
  · exact hname safe_noName
  · exact hname safe_noName
  · exact hname safe_noName
  · exact hname (.ifText (by decide) hbracketed safe_noName)
  · exact (runs_wrapLast (runs_argumentsTo hg _ _ he hts)).return_true
  · exact (runs_wrapLast (runs_argumentsTo hg _ _ he hts)).return_true
  · refine .ite (fun h => ?_) fun _ => .tries_none
    have hopen := hl.not_startsEnd_drop (beq_iff_eq.1 (Bool.and_eq_true_iff.1 h).2) (by decide)
    exact (runs_wrapLast (.bump_ready hopen hts (ready_bracketedArgumentList hg))).return_true
  · exact (runs_wrapLast (runs_bump he)).return_true
  · exact (runs_wrapLast (runs_bump he)).return_true
  · exact (runs_wrapLast (runs_bump he)).return_true
  · exact .tries_none

theorem runs_operand (hg : Able n g) (hts : ts.length < n) : Runs (operand n g) ts (Tries ts) := by
  refine (runs_primary hg hts).tries_then fun rest hlt => ?_
  refine (runs_repeatUpTo (fun us hus => runs_postfixStep hg (by omega)) (by omega)).bind ?_
  exact fun _ _ _ _ => .pure trivial

/-! ### Operators in front -/

theorem safe_expectUnary (hg : Able n g) : Safe n (expectUnary g) := (safe_orReport hg.unary).discard

/-- A cast has been followed over its type. -/
theorem exists_of_startsCast (h : startsCast n ts = .ok true) :
    ∃ rest, skipType n (ts.drop 1) = .ok (some rest) := by
  obtain ⟨found, htype, h⟩ := exists_ok_of_bind h
  cases found with
  | none => cases h
  | some rest => exact ⟨rest, htype⟩

theorem runs_castExpression (hg : Able n g) (h : startsEnd ts = false) (hts : ts.length < n) :
    Runs (castExpression n g) ts (Tries ts) := by
  refine .look_bind (answers_startsCast hts) fun _ hcast => .ite (fun hc => ?_) fun _ => .tries_none
  obtain ⟨rest, htype⟩ := exists_of_startsCast (hc ▸ hcast)
  have hoperand : Safe n (do discard (expect ")"); expectUnary g) :=
    (safe_expect _).discard.bind fun _ => safe_expectUnary hg
  refine (runs_node (.place_next h fun hlt => ?_)).return_true
  exact (runs_followedType hg htype (by omega)).bind fun _ us hle _ => hoperand us (by omega)

theorem runs_unary (hg : Able n g) (hts : ts.length < n) : Runs (unary n g) ts (Tries ts) := by
  refine .upcoming_bind ?_
  split
  · rename_i hk
    have he : startsEnd ts = false := not_startsEnd_of_kind (by simp [hk])
    refine .ite (fun _ => ?_) fun _ => .ite (fun _ => ?_) fun _ => .ite (fun _ => ?_) fun _ =>
      runs_operand hg hts
    · exact (runs_node (.bump_then he hts (safe_expectUnary hg))).return_true
    · refine (runs_node (.bump_then he hts (Safe.ahead.bind fun _ => ?_))).return_true
      exact .ite hg.unary.discard (.pure _)
    · exact (runs_castExpression hg he hts).tries_or fun rest hle => runs_operand hg (by omega)
  · rename_i hk
    have he : startsEnd ts = false := not_startsEnd_of_kind (by simp [hk])
    refine .ite (fun _ => ?_) fun _ => .ite (fun _ => ?_) fun _ => runs_operand hg hts
    · refine (runs_node (.bump_then he hts ?_)).return_true
      exact (safe_eat _).discard.bind fun _ => safe_expectUnary hg
    · exact (runs_node (.bump_then he hts (safe_expectExpression hg).discard)).return_true
  · rename_i hk
    have he : startsEnd ts = false := not_startsEnd_of_kind (by simp [hk])
    refine .ite (fun _ => ?_) fun _ => runs_operand hg hts
    exact (runs_node (.bumpKeyword_then he hts (safe_expectUnary hg))).return_true
  · exact runs_operand hg hts

/-! ### Binary operators, conditions and assignments -/

/-- Each arm is followed by a comma, and what is no arm is set aside. -/
theorem safe_switchArms (hg : Able n g) : Safe n (switchArms n g) := by
  have harm : Safe n (do
      if ← atWord "when" then
        bump
        discard (expectExpression g)
      discard (expect "=>")
      discard (expectExpression g)) := by
    have hvalue : Safe n (do discard (expect "=>"); discard (expectExpression g)) :=
      (safe_expect _).discard.bind fun _ => (safe_expectExpression hg).discard
    refine .ifWord ?_ hvalue
    exact ready_bump.bind fun _ => (safe_expectExpression hg).discard.bind fun _ => hvalue
  refine (safe_expect _).bind fun _ => .ite ?_ (.pure _)
  refine (safe_repeatUpTo fun ts hts => .unlessEnd fun he => ?_).bind fun _ => (safe_expect _).discard
  refine (safe_pattern ts hts).suffix.bind fun _ rest hle hs => .ite (fun _ => ?_) fun _ => ?_
  · refine (safe_wrapLast harm rest (by omega)).bind fun _ rest' hle' _ => ?_
    exact (runs_eat ",").imp fun _ _ _ hate h => Nat.lt_of_lt_of_le (hate h) (by omega)
  · refine (runs_skipToken_of_suffix _ hs.1 he).bind fun _ _ _ hlt => ?_
    exact .pure fun _ => hlt

/-- Only the values of `with` need a brace to be seen in front of them. -/
theorem runs_rightSide (hg : Able n g) {op : BinaryOperator}
    (hop : op.form = .withValues → startsEnd ts = false) (hts : ts.length + 1 < n) :
    Runs (rightSide n g op) ts Any := by
  have hright : ∀ {p : Parse Unit}, Safe n p → Runs p ts Any := fun hp => hp ts hts
  unfold rightSide
  split
  · exact hright (safe_orReport (hg.binary _)).discard
  · exact hright (safe_orReport safe_pattern).discard
  · refine hright ((safe_expectType (safe_typePhrase hg false true)).bind fun _ => .ite ?_ (.pure _))
    refine fun us hus => .of_legible fun hl => .ahead_bind (.ite (fun h => ?_) fun _ => .pure trivial)
    have hmark := hl.not_startsEnd (Bool.and_eq_true_iff.1 h).1 (by decide)
    exact ready_wrapLast ready_bump us hus hmark
  · exact hright (safe_switchArms hg)
  · exact ready_initializer hg ts hts (hop ‹_›)
  · exact hright (Safe.ahead.bind fun _ => .ite (hg.binary _).discard (.pure _))

variable {op : BinaryOperator}

/-- Behind the first one, all tokens that spell an operator are `>`. -/
theorem textAt_of_greaterOperator? (h : greaterOperator? ts = some op) {k : Nat}
    (hk : k + 1 < op.tokens) : textAt ts (k + 1) = ">" := by
  simp only [greaterOperator?] at h
  split_ifs at h with _ _ hsecond _ hthird
  all_goals cases h
  · exact absurd hk (by simp)
  · rw [Bool.and_eq_true, beq_iff_eq] at hthird
    obtain rfl | rfl : k = 0 ∨ k = 1 := by
      have : k + 1 < 3 := hk
      omega
    · simpa using hsecond
    · exact hthird.2
  · obtain rfl : k = 0 := Nat.lt_one_iff.1 (Nat.succ_lt_succ_iff.1 hk)
    simpa using hsecond
  · exact absurd hk (by simp)

/-- All tokens that spell an operator have a text. -/
theorem textAt_of_binaryOperator? (h : binaryOperator? ts = some op) {k : Nat}
    (hk : k < op.tokens) : textAt ts k ≠ "" := by
  cases k with
  | zero =>
    intro htext
    simp only [binaryOperator?, htext] at h
    split at h <;> simp [plainPrecedence?] at h
  | succ k =>
    simp only [binaryOperator?] at h
    split at h
    case h_1 =>
      split_ifs at h
      · rw [textAt_of_greaterOperator? h hk]
        decide
      · cases h
        exact absurd hk (by simp)
      · obtain ⟨p, -, rfl⟩ := Option.map_eq_some_iff.1 h
        exact absurd hk (by simp)
    case h_4 => cases h
    all_goals
      split_ifs at h
      all_goals
        cases h
        exact absurd hk (by simp)

/-- An operator has at least one token. -/
theorem tokens_ne_zero_of_binaryOperator? (h : binaryOperator? ts = some op) : op.tokens ≠ 0 := by
  simp only [binaryOperator?] at h
  split at h
  case h_1 =>
    split_ifs at h
    · simp only [greaterOperator?] at h
      split_ifs at h <;> cases h <;> decide
    · cases h
      decide
    · obtain ⟨p, -, rfl⟩ := Option.map_eq_some_iff.1 h
      exact Nat.one_ne_zero
  case h_4 => cases h
  all_goals split_ifs at h <;> cases h <;> decide

/-- The tokens that spell an operator are there, and behind `with` there is another one. -/
theorem binaryOperator?_spec (hl : Legible ts) (h : binaryOperator? ts = some op) :
    ∃ k, op.tokens = k + 1 ∧ startsEnd (ts.drop k) = false ∧
      (op.form = .withValues → startsEnd (ts.drop (k + 1)) = false) := by
  obtain ⟨k, hk⟩ := Nat.exists_eq_succ_of_ne_zero (tokens_ne_zero_of_binaryOperator? h)
  have hlast := textAt_of_binaryOperator? h (show k < op.tokens by omega)
  refine ⟨k, hk, hl.not_startsEnd_drop rfl hlast, fun hform => ?_⟩
  obtain ⟨hone, hbrace, -⟩ := binaryOperator?_withValues h hform
  obtain rfl : k = 0 := by omega
  exact hl.not_startsEnd_drop hbrace (by decide)

theorem runs_binaryStep (hg : Able n g) (least : Nat) (hts : ts.length < n) : Runs (do
    match binaryOperator? (← ahead) with
    | none => return false
    | some op =>
      if op.precedence < least then return false
      wrapLast op.form.kind do
        bumpMany op.tokens
        rightSide n g op
      return true) ts (Tries ts) := by
  refine .of_legible fun hl => .ahead_bind ?_
  split
  · exact .tries_none
  · rename_i op hop
    obtain ⟨k, hk, hlast, hvalues⟩ := binaryOperator?_spec hl hop
    refine .ite (fun _ => .tries_none) fun _ => (runs_wrapLast ?_).return_true
    rw [hk]
    exact .bumpMany_next hlast fun hlt => runs_rightSide hg hvalues (by omega)

theorem runs_binary (hg : Able n g) (least : Nat) (hts : ts.length < n) :
    Runs (binary n g least) ts (Tries ts) := by
  refine (runs_unary hg hts).tries_unless fun rest hlt => ?_
  refine (runs_repeatUpTo (fun us hus => runs_binaryStep hg least (by omega)) (by omega)).bind ?_
  exact fun _ _ _ _ => .pure trivial

theorem runs_conditional (hg : Able n g) (hts : ts.length < n) :
    Runs (conditional n g) ts (Tries ts) := by
  refine (runs_binary hg 0 hts).tries_unless fun rest hlt => ?_
  have htail : Safe n (do
      if ← atText "?" then
        wrapLast .conditionalExpression do
          bump
          discard (expectExpression g)
          if ← expect ":" then discard (expectExpression g)
      return true) := by
    refine .ifText (by decide) ((ready_wrapLast ?_).bind fun _ => .pure _) (.pure _)
    refine ready_bump.bind fun _ => (safe_expectExpression hg).discard.bind fun _ => ?_
    exact (safe_expect _).bind fun _ => .ite (safe_expectExpression hg).discard (.pure _)
  exact htail rest (by omega)

/-- The tokens that spell an assignment are there. -/
theorem assignmentOperator?_spec (hl : Legible ts) {kind : NodeKind} {tokens : Nat}
    (h : assignmentOperator? ts = some (kind, tokens)) :
    ∃ k, tokens = k + 1 ∧ startsEnd (ts.drop k) = false := by
  have hsign : ∀ text, text ≠ "" → ∀ k, textAt ts k = text → startsEnd (ts.drop k) = false :=
    fun _ hne k htext => hl.not_startsEnd_drop htext hne
  simp only [assignmentOperator?] at h
  split_ifs at h with hsimple hcompound hgreater hsecond hthird
  all_goals cases h
  · exact ⟨0, rfl, hsign "=" (by decide) 0 (by simpa using hsimple)⟩
  · refine ⟨0, rfl, hsign _ (fun hblank => ?_) 0 rfl⟩
    rw [hblank] at hcompound
    exact absurd hcompound (by decide)
  · exact ⟨1, rfl, hsign ">=" (by decide) 1 (by simpa using hsecond)⟩
  · exact ⟨2, rfl, hsign ">=" (by decide) 2 (beq_iff_eq.1 (Bool.and_eq_true_iff.1 hthird).2)⟩

theorem safe_assignment (hg : Able n g) : Safe n (do
    if let some (kind, tokens) := assignmentOperator? (← ahead) then
      wrapLast kind do
        bumpMany tokens
        if kind == .simpleAssignmentExpression then initialValue n g
        else discard (expectExpression g)
    return true) := by
  refine fun ts hts => .of_legible fun hl => .ahead_bind ?_
  split
  · rename_i kind tokens h
    obtain ⟨k, rfl, hlast⟩ := assignmentOperator?_spec hl h
    refine (runs_wrapLast (.bumpMany_next hlast fun hlt => ?_)).bind fun _ _ _ _ => .pure trivial
    exact Safe.ite (safe_initialValue hg) (safe_expectExpression hg).discard _ (by omega)
  · exact .pure trivial

theorem runs_expression (hg : Able n g) (hts : ts.length < n) :
    Runs (expression n g) ts (Tries ts) := by
  refine (runs_lambda hg hts).tries_or fun rest hle => ?_
  exact (runs_conditional hg (by omega)).tries_unless fun rest' hlt =>
    safe_assignment hg rest' (by omega)

end PluginLint.Grammar
