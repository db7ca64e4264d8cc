import PluginLint.Grammar.Statements
import PluginLint.Proofs.Parsing.Expressions

/-!
# Parsing statements

A statement is one node, or nothing at all is placed. The nodes whose bodies the brace rules look
at get their shapes here.
-/
namespace PluginLint.Grammar

variable {n : Nat} {g : Phrases} {b : Builder}

/-! ### Statements inside statements -/

/-- If there was no problem, there is a statement. -/
theorem yields_embeddedStatement (hg : Sound g) :
    Yields (embeddedStatement g) b fun _ b' new => b'.errors = [] →
      ∃ body, new = [body] ∧ body.HasKind NodeKind.IsStatement :=
  (yields_orReport (hg.statement b)).discard.imp fun _ _ _ _ ⟨_, h⟩ he => h.exists_of_clean he

theorem steady_embeddedStatement (hg : Sound g) : Steady (embeddedStatement g) :=
  fun _ => (yields_embeddedStatement hg).anything

theorem isNode_of_hasKind {K : NodeKind → Prop} {x : Tree} (h : x.HasKind K) : x.isNode = true := by
  cases x with
  | node kind parts => rfl
  | leaf t => cases h

/-- Up to the end of a block nothing but nodes is placed. -/
theorem yields_statementsUntil (hg : Sound g) (stop : List Token → Bool) :
    Yields (statementsUntil n g stop) b (Each fun t => t.isNode = true) := by
  refine each_repeatUpTo (fun b => ?_) n b
  have hstop : ∀ a : Bool, ∀ b,
      Yields (Pure.pure a : Parse Bool) b (Each fun t => t.isNode = true) :=
    fun a b => .pure (by simp [Each])
  refine .ahead_bind (.ite (fun _ => hstop false b) fun _ => ?_)
  refine (hg.statement b).bind fun found b' new _ h => ?_
  cases found with
  | true =>
    obtain ⟨x, rfl, hx⟩ := h
    exact .pure (by simpa [Each] using isNode_of_hasKind hx)
  | false =>
    obtain ⟨rfl, rfl⟩ := h
    refine (yields_skipToken _).bind fun _ b'' new _ h => ?_
    exact .pure (by simpa [Each] using h)

theorem steady_statementsUntil (hg : Sound g) (stop : List Token → Bool) :
    Steady (statementsUntil n g stop) := fun _ => (yields_statementsUntil hg stop).anything

theorem yields_block (hg : Sound g) (hb : startsText b.ahead "\x7b" = true) :
    Yields (block n g) b (One NodeKind.IsStatement) := by
  refine yields_node_of rfl (.of_readable fun hr => ?_)
  have hm : More b := more_of_startsText hr hb (by decide)
  refine (yields_expect_of (b := { b with parts := #[] }) hm hb).discard.bind fun _ b₁ _ _ h => ?_
  obtain ⟨_, opening, rfl, hopening⟩ := h
  refine (yields_statementsUntil hg _).bind fun _ b₂ inner _ hinner => ?_
  refine (yields_expect _).discard.imp fun _ b₃ new _ h => ?_
  obtain ⟨found, h⟩ := h
  refine ⟨⟨List.cons_ne_nil _ _, fun hc => absurd hc (by decide), fun _ =>
    ⟨opening, inner, new, rfl, hopening, hinner, ?_⟩, fun hc => absurd hc (by decide),
    fun hc => absurd hc (by decide)⟩, fun he => ?_⟩
  · cases found with
    | true =>
      obtain ⟨_, rfl, brace, rfl, hbrace⟩ := h
      exact .inr ⟨brace, rfl, hbrace⟩
    | false => exact .inl h.2
  obtain ⟨_, rfl, closing, rfl, hclosing⟩ := h.exists_of_clean he
  refine ⟨?_, ?_, fun _ => ⟨opening, inner, closing, rfl, hopening, hclosing, hinner⟩, ?_⟩
  all_goals intro h; cases h

theorem steady_expectBlock (hg : Sound g) : Steady (expectBlock g) :=
  steady_blockOr hg (steady_report _)

/-! ### Control flow -/

theorem yields_guardedStatement (kind : NodeKind) (hg : Sound g) (hb : More b)
    (hK : NodeKind.IsStatement kind) (hk : kind.isLoose = true) :
    Yields (guardedStatement g kind) b (One NodeKind.IsStatement) := by
  refine yields_headedNode hK hk (yields_bump_headed hb.fresh ?_)
  exact (steady_parenthesizedValue hg).bind fun _ => steady_embeddedStatement hg

theorem yields_elseClause (hg : Sound g) (hb : More b) (hs : startsText b.ahead "else" = true) :
    Yields (node .elseClause do bump; embeddedStatement g) b (One NodeKind.IsInner) := by
  refine yields_node_of rfl (.bump_bind hb.fresh fun b' word hword => ?_)
  refine (yields_embeddedStatement hg).imp fun _ b'' new _ h =>
    ⟨.of_leaf (by decide) (by decide), fun he => ?_⟩
  obtain ⟨body, rfl, hbody⟩ := h he
  have htext : word.text = "else" := by
    have hword : b.ahead = word :: b'.ahead := hword
    simpa [startsText, textAt, nth, hword] using hs
  refine ⟨?_, fun _ => ⟨word, body, rfl, htext, hbody⟩, ?_, ?_⟩
  all_goals intro h; cases h

theorem yields_ifStatement (hg : Sound g) (hb : More b) :
    Yields (ifStatement g) b (One NodeKind.IsStatement) := by
  refine yields_node_of rfl (.bump_bind hb.fresh fun b₁ word hword => ?_)
  refine (yields_parenthesizedValue hg).bind fun _ b₂ new₂ hg₂ h₂ => ?_
  refine (yields_embeddedStatement hg).bind fun _ b₃ new₃ hg₃ h₃ => ?_
  have helse : Yields (do if ← atText "else" then node .elseClause do bump; embeddedStatement g) b₃
      Anything :=
    .atText_bind (by decide) (fun hm hs => (yields_elseClause hg hm hs).anything) fun _ =>
      .pure trivial
  refine helse.imp fun _ b₄ rest hg₄ _ => ⟨.of_leaf (by decide) (by decide), fun he => ?_⟩
  -- Without problems in the end there were none after the condition and after the body.
  have he₃ := hg₄.errors_eq_nil he
  obtain ⟨opening, value, closing, rfl, hvalue, hclosing⟩ := h₂ (hg₃.errors_eq_nil he₃)
  obtain ⟨body, rfl, hbody⟩ := h₃ he₃
  refine ⟨fun _ => ⟨word, opening, value, closing, body, rest, rfl, hclosing, hvalue, hbody⟩,
    ?_, ?_, ?_⟩
  all_goals intro h; cases h

theorem yields_doStatement (hg : Sound g) (hb : More b) :
    Yields (doStatement g) b (One NodeKind.IsStatement) := by
  refine yields_headedNode rfl rfl (yields_bump_headed hb.fresh ?_)
  refine (steady_embeddedStatement hg).bind fun _ => (steady_expect _).discard.bind fun _ => ?_
  exact (steady_parenthesizedValue hg).bind fun _ => (steady_expect _).discard

theorem steady_expressionList (hg : Sound g) : Steady (expressionList n g) :=
  steady_commaSeparated (steady_expectExpression hg) n

theorem yields_forStatement (hg : Sound g) (hb : More b) :
    Yields (forStatement n g) b (One NodeKind.IsStatement) := by
  have hlast : Steady (do discard (expect ")"); embeddedStatement g) :=
    (steady_expect _).discard.bind fun _ => steady_embeddedStatement hg
  have hsteps : Steady (do
      discard (expect ";")
      if !(← atText ")") then expressionList n g
      discard (expect ")")
      embeddedStatement g) :=
    (steady_expect _).discard.bind fun _ => (steady_atText _).bind fun _ =>
      .ite ((steady_expressionList hg).bind fun _ => hlast) hlast
  have hcondition : Steady (do
      discard (expect ";")
      if !(← atText ";") then discard (expectExpression g)
      discard (expect ";")
      if !(← atText ")") then expressionList n g
      discard (expect ")")
      embeddedStatement g) :=
    (steady_expect _).discard.bind fun _ => (steady_atText _).bind fun _ =>
      .ite ((steady_expectExpression hg).discard.bind fun _ => hsteps) hsteps
  refine yields_headedNode rfl rfl (yields_bump_headed hb.fresh ?_)
  refine (steady_expect _).discard.bind fun _ => (steady_atText _).bind fun _ => .ite ?_ hcondition
  refine (steady_look _).bind fun _ => .ite ?_ ((steady_expressionList hg).bind fun _ => hcondition)
  exact (Steady.discard fun _ => (yields_variableDeclaration hg).anything).bind fun _ => hcondition

/-- A `foreach` behind its word. -/
theorem steady_forEachHead (hg : Sound g) : Steady (do
    discard (expect "(")
    discard (expectType (fullType n g))
    if ← atText "(" then discard (expectExpression g) else discard expectIdentifier
    discard (expect "in")
    discard (expectExpression g)
    discard (expect ")")
    embeddedStatement g) := by
  have hlast : Steady (do
      discard (expect "in")
      discard (expectExpression g)
      discard (expect ")")
      embeddedStatement g) :=
    (steady_expect _).discard.bind fun _ => (steady_expectExpression hg).discard.bind fun _ =>
      (steady_expect _).discard.bind fun _ => steady_embeddedStatement hg
  refine (steady_expect _).discard.bind fun _ => (steady_expectType hg true true).discard.bind
    fun _ => (steady_atText _).bind fun _ => .ite ?_ ?_
  · exact (steady_expectExpression hg).discard.bind fun _ => hlast
  · exact steady_expectIdentifier.discard.bind fun _ => hlast

theorem yields_forEachRest (hg : Sound g) (hb : More b) : Yields (forEachRest n g) b Headed :=
  yields_bump_headed hb (steady_forEachHead hg)

/-! ### Jumps -/

/-- The result has a property, and if there was no problem, the last new part is a semicolon. -/
def Terminated (R : α → Prop) : α → Builder → List Tree → Prop := fun a b' new =>
  R a ∧ (b'.errors = [] →
    ∃ inner semicolon, new = inner ++ [.leaf semicolon] ∧ semicolon.text = ";")

theorem yields_semicolon : Yields (discard (expect ";")) b (Terminated fun _ => True) := by
  refine (yields_expect ";").discard.imp fun _ b' new _ h => ⟨trivial, fun he => ?_⟩
  obtain ⟨_, h⟩ := h
  obtain ⟨_, rfl, semicolon, rfl, hsemicolon⟩ := h.exists_of_clean he
  exact ⟨[], semicolon, rfl, hsemicolon⟩

theorem yields_semicolon_return {R : α → Prop} {a : α} (ha : R a) :
    Yields (discard (expect ";") >>= fun _ => pure a) b (Terminated R) :=
  yields_semicolon.bind fun _ _ _ _ h => .pure ⟨ha, by simpa using h.2⟩

theorem Yields.then_terminated {R : β → Prop} {p : Parse α} {f : α → Parse β}
    (hp : Yields p b Anything) (hf : ∀ a b', Yields (f a) b' (Terminated R)) :
    Yields (p >>= f) b (Terminated R) := by
  refine hp.bind fun a b' new _ _ => (hf a b').imp fun _ _ new' _ h => ⟨h.1, fun he => ?_⟩
  obtain ⟨inner, semicolon, rfl, hsemicolon⟩ := h.2 he
  exact ⟨new ++ inner, semicolon, by simp, hsemicolon⟩

theorem yields_jumpStatement (kind : NodeKind) (hg : Sound g) (hb : More b)
    (hword : textAt b.ahead 0 ∈ jumpStarts) (hK : NodeKind.IsStatement kind)
    (hk : Rules.isJump kind = true) :
    Yields (jumpStatement g kind) b (One NodeKind.IsStatement) := by
  refine yields_node_of hK (.bump_bind hb.fresh fun b₁ word hahead => ?_)
  have hend : Yields (do
      if !(← atText ";") then discard (g .expression)
      discard (expect ";")) b₁ (Terminated fun _ => True) := by
    refine (steady_atText _ b₁).then_terminated fun _ b₂ => .ite (fun _ => ?_) fun _ => yields_semicolon
    exact (hg.expression b₂).discard.anything.then_terminated fun _ _ => yields_semicolon
  refine hend.imp fun _ b' new _ h => ⟨.of_leaf (NodeKind.ne_block_of_isJump hk)
    (NodeKind.ne_identifierName_of_isJump hk), fun he => .of_jump hk ?_⟩
  obtain ⟨inner, semicolon, rfl, hsemicolon⟩ := h.2 he
  have htext : word.text = textAt b.ahead 0 := by
    have hahead : b.ahead = word :: b₁.ahead := hahead
    simp [textAt, nth, hahead]
  exact ⟨word, inner, semicolon, rfl, htext ▸ hword, hsemicolon⟩

theorem yields_yieldStatement (hg : Sound g) (hb : More b) (hs : startsText b.ahead "yield" = true) :
    Yields (yieldStatement g) b (One NodeKind.IsStatement) := by
  refine yields_nodeOf ((yields_bumpKeyword hb.fresh).bind fun _ b₁ _ _ h => ?_)
  obtain ⟨word, hahead, rfl⟩ := h
  have hword : word.asKeyword.text ∈ jumpStarts := by
    have hahead : b.ahead = word :: b₁.ahead := hahead
    have htext : word.text = "yield" := by simpa [startsText, textAt, nth, hahead] using hs
    rw [Token.asKeyword_text, htext]
    decide
  refine Yields.imp (Q := Terminated fun kind =>
    kind = .yieldReturnStatement ∨ kind = .yieldBreakStatement) ?_ fun kind b' new _ h => ?_
  · refine (steady_atText _ b₁).then_terminated fun returns b₂ => ?_
    refine (steady_bump b₂).then_terminated fun _ b₃ => .ite (fun hr => ?_) fun hr => ?_
    · refine (steady_expectExpression hg).discard b₃ |>.then_terminated fun _ b₄ => ?_
      exact yields_semicolon_return (.inl (if_pos hr))
    · exact yields_semicolon_return (.inr (if_neg hr))
  · obtain ⟨rfl | rfl, hend⟩ := h
    · exact ⟨rfl, .of_leaf (by decide) (by decide), fun _ => .of_loose rfl⟩
    · refine ⟨rfl, .of_leaf (by decide) (by decide), fun he => .of_jump rfl ?_⟩
      obtain ⟨inner, semicolon, rfl, hsemicolon⟩ := hend he
      exact ⟨word.asKeyword, inner, semicolon, by simp, hword, hsemicolon⟩

theorem yields_gotoStatement (hg : Sound g) (hb : More b) :
    Yields (gotoStatement g) b (One NodeKind.IsStatement) := by
  have hend : Steady (discard (expect ";")) := (steady_expect _).discard
  have hvalue : Steady (do discard (expectExpression g); discard (expect ";")) :=
    (steady_expectExpression hg).discard.bind fun _ => hend
  refine yields_node rfl rfl (yields_bump_then hb.fresh ?_)
  refine (steady_eat _).bind fun _ => .ite hvalue ?_
  exact (steady_eat _).bind fun _ => .ite hvalue hend

/-! ### Other statements -/

theorem steady_variableDeclaration (hg : Sound g) : Steady (variableDeclaration n g) :=
  fun _ => (yields_variableDeclaration hg).anything

/-- A resource is a statement of its own or a declaration. The word may have been placed before. -/
theorem yields_usingRest (hg : Sound g) :
    Yields (usingRest n g) b fun kind _ new =>
      (NodeKind.IsStatement kind ∧ kind.isPlain = true) ∧
        (startsText b.ahead "using" = true → new ≠ []) := by
  have hword : Yields (discard (eat "using")) b fun _ _ new =>
      startsText b.ahead "using" = true → new ≠ [] := by
    refine .of_readable fun hr => ?_
    by_cases hs : startsText b.ahead "using" = true
    · refine (yields_eat_of (more_of_startsText hr hs (by decide)) hs).discard.imp ?_
      rintro _ _ _ _ ⟨_, _, t, rfl, _⟩ _
      simp
    · exact (steady_eat _).discard b |>.imp fun _ _ _ _ _ h => absurd h hs
  have hbody : ∀ b, Yields (do
      discard (expect ")")
      embeddedStatement g
      return NodeKind.usingStatement) b
        (Gives fun kind => NodeKind.IsStatement kind ∧ kind.isPlain = true) :=
    fun b => ((steady_expect _).discard b).gives fun _ b => (steady_embeddedStatement hg b).gives
      fun _ _ => .pure ⟨rfl, rfl⟩
  refine hword.bind fun _ b₁ new₁ _ hne => Yields.imp
    (Q := Gives fun kind => NodeKind.IsStatement kind ∧ kind.isPlain = true) ?_
    fun _ _ _ _ hkind => ⟨hkind, fun hs h => hne hs (List.append_eq_nil_iff.1 h).1⟩
  refine (steady_eat _ b₁).gives fun _ b => .ite (fun _ => ?_) fun _ => ?_
  · refine .look_bind fun _ _ => .ite (fun _ => ?_) fun _ => ?_
    · exact ((steady_variableDeclaration hg).discard b).gives fun _ => hbody
    · exact ((steady_expectExpression hg).discard b).gives fun _ => hbody
  · refine ((steady_orReport (steady_variableDeclaration hg)).discard b).gives fun _ b => ?_
    exact ((steady_expect _).discard b).gives fun _ _ => .pure ⟨rfl, rfl⟩

theorem yields_catchClause (hg : Sound g) (hb : More b) :
    Yields (catchClause n g) b (One NodeKind.IsInner) := by
  have hfilter : Steady (do
      if ← atWord "when" then
        node .catchFilterClause do
          bump
          parenthesizedValue g
      expectBlock g) := by
    refine fun b => .atWord_bind (fun hb => ?_) (steady_expectBlock hg b)
    have hnode : Yields (node .catchFilterClause do bump; parenthesizedValue g) b
        (One NodeKind.IsInner) :=
      yields_node rfl rfl (yields_bump_then hb.fresh (steady_parenthesizedValue hg))
    exact hnode.anything.gives fun _ b' => steady_expectBlock hg b'
  refine yields_node rfl rfl (yields_bump_then hb.fresh ?_)
  refine .atText_bind (by decide) (fun b hb => ?_) hfilter
  have hnode : Yields (node .catchDeclaration do
      bump
      discard (expectType (fullType n g))
      if ← atIdentifier then bump
      discard (expect ")")) b (One NodeKind.IsInner) := by
    refine yields_node rfl rfl (yields_bump_then hb.fresh ?_)
    refine (steady_expectType hg true true).discard.bind fun _ => steady_atIdentifier.bind fun _ => ?_
    exact .ite (steady_bump.bind fun _ => (steady_expect _).discard) (steady_expect _).discard
  exact hnode.anything.gives fun _ b' => hfilter b'

theorem yields_tryStatement (hg : Sound g) (hb : More b) :
    Yields (tryStatement n g) b (One NodeKind.IsStatement) := by
  refine yields_node rfl rfl (yields_bump_then hb.fresh ((steady_expectBlock hg).bind fun _ => ?_))
  refine (steady_repeatUpTo ?_ n).bind fun _ => .atText_bind (by decide) (fun b hb => ?_) (.pure ())
  · refine .atText_bind (by decide) (fun b hb => ?_) (.pure false)
    exact (yields_catchClause hg hb).anything.gives fun _ _ => .pure trivial
  · have hnode : Yields (node .finallyClause do bump; expectBlock g) b (One NodeKind.IsInner) :=
      yields_node rfl rfl (yields_bump_then hb.fresh (steady_expectBlock hg))
    exact hnode.anything

theorem yields_switchLabel (hg : Sound g) (hb : More b) :
    Yields (switchLabel n g) b (One NodeKind.IsInner) := by
  refine .atText_bind (by decide) (fun _ _ => ?_) fun _ => ?_
  · exact yields_node rfl rfl (yields_bump_then hb.fresh steady_bump)
  have hcolon : Steady (discard (expect ":")) := (steady_expect _).discard
  refine yields_node rfl rfl (yields_bump_then hb.fresh ?_)
  refine (steady_orReport fun _ => yields_pattern.anything).discard.bind fun _ => ?_
  refine (steady_atWord _).bind fun _ => .ite (steady_bump.bind fun _ => ?_) hcolon
  exact (steady_expectExpression hg).discard.bind fun _ => hcolon

theorem more_of_startsSwitchLabel (hb : Readable b) (h : startsSwitchLabel b.ahead = true) :
    More b := by
  simp only [startsSwitchLabel, Bool.or_eq_true, Bool.and_eq_true] at h
  rcases h with h | h
  · exact more_of_startsText hb h (by decide)
  · exact more_of_startsText hb h.1 (by decide)

/-- A label and what follows it. -/
theorem yields_switchSection (hg : Sound g) (h : startsSwitchLabel b.ahead = true) :
    Yields (switchSection n g) b (One NodeKind.IsInner) := by
  have hlabel : Steady (do
      if startsSwitchLabel (← ahead) then
        switchLabel n g
        return true
      return false) := by
    refine fun b => .ahead_bind (.ite (fun h => .of_readable fun hr => ?_) fun _ => .pure trivial)
    exact (yields_switchLabel hg (more_of_startsSwitchLabel hr h)).anything.gives
      fun _ _ => .pure trivial
  refine yields_node rfl rfl (.then_steady ?_ fun _ => steady_statementsUntil hg _)
  cases n with
  | zero => exact .panic _
  | succ n =>
  refine .then_steady ?_ fun _ => .ite (steady_repeatUpTo hlabel n) (.pure _)
  refine .ahead_bind (.ite (fun _ => .of_readable fun hr => ?_) fun h' => absurd h h')
  have hm : More { b with parts := #[] } := more_of_startsSwitchLabel hr h
  exact (yields_switchLabel hg hm).something.then_steady fun _ => .pure _

theorem yields_switchStatement (hg : Sound g) (hb : More b) :
    Yields (switchStatement n g) b (One NodeKind.IsStatement) := by
  refine yields_node rfl rfl (yields_bump_then hb.fresh ?_)
  refine (steady_expectExpression hg).discard.bind fun _ => (steady_expect _).bind fun _ => ?_
  refine .ite (Steady.bind ?_ fun _ => (steady_expect _).discard) (.pure _)
  refine steady_repeatUpTo (fun b => .ahead_bind (.ite (fun _ => .pure trivial) fun _ => ?_)) _
  refine .ite (fun h => ?_) fun _ => ((steady_skipToken _).bind (fun _ => .pure true)) b
  exact (yields_switchSection hg h).anything.gives fun _ _ => .pure trivial

theorem yields_fixedStatement (hg : Sound g) (hb : More b) :
    Yields (fixedStatement n g) b (One NodeKind.IsStatement) := by
  refine yields_node rfl rfl (yields_bump_then hb.fresh ((steady_expect _).discard.bind fun _ => ?_))
  refine (steady_orReport (steady_variableDeclaration hg)).discard.bind fun _ => ?_
  exact (steady_expect _).discard.bind fun _ => steady_embeddedStatement hg

theorem yields_blockStatement (kind : NodeKind) (hg : Sound g) (hb : More b)
    (hbrace : textAt b.ahead 1 = "\x7b") (hK : NodeKind.IsStatement kind)
    (hk : kind.isPlain = true) :
    Yields (blockStatement g kind) b (One NodeKind.IsStatement) := by
  refine yields_node hK hk (.bump_something hb.fresh fun b' t ht => ?_)
  have hahead : b.ahead = t :: b'.ahead := ht
  rw [hahead] at hbrace
  exact (hg.block b' (startsText_iff.2 hbrace)).discard.anything

theorem yields_keywordStatement (hg : Sound g) (hb : More b) :
    Yields (keywordStatement n g b.ahead) b (Tried NodeKind.IsStatement b) := by
  unfold keywordStatement
  split
  · exact (yields_ifStatement hg hb).tried_one
  · exact (yields_guardedStatement .whileStatement hg hb rfl rfl).tried_one
  · exact (yields_doStatement hg hb).tried_one
  · exact (yields_forStatement hg hb).tried_one
  · have hnode : Yields (node .forEachStatement (forEachRest n g)) b (One NodeKind.IsStatement) :=
      yields_headedNode rfl rfl (yields_forEachRest hg hb.fresh)
    exact hnode.tried_one
  · exact (yields_jumpStatement .returnStatement hg hb (by simp [*, jumpStarts]) rfl rfl).tried_one
  · exact (yields_jumpStatement .throwStatement hg hb (by simp [*, jumpStarts]) rfl rfl).tried_one
  · exact (yields_jumpStatement .breakStatement hg hb (by simp [*, jumpStarts]) rfl rfl).tried_one
  · exact (yields_jumpStatement .continueStatement hg hb (by simp [*, jumpStarts]) rfl rfl).tried_one
  · exact (yields_gotoStatement hg hb).tried_one
  · exact (yields_tryStatement hg hb).tried_one
  · exact (yields_guardedStatement .lockStatement hg hb rfl rfl).tried_one
  · exact (yields_switchStatement hg hb).tried_one
  · refine .ite (fun h => ?_) fun _ => .tried_none
    exact (yields_blockStatement .checkedStatement hg hb (by simpa using h) rfl rfl).tried_one
  · refine .ite (fun h => ?_) fun _ => .tried_none
    exact (yields_blockStatement .checkedStatement hg hb (by simpa using h) rfl rfl).tried_one
  · refine .ite (fun h => ?_) fun _ => .tried_none
    exact (yields_blockStatement .unsafeStatement hg hb (by simpa using h) rfl rfl).tried_one
  · exact (yields_fixedStatement hg hb).tried_one
  · have hnode : Yields (nodeOf (usingRest n g)) b (One NodeKind.IsStatement) := by
      refine yields_nodeOf ((yields_usingRest hg).imp ?_)
      rintro kind _ new - ⟨⟨hK, hk⟩, hne⟩
      exact ⟨hK, .of_plain hk (hne (startsText_iff.2 ‹_›))⟩
    exact hnode.tried_one
  · exact .tried_none

theorem yields_localFunctionRest (hg : Sound g) : Yields (localFunctionRest n g) b Something := by
  have hrest : Steady (do
      optionalTypeParameters n
      expectParameterList n g
      constraintClauses n g
      memberBody g) :=
    steady_optionalTypeParameters.bind fun _ => (steady_expectParameterList hg).bind fun _ =>
      (steady_constraintClauses hg).bind fun _ => steady_memberBody hg
  exact yields_seenType_then hg (steady_bump.bind fun _ => hrest)

theorem yields_localDeclaration (hg : Sound g) :
    Yields (localDeclaration n g) b (Tried NodeKind.IsStatement b) := by
  refine .of_readable fun hr => .ahead_bind (.ite (fun _ => .tried_none) fun _ =>
    .orPanic_bind fun _ hfunction => .ite (fun h => ?_) fun _ =>
    .orPanic_bind fun _ hvariables => .ite (fun h => ?_) fun _ => .tried_none)
  · have hm := not_startsEnd_of_startsDeclaration hr (h ▸ hfunction)
    exact yields_foundNode rfl rfl (yields_bumpKeywords_then hm fun b' _ _ => yields_localFunctionRest hg)
  · have hm := not_startsEnd_of_startsDeclaration hr (h ▸ hvariables)
    refine yields_foundNode rfl rfl (yields_bumpKeywords_then hm fun b' _ _ => ?_)
    exact .then_steady (yields_orGiveUp (yields_variableDeclaration hg)).something
      fun _ => (steady_expect _).discard

theorem yields_expressionStatement (hg : Sound g) :
    Yields (expressionStatement n g) b (Tried NodeKind.IsStatement b) := by
  refine (yields_expression hg).tried_rewrap rfl fun b' => ?_
  exact .wrapLast_return rfl rfl rfl fun b' _ => (steady_expect _).discard b'

theorem yields_wordStatement (hg : Sound g) (hb : More b) :
    Yields (wordStatement n g b.ahead) b (Tried NodeKind.IsStatement b) := by
  unfold wordStatement
  refine .ite (fun h => ?_) fun _ => .ite (fun h => ?_) fun _ => .ite (fun h => ?_) fun _ =>
    .ite (fun h => ?_) fun _ => .tried_none
  · exact (yields_yieldStatement hg hb (Bool.and_eq_true_iff.1 h).1).tried_one
  · have hnode : Yields (node .forEachStatement do bumpKeyword; forEachRest n g) b
        (One NodeKind.IsStatement) :=
      yields_headedNode rfl rfl (yields_bumpKeyword_headed hb.fresh
        (steady_bump.bind fun _ => steady_forEachHead hg))
    exact hnode.tried_one
  · have hnode : Yields (nodeOf do bumpKeyword; bump; usingRest n g) b
        (One NodeKind.IsStatement) := by
      refine yields_nodeOf ((yields_bumpKeyword hb.fresh).took_something.bind
        fun _ b₁ new₁ _ hne => ?_)
      refine (steady_bump b₁).bind fun _ b₂ new₂ _ _ => (yields_usingRest hg).imp ?_
      rintro kind _ new₃ - ⟨⟨hK, hk⟩, -⟩
      exact ⟨hK, .of_plain hk fun h => hne (List.append_eq_nil_iff.1 h).1⟩
    exact hnode.tried_one
  · refine yields_foundNode rfl rfl (yields_bump_then hb.fresh (steady_bump.bind fun _ => ?_))
    exact steady_embeddedStatement hg

theorem yields_knownStatement (hg : Sound g) :
    Yields (knownStatement n g) b (Tried NodeKind.IsStatement b) := by
  refine .upcoming_bind ?_
  split
  · rename_i hk
    have hb : More b := more_of_kindAt (by simp [hk])
    refine .ite (fun h => (yields_block hg h).tried_one) fun _ => ?_
    refine .ite (fun _ => ?_) fun _ => .tried_none
    exact yields_foundNode rfl rfl (yields_bump hb.fresh).took_something
  · rename_i hk
    exact yields_keywordStatement hg (more_of_kindAt (by simp [hk]))
  · rename_i hk
    exact yields_wordStatement hg (more_of_kindAt (by simp [hk]))
  · exact .tried_none

theorem yields_statement (hg : Sound g) :
    Yields (statement n g) b (Tried NodeKind.IsStatement b) :=
  (yields_knownStatement hg).tried_or
    ((yields_localDeclaration hg).tried_or (yields_expressionStatement hg))

end PluginLint.Grammar
