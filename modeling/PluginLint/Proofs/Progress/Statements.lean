import PluginLint.Proofs.Parsing.Statements
import PluginLint.Proofs.Progress.Expressions

/-!
# Statements do not panic

A statement looks for the phrases inside it behind a token of its own. Where statements follow one
another, what is no statement is set aside, so that each round takes a token.
-/
namespace PluginLint.Grammar

variable {n : Nat} {g : Phrases} {ts : List Token}

theorem safe_embeddedStatement (hg : Able n g) : Safe n (embeddedStatement g) :=
  (safe_orReport hg.statement).discard

theorem safe_statementsUntil (hg : Able n g) (stop : List Token → Bool) :
    Safe n (statementsUntil n g stop) := by
  refine safe_repeatUpTo fun ts hts => .ahead_bind (.ite (fun _ => .tries_none) fun h => ?_)
  exact runs_orSkip (hg.runs_statement hts) (not_startsEnd_of_goesOn h)

theorem runs_block (hg : Able n g) (hopen : startsText ts "\x7b" = true) (hts : ts.length < n) :
    Runs (block n g) ts Any := by
  refine runs_node ((runs_expect_of hopen (by decide)).discard.bind fun _ rest _ hexpect => ?_)
  obtain ⟨_, hlt⟩ := hexpect
  have hrest : Safe n (do
      statementsUntil n g fun ts => startsText ts "\x7d"
      discard (expect "\x7d")) :=
    (safe_statementsUntil hg _).bind fun _ => (safe_expect _).discard
  exact hrest rest (Nat.lt_of_le_of_lt hlt hts)

theorem safe_expectBlock (hg : Able n g) : Safe n (expectBlock g) := safe_blockOr hg (safe_report _)

theorem runs_guardedStatement (kind : NodeKind) (hg : Able n g) (h : startsEnd ts = false)
    (hts : ts.length < n) : Runs (guardedStatement g kind) ts (Shorter ts) :=
  runs_node (.bump_then h hts ((safe_parenthesizedValue hg).bind fun _ => safe_embeddedStatement hg))

theorem runs_ifStatement (hg : Able n g) (h : startsEnd ts = false) (hts : ts.length < n) :
    Runs (ifStatement g) ts (Shorter ts) := by
  refine runs_node (.bump_then h hts ((safe_parenthesizedValue hg).bind fun _ => ?_))
  refine (safe_embeddedStatement hg).bind fun _ => .ifText (by decide) ?_ (.pure _)
  exact ready_node (ready_bump.bind fun _ => safe_embeddedStatement hg)

theorem runs_doStatement (hg : Able n g) (h : startsEnd ts = false) (hts : ts.length < n) :
    Runs (doStatement g) ts (Shorter ts) := by
  refine runs_node (.bump_then h hts ((safe_embeddedStatement hg).bind fun _ => ?_))
  refine (safe_expect _).discard.bind fun _ => (safe_parenthesizedValue hg).bind fun _ => ?_
  exact (safe_expect _).discard

theorem safe_expressionList (hg : Able n g) : Safe n (expressionList n g) :=
  safe_commaSeparated (safe_expectExpression hg)

theorem runs_forStatement (hg : Able n g) (h : startsEnd ts = false) (hts : ts.length < n) :
    Runs (forStatement n g) ts (Shorter ts) := by
  have hbody : Safe n (do
      discard (expect ")")
      embeddedStatement g) :=
    (safe_expect _).discard.bind fun _ => safe_embeddedStatement hg
  have hsteps : Safe n (do
      discard (expect ";")
      if !(← atText ")") then expressionList n g
      discard (expect ")")
      embeddedStatement g) := by
    refine (safe_expect _).discard.bind fun _ => (Safe.atText _).bind fun _ => .ite ?_ hbody
    exact (safe_expressionList hg).bind fun _ => hbody
  have hguard : Safe n (do
      discard (expect ";")
      if !(← atText ";") then discard (expectExpression g)
      discard (expect ";")
      if !(← atText ")") then expressionList n g
      discard (expect ")")
      embeddedStatement g) := by
    refine (safe_expect _).discard.bind fun _ => (Safe.atText _).bind fun _ => .ite ?_ hsteps
    exact (safe_expectExpression hg).discard.bind fun _ => hsteps
  refine runs_node (.bump_then h hts ((safe_expect _).discard.bind fun _ => ?_))
  refine (Safe.atText _).bind fun _ => .ite ?_ hguard
  refine (Safe.look fun _ hus => answers_startsDeclaration _ hus).bind fun _ => .ite ?_ ?_
  · exact (safe_variableDeclaration hg).discard.bind fun _ => hguard
  · exact (safe_expressionList hg).bind fun _ => hguard

theorem safe_forEachTail (hg : Able n g) : Safe n (do
    discard (expect "(")
    discard (expectType (fullType n g))
    if ← atText "(" then discard (expectExpression g) else discard expectIdentifier
    discard (expect "in")
    discard (expectExpression g)
    discard (expect ")")
    embeddedStatement g) := by
  have htail : Safe n (do
      discard (expect "in")
      discard (expectExpression g)
      discard (expect ")")
      embeddedStatement g) := by
    refine (safe_expect _).discard.bind fun _ => (safe_expectExpression hg).discard.bind fun _ => ?_
    exact (safe_expect _).discard.bind fun _ => safe_embeddedStatement hg
  refine (safe_expect _).discard.bind fun _ => (safe_expectFullType hg).discard.bind fun _ => ?_
  refine (Safe.atText _).bind fun _ => .ite ?_ ?_
  · exact (safe_expectExpression hg).discard.bind fun _ => htail
  · exact safe_expectIdentifier.discard.bind fun _ => htail

theorem runs_forEachRest (hg : Able n g) (h : startsEnd ts = false) (hts : ts.length < n) :
    Runs (forEachRest n g) ts (Shorter ts) := .bump_then h hts (safe_forEachTail hg)

theorem ready_forEachRest (hg : Able n g) : Ready n (forEachRest n g) :=
  ready_bump.bind fun _ => safe_forEachTail hg

theorem runs_jumpStatement (kind : NodeKind) (hg : Able n g) (h : startsEnd ts = false)
    (hts : ts.length < n) : Runs (jumpStatement g kind) ts (Shorter ts) := by
  refine runs_node (.bump_then h hts ((Safe.atText _).bind fun _ => .ite ?_ (safe_expect _).discard))
  exact hg.expression.discard.bind fun _ => (safe_expect _).discard

theorem runs_yieldStatement (hg : Able n g) (h : startsEnd (ts.drop 1) = false)
    (hts : ts.length < n) : Runs (yieldStatement g) ts (Shorter ts) := by
  refine runs_nodeOf (.bumpKeyword_ready h hts fun us hus he => .seeText_bind ?_)
  refine (ready_bump.bind fun _ => ?_) us hus he
  refine .ite ?_ ((safe_expect _).discard.bind fun _ => .pure _)
  exact (safe_expectExpression hg).discard.bind fun _ => (safe_expect _).discard.bind fun _ => .pure _

theorem runs_gotoStatement (hg : Able n g) (h : startsEnd ts = false) (hts : ts.length < n) :
    Runs (gotoStatement g) ts (Shorter ts) := by
  have hvalue : Safe n (do discard (expectExpression g); discard (expect ";")) :=
    (safe_expectExpression hg).discard.bind fun _ => (safe_expect _).discard
  refine runs_node (.bump_then h hts ((safe_eat _).bind fun _ => .ite hvalue ?_))
  exact (safe_eat _).bind fun _ => .ite hvalue (safe_expect _).discard

theorem safe_usingTail (hg : Able n g) : Safe n (do
    if ← eat "(" then
      if ← look (startsDeclaration n ["="]) then discard (variableDeclaration n g)
      else discard (expectExpression g)
      discard (expect ")")
      embeddedStatement g
      return NodeKind.usingStatement
    discard (orReport (variableDeclaration n g) "expected declaration")
    discard (expect ";")
    return .localDeclarationStatement) := by
  have hbody : Safe n (do
      discard (expect ")")
      embeddedStatement g
      return NodeKind.usingStatement) :=
    (safe_expect _).discard.bind fun _ => (safe_embeddedStatement hg).bind fun _ => .pure _
  refine (safe_eat _).bind fun _ => .ite ?_ ?_
  · refine (Safe.look fun _ hus => answers_startsDeclaration _ hus).bind fun _ => .ite ?_ ?_
    · exact (safe_variableDeclaration hg).discard.bind fun _ => hbody
    · exact (safe_expectExpression hg).discard.bind fun _ => hbody
  · refine (safe_orReport (safe_variableDeclaration hg)).discard.bind fun _ => ?_
    exact (safe_expect _).discard.bind fun _ => .pure _

theorem runs_usingRest (hg : Able n g) (h : startsText ts "using" = true) (hts : ts.length < n) :
    Runs (usingRest n g) ts (Shorter ts) := by
  have heat : Runs (discard (eat "using")) ts (Shorter ts) :=
    (runs_eat_of h (by decide)).bind_shorter fun _ _ _ => .pure trivial
  exact heat.bind_shorter fun _ rest hlt => safe_usingTail hg rest (by omega)

theorem safe_usingRest (hg : Able n g) : Safe n (usingRest n g) :=
  (safe_eat _).discard.bind fun _ => safe_usingTail hg

theorem runs_catchClause (hg : Able n g) (h : startsEnd ts = false) (hts : ts.length < n) :
    Runs (catchClause n g) ts (Shorter ts) := by
  have hfilter : Safe n (do
      if ← atWord "when" then
        node .catchFilterClause do
          bump
          parenthesizedValue g
      expectBlock g) := by
    refine .ifWord ?_ (safe_expectBlock hg)
    refine (ready_node (ready_bump.bind fun _ => safe_parenthesizedValue hg)).bind fun _ => ?_
    exact safe_expectBlock hg
  refine runs_node (.bump_then h hts (.ifText (by decide) ?_ hfilter))
  refine (ready_node (ready_bump.bind fun _ => (safe_expectFullType hg).discard.bind fun _ => ?_)).bind
    fun _ => hfilter
  refine .ifIdentifier ?_ (safe_expect _).discard
  exact ready_bump.bind fun _ => (safe_expect _).discard

theorem runs_tryStatement (hg : Able n g) (h : startsEnd ts = false) (hts : ts.length < n) :
    Runs (tryStatement n g) ts (Shorter ts) := by
  have hcatches : Safe n (repeatUpTo n do
      if ← atText "catch" then
        catchClause n g
        return true
      return false) := by
    refine safe_repeatUpTo fun us hus => .of_legible fun hl => .atText_bind (fun hcatch => ?_) .tries_none
    exact (runs_catchClause hg (hl.not_startsEnd hcatch (by decide)) (by omega)).return_true
  refine runs_node (.bump_then h hts ((safe_expectBlock hg).bind fun _ => hcatches.bind fun _ => ?_))
  refine .ifText (by decide) ?_ (.pure _)
  exact ready_node (ready_bump.bind fun _ => safe_expectBlock hg)

theorem not_startsEnd_of_switchLabel (hl : Legible ts) (h : startsSwitchLabel ts = true) :
    startsEnd ts = false :=
  more_of_startsSwitchLabel (b := { ahead := ts }) hl.ended h

/-- Behind `default` there is a colon. -/
theorem textAt_of_switchLabel (h : startsSwitchLabel ts = true)
    (hdefault : startsText ts "default" = true) : textAt ts 1 = ":" := by
  have hcase : startsText ts "case" = false := by
    rw [startsText, startsText_iff.1 hdefault]
    decide
  rw [startsSwitchLabel, hcase, Bool.false_or, Bool.and_eq_true] at h
  exact beq_iff_eq.1 h.2

theorem runs_switchLabel (hg : Able n g) (h : startsSwitchLabel ts = true) (hts : ts.length < n) :
    Runs (switchLabel n g) ts (Shorter ts) := by
  refine .of_legible fun hl => .atText_bind (fun hdefault => ?_) ?_
  · have hcolon := hl.not_startsEnd_drop (textAt_of_switchLabel h hdefault) (by decide)
    exact runs_node (.bump_ready hcolon hts ready_bump)
  refine runs_node (.bump_then (not_startsEnd_of_switchLabel hl h) hts ?_)
  refine (safe_orReport safe_pattern).discard.bind fun _ => .ifWord ?_ (safe_expect _).discard
  refine ready_bump.bind fun _ => (safe_expectExpression hg).discard.bind fun _ => ?_
  exact (safe_expect _).discard

theorem runs_switchSection (hg : Able n g) (h : startsSwitchLabel ts = true)
    (hts : ts.length + 1 < n) : Runs (switchSection n g) ts (Shorter ts) := by
  have hsection : Safe n (switchSection n g) := by
    refine safe_node ((safe_repeatUpTo fun us hus => .ahead_bind (.ite (fun hlabel => ?_) fun _ =>
      .tries_none)).bind fun _ => safe_statementsUntil hg _)
    exact (runs_switchLabel hg hlabel (by omega)).return_true
  refine (hsection ts hts).shorter fun b hb => ?_
  exact (yields_switchSection hg.sound (by rwa [hb])).something

theorem runs_switchStatement (hg : Able n g) (h : startsEnd ts = false) (hts : ts.length < n) :
    Runs (switchStatement n g) ts (Shorter ts) := by
  refine runs_node (.bump_then h hts ((safe_expectExpression hg).discard.bind fun _ => ?_))
  refine (safe_expect _).bind fun _ => .ite ?_ (.pure _)
  refine (safe_repeatUpTo fun us hus => .ahead_bind (.ite (fun _ => .tries_none) fun h => ?_)).bind
    fun _ => (safe_expect _).discard
  have he : startsEnd us = false := not_startsEnd_of_goesOn h
  refine .ite (fun hlabel => (runs_switchSection hg hlabel hus).return_true) fun _ => ?_
  exact (runs_skipToken _ he).return_true

theorem runs_fixedStatement (hg : Able n g) (h : startsEnd ts = false) (hts : ts.length < n) :
    Runs (fixedStatement n g) ts (Shorter ts) := by
  refine runs_node (.bump_then h hts ((safe_expect _).discard.bind fun _ => ?_))
  refine (safe_orReport (safe_variableDeclaration hg)).discard.bind fun _ => ?_
  exact (safe_expect _).discard.bind fun _ => safe_embeddedStatement hg

/-- The brace of the block comes right behind the keyword. -/
theorem runs_blockStatement (kind : NodeKind) (hg : Able n g) (h : startsEnd ts = false)
    (hbrace : textAt ts 1 = "\x7b") (hts : ts.length < n) :
    Runs (blockStatement g kind) ts Any := by
  refine runs_node (.place_bind h fun hlt => ?_)
  exact (hg.block _ (by omega) (startsText_iff.2 (by rw [textAt_drop]; exact hbrace))).discard.any

theorem runs_keywordStatement (hg : Able n g) (h : startsEnd ts = false) (hts : ts.length < n) :
    Runs (keywordStatement n g ts) ts Any := by
  have hfound : ∀ {p : Parse Unit} {Q : Unit → List Token → Prop}, Runs p ts Q →
      Runs (p >>= fun _ => pure true) ts Any := fun hp => hp.bind fun _ _ _ _ => .pure trivial
  unfold keywordStatement
  split
  · exact hfound (runs_ifStatement hg h hts)
  · exact hfound (runs_guardedStatement _ hg h hts)
  · exact hfound (runs_doStatement hg h hts)
  · exact hfound (runs_forStatement hg h hts)
  · exact hfound (runs_node (runs_forEachRest hg h hts))
  · exact hfound (runs_jumpStatement _ hg h hts)
  · exact hfound (runs_jumpStatement _ hg h hts)
  · exact hfound (runs_jumpStatement _ hg h hts)
  · exact hfound (runs_jumpStatement _ hg h hts)
  · exact hfound (runs_gotoStatement hg h hts)
  · exact hfound (runs_tryStatement hg h hts)
  · exact hfound (runs_guardedStatement _ hg h hts)
  · exact hfound (runs_switchStatement hg h hts)
  · refine .ite (fun hbrace => ?_) fun _ => .pure trivial
    exact hfound (runs_blockStatement _ hg h (by simpa using hbrace) hts)
  · refine .ite (fun hbrace => ?_) fun _ => .pure trivial
    exact hfound (runs_blockStatement _ hg h (by simpa using hbrace) hts)
  · refine .ite (fun hbrace => ?_) fun _ => .pure trivial
    exact hfound (runs_blockStatement _ hg h (by simpa using hbrace) hts)
  · exact hfound (runs_fixedStatement hg h hts)
  · rename_i husing
    exact hfound (runs_nodeOf (runs_usingRest hg (startsText_iff.2 husing) hts))
  · exact .pure trivial

/-- The type of a local function has been followed up to its name. -/
theorem runs_localFunctionRest {follow : List String} (hg : Able n g)
    (h : startsDeclaration n follow ts = .ok true) (hts : ts.length < n) :
    Runs (localFunctionRest n g) ts Any := by
  have hrest : Ready (n + 1) (do
      bump
      optionalTypeParameters n
      expectParameterList n g
      constraintClauses n g
      memberBody g) := by
    refine fun us hus he => Runs.any (.bump_then (n := n) he (by omega) ?_)
    refine safe_optionalTypeParameters.bind fun _ => (safe_expectParameterList hg).bind fun _ => ?_
    exact (safe_constraintClauses hg).bind fun _ => safe_memberBody hg
  exact (runs_declaredType hg h hts).bind fun _ rest hle hname =>
    hrest rest (by omega) (not_startsEnd_of_identifier hname)

theorem runs_localDeclaration (hg : Able n g) (hts : ts.length < n) :
    Runs (localDeclaration n g) ts Any := by
  refine .of_legible fun hl => .ahead_bind (.ite (fun _ => .pure trivial) fun _ => ?_)
  set k := localModifierCount ts
  have hle := length_drop_le ts k
  have hdeclares : ∀ follow, Answers (startsDeclaration n follow (ts.drop k)) :=
    fun follow => answers_startsDeclaration follow (by omega)
  have hend : ∀ {follow}, startsDeclaration n follow (ts.drop k) = .ok true →
      startsEnd (ts.drop k) = false :=
    fun h => not_startsEnd_of_startsDeclaration (b := { ahead := ts }) hl.ended h
  refine .orPanic_bind (hdeclares _) fun function hfunction => .ite (fun h => ?_) fun _ => ?_
  · rw [h] at hfunction
    refine (runs_node (.bumpKeywords_bind (hend hfunction) ?_)).bind fun _ _ _ _ => .pure trivial
    exact runs_localFunctionRest hg hfunction (by omega)
  refine .orPanic_bind (hdeclares _) fun local' hlocal => .ite (fun h => ?_) fun _ => .pure trivial
  rw [h] at hlocal
  refine (runs_node (.bumpKeywords_bind (hend hlocal) ?_)).bind fun _ _ _ _ => .pure trivial
  exact (runs_followedDeclaration hg hlocal (by omega)).bind fun _ _ _ _ =>
    (runs_expect _).discard.any

theorem runs_expressionStatement (hg : Able n g) (hts : ts.length < n) :
    Runs (expressionStatement n g) ts Any := by
  refine (runs_expression hg hts).bind fun _ _ _ _ => .ite (fun _ => ?_) fun _ => .pure trivial
  exact (runs_wrapLast (runs_expect _).discard).bind fun _ _ _ _ => .pure trivial

theorem runs_wordStatement (hg : Able n g) (hts : ts.length < n) :
    Runs (wordStatement n g ts) ts Any := by
  have hfound : ∀ {p : Parse Unit} {Q : Unit → List Token → Prop}, Runs p ts Q →
      Runs (p >>= fun _ => pure true) ts Any := fun hp => hp.bind fun _ _ _ _ => .pure trivial
  refine .of_legible fun hl => ?_
  have hnext : ∀ text, textAt ts 1 = text → text ≠ "" → startsEnd (ts.drop 1) = false :=
    fun _ htext hne => hl.not_startsEnd_drop htext hne
  refine .ite (fun hyield => ?_) fun _ => .ite (fun hforeach => ?_) fun _ => .ite (fun husing => ?_)
    fun _ => .ite (fun hlabel => ?_) fun _ => .pure trivial
  · refine hfound (runs_yieldStatement hg ?_ hts)
    rw [Bool.and_eq_true, Bool.or_eq_true, beq_iff_eq, beq_iff_eq] at hyield
    rcases hyield.2 with hjump | hjump
    · exact hnext _ hjump (by decide)
    · exact hnext _ hjump (by decide)
  · have he := hnext _ (beq_iff_eq.1 (Bool.and_eq_true_iff.1 hforeach).2) (by decide)
    exact hfound (runs_node (.bumpKeyword_ready he hts (ready_forEachRest hg)))
  · have he := hnext _ (beq_iff_eq.1 (Bool.and_eq_true_iff.1 husing).2) (by decide)
    refine hfound (runs_nodeOf (.bumpKeyword_ready he hts ?_))
    exact ready_bump.bind fun _ => safe_usingRest hg
  · have he := hnext _ (beq_iff_eq.1 hlabel) (by decide)
    refine hfound (runs_node (.bump_ready he hts ?_))
    exact ready_bump.bind fun _ => safe_embeddedStatement hg

theorem runs_knownStatement (hg : Able n g) (hts : ts.length < n) :
    Runs (knownStatement n g) ts Any := by
  refine .of_legible fun hl => .upcoming_bind ?_
  split
  · refine .ite (fun hopen => ?_) fun _ => .ite (fun hsemi => ?_) fun _ => .pure trivial
    · exact (runs_block hg hopen hts).bind fun _ _ _ _ => .pure trivial
    · refine (runs_node (runs_bump ?_)).bind fun _ _ _ _ => .pure trivial
      exact hl.not_startsEnd hsemi (by decide)
  · rename_i hk
    exact runs_keywordStatement hg (not_startsEnd_of_kind (by simp [hk])) hts
  · exact runs_wordStatement hg hts
  · exact .pure trivial

theorem runs_statement (hg : Able n g) (hts : ts.length < n) : Runs (statement n g) ts (Tries ts) := by
  have hruns : Runs (statement n g) ts Any := by
    refine (runs_knownStatement hg hts).bind fun _ rest hle _ =>
      .ite (fun _ => .pure trivial) fun _ => ?_
    refine (runs_localDeclaration hg (by omega)).bind fun _ rest' hle' _ =>
      .ite (fun _ => .pure trivial) fun _ => ?_
    exact runs_expressionStatement hg (by omega)
  exact hruns.tries fun b _ => yields_statement hg.sound

end PluginLint.Grammar
