import PluginLint.Proofs.Parsing.Lists
import PluginLint.Proofs.Progress.Types

/-!
# Lists inside phrases do not panic

The loops over items end because each item is followed by a token that has to be there, or takes one
itself. The counts of brackets in attributes and patterns stay above zero: attributes are entered at
an opening bracket, and outside all brackets a closing one ends a pattern.
-/
namespace PluginLint.Grammar

variable {n : Nat} {g : Phrases} {ts : List Token}

/-! ### Attributes and patterns -/

/-- Attributes end where their first bracket is closed, so the count never falls below zero. -/
theorem runs_attributeTokens {depth : Nat} (hd : 0 < depth ∨ startsText ts "[" = true)
    (hts : ts.length < n) : Runs (attributeTokens n depth) ts Any := by
  induction n generalizing depth ts with
  | zero => omega
  | succ n ih =>
    refine .atEnd_bind (runs_report _).any fun he => ?_
    have hcount : Answers (depthBehind ["["] ["]"] depth (nth ts 0)) := by
      rcases hd with hd | hopen
      · exact settles_depthBehind _ _ hd _
      · refine (settles_depthBehind_opening ?_).imp fun _ _ => trivial
        simpa [startsText_iff, textAt] using hopen
    refine .look_bind hcount fun depth' _ => (runs_bump he).bind fun _ rest _ hlt => ?_
    refine .ite (fun h => ih (.inl ?_) ?_) fun _ => .pure trivial
    · exact Nat.pos_of_ne_zero (by simpa using h)
    · exact Nat.lt_of_lt_of_le hlt (by omega)

theorem runs_attributeList (hopen : startsText ts "[" = true) (hts : ts.length < n) :
    Runs (attributeList n) ts (Shorter ts) := by
  refine .of_legible fun hl => ?_
  have hnode : Runs (attributeList n) ts Any := runs_node (runs_attributeTokens (.inr hopen) hts)
  refine hnode.shorter fun b hb => (yields_attributeList ?_).something
  rw [More, hb]
  exact hl.not_startsEnd hopen (by decide)

theorem runs_attributeLists (hts : ts.length < n) : Runs (attributeLists n) ts Any :=
  runs_repeatUpTo (fun _ hus => .atText_bind (fun h =>
    (runs_attributeList h (by omega)).return_true) .tries_none) hts

theorem safe_attributeLists : Safe n (attributeLists n) :=
  .of_runs (Q := fun _ => Any) fun _ hts => runs_attributeLists hts

/-- Outside all brackets a closing one would have ended the pattern. -/
theorem answers_patternDepth (hl : Legible ts) {depth : Nat}
    (h : ¬((nth ts 0).isEnd || (depth == 0 && endsPattern (nth ts 0))) = true) :
    Answers (depthBehind ["(", "[", "\x7b"] [")", "]", "\x7d"] depth (nth ts 0)) := by
  cases depth with
  | succ depth => exact settles_depthBehind _ _ (Nat.succ_pos depth) _
  | zero =>
    refine .ite (fun _ => .ok trivial) fun _ => .ite (fun hclose => ?_) fun _ => .ok trivial
    refine absurd ?_ h
    have htext : (nth ts 0).text ∈ Lexer.closingBrackets := by
      simpa [Lexer.closingBrackets] using hclose
    obtain ⟨t, rest, rfl⟩ := List.exists_cons_of_ne_nil hl.ne_nil
    have hkind : t.kind = .punct :=
      hl.marks t List.mem_cons_self (List.mem_append_left _ htext)
    simp only [Lexer.closingBrackets, nth, List.getD_cons_zero, List.mem_cons, List.not_mem_nil,
      or_false] at htext ⊢
    rcases htext with htext | htext | htext <;> simp [endsPattern, hkind, htext]

theorem runs_patternTokens {depth : Nat} (hts : ts.length < n) :
    Runs (patternTokens n depth) ts Any := by
  induction n generalizing depth ts with
  | zero => omega
  | succ n ih =>
    refine .of_legible fun hl => .upcoming_bind (.ite (fun _ => .pure trivial) fun h => ?_)
    have he : startsEnd ts = false := not_startsEnd_of_goesOn h
    refine .orPanic_bind (answers_patternDepth hl h) fun depth' _ => ?_
    exact (runs_bump he).bind fun _ rest _ hlt => ih (Nat.lt_of_lt_of_le hlt (by omega))

theorem safe_pattern : Safe n (pattern n) :=
  safe_nodeUnlessBlank (.of_runs (Q := fun _ => Any) fun _ hts => runs_patternTokens hts)

/-! ### Arguments -/

theorem exists_of_startsDeclaration {follow : List String}
    (h : startsDeclaration n follow ts = .ok true) :
    ∃ rest, skipType n ts = .ok (some rest) ∧ startsIdentifier rest = true := by
  obtain ⟨found, htype, h⟩ := exists_ok_of_bind h
  cases found with
  | none => cases h
  | some rest =>
    simp only [pure, Except.pure, Except.ok.injEq, Bool.and_eq_true] at h
    exact ⟨rest, htype, h.1⟩

/-- Behind the type of a declaration stands a name. -/
theorem runs_declaredType {follow : List String} (hg : Able n g)
    (h : startsDeclaration n follow ts = .ok true) (hts : ts.length < n) :
    Runs (orGiveUp (fullType n g)) ts fun _ rest => startsIdentifier rest = true := by
  obtain ⟨rest, htype, hname⟩ := exists_of_startsDeclaration h
  exact (runs_followedType hg htype hts).imp fun _ _ _ hrest => hrest ▸ hname

theorem safe_declarationExpression (hg : Able n g) (typed : Bool) :
    Safe n (declarationExpression n g typed) := by
  refine fun ts hts => .look_bind (answers_startsDeclaration _ (by omega)) fun found hfound => ?_
  refine .see_bind (s := fun ts => startsWord ts "var") (fun _ => rfl) ?_
  refine .ite (fun h => ?_) fun _ => .pure trivial
  have hdeclares : startsDeclaration n [",", ")"] ts = .ok true :=
    (Bool.and_eq_true_iff.1 h).1 ▸ hfound
  have hnode : Runs (node .declarationExpression do orGiveUp (fullType n g); bump) ts Any :=
    runs_node ((runs_declaredType hg hdeclares (by omega)).bind fun _ _ _ hname =>
      (runs_bump (not_startsEnd_of_identifier hname)).any)
  exact hnode.bind fun _ _ _ _ => .pure trivial

theorem safe_nameColon : Safe n nameColon := by
  refine fun ts hts => .of_legible fun hl => .ahead_bind (.ite (fun h => ?_) fun _ => .pure trivial)
  have hcolon := hl.not_startsEnd_drop (beq_iff_eq.1 (Bool.and_eq_true_iff.1 h).2) (by decide)
  exact runs_node (Runs.bump_ready (n := n) hcolon (by omega) ready_bump).any

theorem safe_argument (hg : Able n g) (typed : Bool) : Safe n (argument n g typed) := by
  refine safe_nodeUnlessBlank (safe_nameColon.bind fun _ ts hts => .upcoming_bind ?_)
  have hvalue : ∀ typed, Safe n (do
      if ← declarationExpression n g typed then return
      if ← g .expression then return
      if !(← isBlankNode) then report "expected expression") := by
    intro typed
    refine (safe_declarationExpression hg typed).bind fun _ => .ite (.pure _) ?_
    refine hg.expression.bind fun _ => .ite (.pure _) ?_
    exact Safe.isBlankNode.bind fun _ => .ite (safe_report _) (.pure _)
  refine .ite (fun hpassing => ?_) fun _ => hvalue _ ts hts
  refine (ready_bump.bind fun _ => hvalue _) ts hts (not_startsEnd_of_kind ?_)
  simp [beq_iff_eq.1 (Bool.and_eq_true_iff.1 hpassing).1]

/-- Items with commas between them, unless what closes them comes at once. -/
theorem safe_itemsTo {item : Parse Bool} (hitem : Safe n item) (close : String) : Safe n (do
    if !(← atText close) then commaSeparated n item
    discard (expect close)) := by
  have hclose : Safe n (discard (expect close)) := (safe_expect close).discard
  refine (Safe.atText close).bind fun _ => ?_
  exact .ite ((safe_commaSeparated hitem).bind fun _ => hclose) hclose

theorem safe_argumentsRest (hg : Able n g) (close : String) : Safe n (do
    if !(← atText close) then
      commaSeparated n (orReport (argument n g false) "expected argument")
    discard (expect close)) :=
  safe_itemsTo (safe_orReport (safe_argument hg false)) close

theorem runs_argumentsTo (hg : Able n g) (close : String) (kind : NodeKind)
    (h : startsEnd ts = false) (hts : ts.length < n) :
    Runs (argumentsTo n g close kind) ts (Shorter ts) :=
  runs_node (.bump_then h hts (safe_argumentsRest hg close))

theorem ready_argumentList (hg : Able n g) : Ready n (argumentList n g) :=
  .of_runs fun _ hts he => runs_argumentsTo hg _ _ he hts

theorem ready_bracketedArgumentList (hg : Able n g) : Ready n (bracketedArgumentList n g) :=
  .of_runs fun _ hts he => runs_argumentsTo hg _ _ he hts

/-! ### Values -/

theorem safe_elementList (hg : Able n g) (close : String) : Safe n (elementList n g close) := by
  refine safe_repeatUpTo fun ts hts => .unlessEnd fun he => .atText_bind (fun _ => ?_) ?_
  · exact runs_commaOrSkip (hg.initializer ts hts he) he
  · exact runs_commaOrSkip (hg.expression ts hts) he

theorem safe_initializerRest (hg : Able n g) : Safe n (do
    elementList n g "\x7d"
    discard (expect "\x7d")) :=
  (safe_elementList hg _).bind fun _ => (safe_expect _).discard

theorem runs_initializer (hg : Able n g) (h : startsEnd ts = false) (hts : ts.length < n) :
    Runs (initializer n g) ts (Shorter ts) :=
  runs_node (.bump_then h hts (safe_initializerRest hg))

theorem ready_initializer (hg : Able n g) : Ready n (initializer n g) :=
  .of_runs fun _ hts he => runs_initializer hg he hts

theorem safe_optionalInitializer (hg : Able n g) : Safe n (optionalInitializer n g) :=
  .ifText (by decide) (ready_initializer hg) (.pure _)

theorem safe_initialValue (hg : Able n g) : Safe n (initialValue n g) :=
  .ifText (by decide) (ready_initializer hg) (safe_expectExpression hg).discard

theorem ready_equalsValueClause (hg : Able n g) : Ready n (equalsValueClause n g) :=
  ready_node (ready_bump.bind fun _ => safe_initialValue hg)

/-- A value behind an equals sign, if there is one. -/
theorem safe_optionalValue (hg : Able n g) :
    Safe n (do if ← atText "=" then equalsValueClause n g) :=
  .ifText (by decide) (ready_equalsValueClause hg) (.pure _)

theorem safe_rankSpecifiers (hg : Able n g) : Safe n (rankSpecifiers n g) := by
  refine safe_repeatUpTo fun ts hts => .of_legible fun hl => .atText_bind (fun hopen => ?_) .tries_none
  have hsizes : Safe n (do
      repeatUpTo n do
        if (← atEnd) || (← atText "]") then return false
        if ← eat "," then return true
        expectExpression g
      discard (expect "]")) := by
    refine (safe_repeatUpTo fun ts hts => .unlessEnd fun _ => ?_).bind fun _ => (safe_expect _).discard
    exact (runs_eat ",").tries_or fun rest hle => runs_orReport (hg.runs_expression (by omega))
  refine (runs_node (.bump_then ?_ (by omega) hsizes)).return_true
  exact hl.not_startsEnd hopen (by decide)

/-! ### Parameters -/

/-- Words are placed as keywords as long as a test holds that they only can pass. -/
theorem runs_words {c : List Token → Bool} (hc : ∀ ts, c ts = true → startsEnd ts = false)
    (hts : ts.length < n) : Runs (repeatUpTo n do
      if c (← ahead) then
        bumpKeyword
        return true
      return false) ts Any :=
  runs_repeatUpTo (fun _ _ => .ahead_bind (.ite (fun h =>
    (runs_place_shorter _ (hc _ h)).return_true) fun _ => .tries_none)) hts

theorem safe_words {c : List Token → Bool} (hc : ∀ ts, c ts = true → startsEnd ts = false) :
    Safe n (repeatUpTo n do
      if c (← ahead) then
        bumpKeyword
        return true
      return false) :=
  .of_runs (Q := fun _ => Any) fun _ hts => runs_words hc hts

theorem not_startsEnd_of_parameterModifier (h : startsParameterModifier ts = true) :
    startsEnd ts = false := by
  simp only [startsParameterModifier, startsWord, Bool.or_eq_true, Bool.and_eq_true,
    beq_iff_eq] at h
  rcases h with h | h
  · exact not_startsEnd_of_identifier h.1.1
  · exact not_startsEnd_of_kind (by simp [h.1])

theorem safe_parameter (hg : Able n g) (close : String) : Safe n (parameter n g close) := by
  refine safe_nodeUnlessBlank (safe_attributeLists.bind fun _ => ?_)
  refine (safe_words fun _ => not_startsEnd_of_parameterModifier).bind fun _ => ?_
  have hvalue := safe_optionalValue hg
  refine fun ts hts => .ahead_bind (.ite (fun h => ?_) fun _ => ?_)
  · have hname := not_startsEnd_of_identifier (Bool.and_eq_true_iff.1 h).1
    exact (ready_bump.bind fun _ => hvalue) ts hts hname
  refine Safe.bind (safe_fullType hg) (fun _ => .ite ?_ ?_) ts hts
  · exact safe_expectIdentifier.discard.bind fun _ => hvalue
  · refine Safe.isBlankNode.bind fun _ => .ite ?_ hvalue
    exact (safe_skipToken _).bind fun _ => hvalue

theorem safe_parametersRest (hg : Able n g) (close : String) : Safe n (do
    if !(← atText close) then
      commaSeparated n (orReport (parameter n g close) "expected parameter")
    discard (expect close)) :=
  safe_itemsTo (safe_orReport (safe_parameter hg close)) close

theorem runs_parametersTo (hg : Able n g) (close : String) (kind : NodeKind)
    (h : startsEnd ts = false) (hts : ts.length < n) :
    Runs (parametersTo n g close kind) ts (Shorter ts) :=
  runs_node (.bump_then h hts (safe_parametersRest hg _))

theorem ready_parametersTo (hg : Able n g) (close : String) (kind : NodeKind) :
    Ready n (parametersTo n g close kind) :=
  .of_runs fun _ hts he => runs_parametersTo hg close kind he hts

theorem ready_parameterList (hg : Able n g) : Ready n (parameterList n g) :=
  ready_parametersTo hg _ _

theorem safe_expectParameterList (hg : Able n g) : Safe n (expectParameterList n g) :=
  .ifText (by decide) (ready_parameterList hg) (safe_report _)

theorem ready_typeParameterList : Ready n (typeParameterList n) := by
  refine ready_node (ready_bump.bind fun _ => ?_)
  refine (safe_commaSeparated ?_).bind fun _ => (safe_expect _).discard
  refine (safe_nodeUnlessBlank (safe_attributeLists.bind fun _ => ?_)).bind fun _ => .pure _
  have hname : Safe n (discard expectIdentifier) := safe_expectIdentifier.discard
  exact .ifEitherText (by decide) (by decide) (ready_bump.bind fun _ => hname) hname

theorem safe_optionalTypeParameters : Safe n (optionalTypeParameters n) :=
  .ifText (by decide) ready_typeParameterList (.pure _)

theorem safe_constraint (hg : Able n g) : Safe n (constraint n g) := by
  refine .ifEitherText (by decide) (by decide) ?_ (.ifText (by decide) ?_ (safe_expectFullType hg))
  · exact ready_bump.bind fun _ => (safe_eat _).discard.bind fun _ => .pure _
  · refine ready_bump.bind fun _ => (safe_expect _).discard.bind fun _ => ?_
    exact (safe_expect _).discard.bind fun _ => .pure _

theorem startsIdentifier_drop {k : Nat} (h : kindAt ts k = .identifier) :
    startsIdentifier (ts.drop k) = true := by
  rw [startsIdentifier, kindAt, nth_drop]
  exact beq_iff_eq.2 h

theorem safe_constraintClauses (hg : Able n g) : Safe n (constraintClauses n g) := by
  refine safe_repeatUpTo fun ts hts => .ahead_bind (.ite (fun _ => .tries_none) fun h => ?_)
  simp only [Bool.not_eq_true', Bool.not_eq_false, Bool.and_eq_true, beq_iff_eq] at h
  refine (runs_node (.bumpKeyword_ready (n := n) ?_ (by omega) ?_)).return_true
  · exact not_startsEnd_of_identifier (startsIdentifier_drop h.2)
  · refine ready_bump.bind fun _ => (safe_expect _).discard.bind fun _ => ?_
    exact safe_commaSeparated (safe_constraint hg)

/-! ### Variables and bodies -/

theorem safe_declareVariables (hg : Able n g) : Safe n (declareVariables n g) := by
  refine safe_wrapLast (safe_repeatUpTo fun ts hts => .atIdentifier_bind (fun hi => ?_) ?_)
  · have hvalue : Safe n (do
        if ← atText "[" then bracketedArgumentList n g
        if ← atText "=" then equalsValueClause n g) := by
      refine .ifText (by decide) ?_ (safe_optionalValue hg)
      exact (ready_bracketedArgumentList hg).bind fun _ => safe_optionalValue hg
    have hnode : Runs (node .variableDeclarator do
        bump
        if ← atText "[" then bracketedArgumentList n g
        if ← atText "=" then equalsValueClause n g) ts (Shorter ts) :=
      runs_node (.bump_then (n := n) (not_startsEnd_of_identifier hi) (by omega) hvalue)
    refine .tries_of_shorter (hnode.bind_shorter fun _ rest _ => .of_legible fun hl =>
      .ahead_bind (.ite (fun h => ?_) fun _ => .pure trivial))
    have hcomma := hl.not_startsEnd (Bool.and_eq_true_iff.1 h).1 (by decide)
    exact (ready_bump (n := n)).bind (fun _ => .pure true) rest (by omega) hcomma
  · exact (runs_report _).bind fun _ _ _ _ => .pure fun h => by cases h

theorem runs_variableDeclaration (hg : Able n g) (hts : ts.length < n) :
    Runs (variableDeclaration n g) ts (Tries ts) := by
  refine (runs_fullType hg hts).tries_then fun rest hlt => ?_
  exact ((safe_declareVariables hg).bind fun _ => .pure true) rest (by omega)

/-- Variables whose type has been followed are declared, so the phrase around them is not given up. -/
theorem runs_followedDeclaration {follow : List String} (hg : Able n g)
    (h : startsDeclaration n follow ts = .ok true) (hts : ts.length < n) :
    Runs (orGiveUp (variableDeclaration n g)) ts Any := by
  obtain ⟨rest, htype, -⟩ := exists_of_startsDeclaration h
  have hfound : Runs (variableDeclaration n g) ts fun found _ => found = true ∧ True := by
    refine (runs_foundType hg htype hts).bind fun found us _ ⟨hfound, _, hlt⟩ =>
      .ite (fun _ => ?_) fun hnot => absurd hfound hnot
    exact (safe_declareVariables hg us (by omega)).bind fun _ _ _ _ => .pure ⟨rfl, trivial⟩
  exact runs_orGiveUp hfound

theorem safe_variableDeclaration (hg : Able n g) : Safe n (variableDeclaration n g) :=
  .of_runs fun _ hts => runs_variableDeclaration hg hts

theorem ready_arrowClause (hg : Able n g) : Ready n (arrowClause g) :=
  ready_node (ready_bump.bind fun _ => (safe_expectExpression hg).discard)

theorem safe_memberBody (hg : Able n g) : Safe n (memberBody g) := by
  refine safe_blockOr hg (.ifText (by decide) ?_ (safe_expect _).discard)
  exact (ready_arrowClause hg).bind fun _ => (safe_expect _).discard

end PluginLint.Grammar
