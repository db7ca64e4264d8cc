import PluginLint.Grammar.Lists
import PluginLint.Proofs.Parsing.Types

/-!
# Parsing lists inside phrases

Attributes, patterns, arguments, values, parameters, type parameters, variables and bodies. A list
whose first token comes next is one node; an optional list adds parts or does nothing.
-/
namespace PluginLint.Grammar

variable {n : Nat} {g : Phrases} {b : Builder}

/-! ### Attributes and patterns -/

theorem steady_attributeTokens (n depth : Nat) : Steady (attributeTokens n depth) := by
  induction n generalizing depth with
  | zero => exact .panic _
  | succ n ih =>
    refine steady_atEnd.bind fun _ => .ite (steady_report _) ((steady_look _).bind fun _ => ?_)
    exact steady_bump.bind fun _ => .ite (ih _) (.pure _)

theorem yields_attributeList (hb : More b) :
    Yields (attributeList n) b (One (· = .attributeList)) := by
  refine yields_node rfl rfl ?_
  cases n with
  | zero => exact .panic _
  | succ n =>
    refine .atEnd_bind_of hb.fresh (.look_bind fun depth _ => yields_bump_then hb.fresh ?_)
    exact .ite (steady_attributeTokens n depth) (.pure _)

theorem careful_attributeLists (n : Nat) : Careful (attributeLists n) := by
  refine careful_repeatUpTo ?_ _
  refine .atText_bind (by decide) (fun b hb => ?_) (.pure false)
  exact ((yields_attributeList hb).something.then_steady fun _ => .pure true).quiet_of_something

/-- What may stand in front of the word with which a type begins. -/
def IsMark (x : Tree) : Prop := ∀ kind inner, x = .node kind inner → kind = .attributeList

theorem each_attributeLists (n : Nat) : Yields (attributeLists n) b (Each IsMark) := by
  refine each_repeatUpTo (fun b => .atText_bind (by decide) (fun hb _ => ?_) fun _ => ?_) _ b
  · refine (yields_attributeList hb).bind fun _ _ _ _ hlist => ?_
    obtain ⟨x, hnew, hx⟩ := hlist
    refine .pure fun t ht => ?_
    rw [hnew, List.append_nil, List.mem_singleton] at ht
    subst ht
    rintro kind inner rfl
    exact hx
  · exact .pure (by simp [Each])

theorem careful_patternTokens (n depth : Nat) : Careful (patternTokens n depth) := by
  induction n generalizing depth with
  | zero => exact .panic _
  | succ n ih =>
    refine careful_upcoming.bind fun _ => .ite (.pure _) ((careful_orPanic _).bind fun _ => ?_)
    exact careful_bump.bind fun _ => ih _

theorem yields_pattern : Yields (pattern n) b (Tried NodeKind.IsInner b) :=
  yields_nodeUnlessBlank rfl rfl (careful_patternTokens n 0)

/-! ### Arguments -/

/-- A type starts before the end of the file. -/
theorem StartsType.not_startsEnd {k : Nat} (hb : Readable b) (h : StartsType n (b.ahead.drop k)) :
    startsEnd (b.ahead.drop k) = false := by
  rcases h with hp | hi | ht
  · simp only [startsPredefined, Bool.and_eq_true, beq_iff_eq] at hp
    exact more_of_kindAt (b := { b with ahead := b.ahead.drop k }) (by simp [hp.1])
  · exact more_of_startsIdentifier (b := { b with ahead := b.ahead.drop k }) hi
  · exact not_startsEnd_of_startsText hb (startsText_of_startsTupleType ht) (by decide)

theorem startsType_of_startsDeclaration {ts : List Token} {follow : List String}
    (h : startsDeclaration n follow ts = .ok true) : StartsType n ts := by
  unfold startsDeclaration at h
  cases hs : skipType n ts with
  | error e => simp [hs, bind, Except.bind] at h
  | ok found =>
    cases found with
    | none => simp [hs, bind, Except.bind, pure, Except.pure] at h
    | some rest => exact startsType_of_skipType hs

theorem not_startsEnd_of_startsDeclaration {k : Nat} {follow : List String} (hb : Readable b)
    (h : startsDeclaration n follow (b.ahead.drop k) = .ok true) :
    startsEnd (b.ahead.drop k) = false := (startsType_of_startsDeclaration h).not_startsEnd hb

/-- A type that has been seen, and any steps behind it. -/
theorem yields_seenType_then {p : Parse α} (hg : Sound g) (hp : Steady p) :
    Yields (orGiveUp (fullType n g) >>= fun _ => p) b Something :=
  .then_steady (yields_orGiveUp (yields_fullType hg)).something fun _ => hp

theorem yields_declarationExpression (hg : Sound g) (typed : Bool) :
    Yields (declarationExpression n g typed) b (Tried NodeKind.IsInner b) := by
  refine .look_bind fun declares _ => ?_
  have hnode : ∀ word : Bool, Yields (if (declares && (typed || word)) = true then
      (do
        node .declarationExpression do
          orGiveUp (fullType n g)
          bump
        return true)
      else return false) b (Tried NodeKind.IsInner b) := fun word =>
    .ite (fun _ => yields_foundNode rfl rfl (yields_seenType_then hg steady_bump)) fun _ => .tried_none
  exact .atWord_bind (fun _ => hnode true) (hnode false)

theorem careful_nameColon : Careful nameColon := by
  refine fun b => .ahead_bind (.ite (fun h => ?_) fun _ => .pure fun _ _ => rfl)
  have hm : More b := more_of_startsIdentifier (Bool.and_eq_true_iff.1 h).1
  have hnode : Yields (node .nameColon do bump; bump) b (One NodeKind.IsInner) :=
    yields_node rfl rfl (yields_bump_then hm.fresh steady_bump)
  exact hnode.something.quiet_of_something

/-- At the start of a node nothing is noted. -/
theorem careful_unlessBlank {p : Parse Unit} {c : Bool → Bool} (hp : Steady p) (hc : c true = false) :
    Careful (isBlankNode >>= fun blank => if c blank = true then p else pure ()) := by
  refine fun b => .isBlankNode_bind (.ite (fun h => (hp b).imp fun _ _ _ _ _ hb => ?_) fun _ =>
    .pure fun _ _ => rfl)
  simp [hb, hc] at h

theorem yields_argument (hg : Sound g) (typed : Bool) :
    Yields (argument n g typed) b (Tried NodeKind.IsInner b) := by
  refine yields_nodeUnlessBlank rfl rfl (careful_nameColon.bind fun _ => careful_upcoming.bind fun _ => ?_)
  have hvalue : ∀ typed, Careful (do
      if ← declarationExpression n g typed then return
      if ← g .expression then return
      if !(← isBlankNode) then report "expected expression") := by
    intro typed
    refine .found (fun b => yields_declarationExpression hg _) (.pure ()) ?_
    refine .found hg.expression (.pure ()) ?_
    exact careful_unlessBlank (steady_report _) rfl
  exact .ite (careful_bump.bind fun _ => hvalue _) (hvalue _)

theorem yields_argumentsTo {close : String} {kind : NodeKind} (hg : Sound g) (hb : More b)
    (hK : NodeKind.IsInner kind) (hk : kind.isPlain = true) :
    Yields (argumentsTo n g close kind) b (One NodeKind.IsInner) := by
  refine yields_node hK hk (yields_bump_then hb.fresh ((steady_atText _).bind fun _ => ?_))
  have hitems : Steady (commaSeparated n (orReport (argument n g false) "expected argument")) :=
    steady_commaSeparated (fun _ => (yields_orReport (yields_argument hg false)).anything) n
  exact .ite (hitems.bind fun _ => (steady_expect _).discard) (steady_expect _).discard

theorem yields_argumentList (hg : Sound g) (hb : More b) :
    Yields (argumentList n g) b (One NodeKind.IsInner) := yields_argumentsTo hg hb rfl rfl

theorem yields_bracketedArgumentList (hg : Sound g) (hb : More b) :
    Yields (bracketedArgumentList n g) b (One NodeKind.IsInner) := yields_argumentsTo hg hb rfl rfl

/-! ### Values -/

theorem steady_elementList (hg : Sound g) (close : String) : Steady (elementList n g close) := by
  refine steady_repeatUpTo (steady_atEnd.bind fun _ => (steady_atText _).bind fun _ => ?_) n
  have hrest : ∀ found : Bool, Steady (do
      if found then eat ","
      else
        skipToken "expected expression"
        return true) :=
    fun _ => .ite (steady_eat _) ((steady_skipToken _).bind fun _ => .pure _)
  refine .ite (.pure _) (.atText_bind (by decide) (fun b hb => ?_) fun b => ?_)
  · exact (hg.initializer b hb).gives hrest
  · exact (hg.expression b).anything.gives hrest

theorem yields_initializer (hg : Sound g) (hb : More b) :
    Yields (initializer n g) b (One NodeKind.IsInner) :=
  yields_node rfl rfl (yields_bump_then hb.fresh
    ((steady_elementList hg _).bind fun _ => (steady_expect _).discard))

theorem steady_optionalInitializer (hg : Sound g) : Steady (optionalInitializer n g) :=
  .atText_bind (by decide) (fun _ hb => (yields_initializer hg hb).anything) (.pure ())

theorem steady_initialValue (hg : Sound g) : Steady (initialValue n g) :=
  .atText_bind (by decide) (fun _ hb => (yields_initializer hg hb).anything)
    (steady_expectExpression hg).discard

theorem yields_equalsValueClause (hg : Sound g) (hb : More b) :
    Yields (equalsValueClause n g) b (One NodeKind.IsInner) :=
  yields_node rfl rfl (yields_bump_then hb.fresh (steady_initialValue hg))

/-- A value behind an equals sign, if there is one. -/
theorem careful_optionalValue (hg : Sound g) :
    Careful (do if ← atText "=" then equalsValueClause n g) :=
  .atText_bind (by decide)
    (fun _ hb => (yields_equalsValueClause hg hb).something.quiet_of_something) (.pure ())

theorem steady_rankSpecifiers (hg : Sound g) : Steady (rankSpecifiers n g) := by
  refine steady_repeatUpTo ?_ n
  refine .atText_bind (by decide) (fun b hb => ?_) (.pure false)
  have hnode : Yields (node .arrayRankSpecifier do
      bump
      repeatUpTo n do
        if (← atEnd) || (← atText "]") then return false
        if ← eat "," then return true
        expectExpression g
      discard (expect "]")) b (One NodeKind.IsInner) := by
    refine yields_node rfl rfl (yields_bump_then hb.fresh ?_)
    refine (steady_repeatUpTo ?_ n).bind fun _ => (steady_expect _).discard
    refine steady_atEnd.bind fun _ => (steady_atText _).bind fun _ => .ite (.pure _) ?_
    exact (steady_eat _).bind fun _ => .ite (.pure _) (steady_expectExpression hg)
  exact hnode.anything.gives fun _ _ => .pure trivial

/-! ### Parameters -/

/-- Words are placed as keywords as long as a test holds. -/
theorem careful_words {c : List Token → Bool} : Careful (repeatUpTo n do
    if c (← ahead) then
      bumpKeyword
      return true
    return false) := by
  refine careful_repeatUpTo (careful_ahead.bind fun _ => .ite ?_ (.pure _)) n
  exact careful_bumpKeyword.bind fun _ => .pure _

theorem each_words {c : List Token → Bool} : Yields (repeatUpTo n do
    if c (← ahead) then
      bumpKeyword
      return true
    return false) b (Each IsMark) := by
  refine each_repeatUpTo (fun b => .ahead_bind (.ite (fun _ => ?_) fun _ => ?_)) n b
  · refine each_bumpKeyword.bind fun _ _ _ _ hnew => .pure fun x hx => ?_
    rw [List.append_nil] at hx
    rintro kind inner rfl
    cases hnew _ hx
  · exact .pure (by simp [Each])

theorem yields_parameter (hg : Sound g) (close : String) :
    Yields (parameter n g close) b (Tried NodeKind.IsInner b) := by
  refine yields_nodeUnlessBlank rfl rfl ((careful_attributeLists n).bind fun _ => ?_)
  refine careful_words.bind fun _ => careful_ahead.bind fun ts => ?_
  have hvalue := careful_optionalValue (n := n) hg
  refine .ite (careful_bump.bind fun _ => hvalue) ?_
  refine .found (fun b => yields_fullType hg) ?_ ?_
  · exact steady_expectIdentifier.discard.bind fun _ => hvalue.steady
  · refine fun b => .isBlankNode_bind (.ite (fun h => ?_) fun _ => hvalue b)
    refine ((steady_skipToken _).bind (fun _ => hvalue.steady) b).imp fun _ _ _ _ _ hb => ?_
    simp [hb] at h

theorem yields_parametersTo {close : String} {kind : NodeKind} (hg : Sound g) (hb : More b)
    (hK : NodeKind.IsInner kind) (hk : kind.isPlain = true) :
    Yields (parametersTo n g close kind) b (One NodeKind.IsInner) := by
  refine yields_node hK hk (yields_bump_then hb.fresh ((steady_atText _).bind fun _ => ?_))
  have hitems : Steady (commaSeparated n (orReport (parameter n g close) "expected parameter")) :=
    steady_commaSeparated (fun _ => (yields_orReport (yields_parameter hg close)).anything) n
  exact .ite (hitems.bind fun _ => (steady_expect _).discard) (steady_expect _).discard

theorem yields_parameterList (hg : Sound g) (hb : More b) :
    Yields (parameterList n g) b (One NodeKind.IsInner) := yields_parametersTo hg hb rfl rfl

theorem steady_expectParameterList (hg : Sound g) : Steady (expectParameterList n g) :=
  .atText_bind (by decide) (fun _ hb => (yields_parameterList hg hb).anything) (steady_report _)

theorem yields_typeParameterList (hb : More b) :
    Yields (typeParameterList n) b (One NodeKind.IsInner) := by
  refine yields_node rfl rfl (yields_bump_then hb.fresh ?_)
  refine (steady_commaSeparated ?_ n).bind fun _ => (steady_expect _).discard
  refine (steady_nodeUnlessBlank rfl ?_).bind fun _ => .pure _
  refine (careful_attributeLists n).steady.bind fun _ => ?_
  refine (steady_atText _).bind fun _ => (steady_atText _).bind fun _ => ?_
  exact .ite (steady_bump.bind fun _ => steady_expectIdentifier.discard) steady_expectIdentifier.discard

theorem steady_optionalTypeParameters : Steady (optionalTypeParameters n) :=
  .atText_bind (by decide) (fun _ hb => (yields_typeParameterList hb).anything) (.pure ())

theorem steady_constraint (hg : Sound g) : Steady (constraint n g) := by
  refine (steady_atText _).bind fun _ => (steady_atText _).bind fun _ => .ite ?_ ?_
  · exact steady_bump.bind fun _ => (steady_eat _).discard.bind fun _ => .pure _
  refine (steady_atText _).bind fun _ => .ite ?_ (steady_expectType hg true true)
  refine steady_bump.bind fun _ => (steady_expect _).discard.bind fun _ => ?_
  exact (steady_expect _).discard.bind fun _ => .pure _

theorem steady_constraintClauses (hg : Sound g) : Steady (constraintClauses n g) := by
  refine steady_repeatUpTo (fun b => .ahead_bind (.ite (fun _ => .pure trivial) fun h => ?_)) n
  simp only [Bool.not_eq_true', Bool.not_eq_false, Bool.and_eq_true] at h
  have hm : More b := more_of_startsWord h.1
  have hnode : Yields (node .typeParameterConstraintClause do
      bumpKeyword
      bump
      discard (expect ":")
      commaSeparated n (constraint n g)) b (One NodeKind.IsInner) := by
    refine yields_node rfl rfl (yields_bumpKeyword_then hm.fresh (steady_bump.bind fun _ => ?_))
    exact (steady_expect _).discard.bind fun _ => steady_commaSeparated (steady_constraint hg) n
  exact hnode.anything.gives fun _ _ => .pure trivial

/-! ### Variables and bodies -/

theorem steady_declarators (hg : Sound g) : Steady (repeatUpTo n do
    if !(← atIdentifier) then
      report "expected identifier"
      return false
    node .variableDeclarator do
      bump
      if ← atText "[" then bracketedArgumentList n g
      if ← atText "=" then equalsValueClause n g
    let ts ← ahead
    if startsText ts "," && kindAt ts 1 == .identifier then
      bump
      return true
    return false) := by
  refine steady_repeatUpTo (fun b => .atIdentifier_bind (fun hb _ => ?_) fun _ => ?_) n
  · have hvalue : Steady (do if ← atText "=" then equalsValueClause n g) :=
      (careful_optionalValue hg).steady
    have hnode : Yields (node .variableDeclarator do
        bump
        if ← atText "[" then bracketedArgumentList n g
        if ← atText "=" then equalsValueClause n g) b (One NodeKind.IsInner) := by
      refine yields_node rfl rfl (yields_bump_then hb.fresh ?_)
      refine .atText_bind (by decide) (fun b hb => ?_) hvalue
      exact (yields_bracketedArgumentList hg hb).anything.gives fun _ b' => hvalue b'
    refine hnode.anything.gives fun _ b' => .ahead_bind (.ite (fun _ => ?_) fun _ => .pure trivial)
    exact steady_bump.bind (fun _ => .pure true) b'
  · exact (steady_report _).bind (fun _ => .pure false) b

theorem rewraps_declareVariables {K : NodeKind → Prop} (hg : Sound g) :
    Rewraps K NodeKind.IsInner (fun _ => True) (declareVariables n g) b :=
  .wrapLast rfl rfl fun b' _ => steady_declarators hg b'

theorem yields_variableDeclaration (hg : Sound g) :
    Yields (variableDeclaration n g) b (Tried NodeKind.IsInner b) :=
  (yields_fullType hg).tried_rewrap rfl fun _ =>
    (rewraps_declareVariables hg).bind fun _ _ _ => .pure rfl

theorem yields_arrowClause (hg : Sound g) (hb : More b) :
    Yields (arrowClause g) b (One NodeKind.IsInner) :=
  yields_node rfl rfl (yields_bump_then hb.fresh (steady_expectExpression hg).discard)

theorem steady_memberBody (hg : Sound g) : Steady (memberBody g) := by
  refine steady_blockOr hg (.atText_bind (by decide) (fun b hb => ?_) (steady_expect _).discard)
  exact (yields_arrowClause hg hb).anything.gives fun _ b' => (steady_expect _).discard b'

end PluginLint.Grammar
