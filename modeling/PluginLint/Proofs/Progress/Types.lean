import PluginLint.Proofs.Parsing.TypeReadings

/-!
# Types do not panic

What the phrases inside a phrase have to do for it to come to its end is gathered in `Able`. The
bound is one larger than for the phrase around them, since a token of that one has been placed. What
stands behind a type or a name is known where it has been followed before, as both are read up to
the token to which they were followed.
-/
namespace PluginLint.Grammar

/-- The phrases inside a phrase run wherever fewer tokens than `n` are ahead, counting one of the
phrase around them. -/
structure Able (n : Nat) (g : Phrases) : Prop where
  sound : Sound g
  reads : ReadsTypes (n - 1) g
  type : Safe n (g .type)
  expression : Safe n (g .expression)
  unary : Safe n (g .unary)
  binary : ∀ least, Safe n (g (.binary least))
  statement : Safe n (g .statement)
  initializer : ∀ ts, ts.length + 1 < n → startsEnd ts = false → Runs (g .initializer) ts Any
  block : ∀ ts, ts.length + 1 < n → startsText ts "\x7b" = true → Runs (g .block) ts Any
  member : ∀ ts, ts.length + 1 < n → startsEnd ts = false → Runs (g .member) ts (Shorter ts)
  namespaceBody : ∀ braced, Safe n (g (.namespaceBody braced))

variable {n : Nat} {g : Phrases} {ts : List Token}

namespace Able

theorem runs_type (hg : Able n g) (h : ts.length + 1 < n) : Runs (g .type) ts (Tries ts) :=
  (hg.type ts h).tries fun b _ => hg.sound.type b

theorem runs_expression (hg : Able n g) (h : ts.length + 1 < n) :
    Runs (g .expression) ts (Tries ts) :=
  (hg.expression ts h).tries fun b _ => hg.sound.expression b

theorem runs_statement (hg : Able n g) (h : ts.length + 1 < n) :
    Runs (g .statement) ts (Tries ts) :=
  (hg.statement ts h).tries fun b _ => hg.sound.statement b

end Able

theorem safe_expectType {p : Parse Bool} (hp : Safe n p) : Safe n (expectType p) :=
  safe_orReport hp

theorem safe_expectExpression (hg : Able n g) : Safe n (expectExpression g) :=
  safe_orReport hg.expression

/-- A block, if there is a brace, and otherwise something else. -/
theorem safe_blockOr {rest : Parse Unit} (hg : Able n g) (hrest : Safe n rest) :
    Safe n (do if ← atText "\x7b" then discard (g .block) else rest) :=
  .atText_bind (fun ts hts hs => (hg.block ts hts hs).discard.any) hrest

theorem ready_typeArgumentList (hg : Able n g) : Ready n (typeArgumentList n g) := by
  refine ready_node (ready_bump.bind fun _ => safe_repeatUpTo fun ts hts => ?_)
  refine (runs_eat ",").tries_or fun rest hrest => ?_
  refine (runs_eat ">").bind fun _ rest' hle _ => .ite (fun _ => .pure fun h => by cases h) fun _ => ?_
  refine (runs_orReport (hg.runs_type (show rest'.length + 1 < n by omega))).imp fun _ _ _ hfound h => ?_
  exact Nat.lt_of_lt_of_le (hfound h) hle

/-- An identifier, with or without type arguments. -/
theorem runs_nameNode (hg : Able n g) (hts : ts.length < n) (h : startsEnd ts = false) {c : Prop}
    [Decidable c] (hc : c → textAt ts 1 = "<") :
    Runs (if c then node .genericName (bump >>= fun _ => typeArgumentList n g)
      else node .identifierName bump) ts (Shorter ts) := by
  refine .of_legible fun hl => .ite (fun hgeneric => ?_) fun _ => runs_node (runs_bump h)
  have hopen := hl.not_startsEnd_drop (hc hgeneric) (by decide)
  exact runs_node (.bump_ready hopen hts (ready_typeArgumentList hg))

theorem runs_simpleTypeName (hg : Able n g) (hts : ts.length < n) (h : startsEnd ts = false) :
    Runs (simpleTypeName n g) ts (Shorter ts) :=
  .look_bind (answers_startsGenericType hts) fun _ hlook =>
    runs_nameNode hg hts h fun hc => textAt_of_startsGenericType (hc ▸ hlook)

theorem ready_simpleTypeName (hg : Able n g) : Ready n (simpleTypeName n g) :=
  .of_runs fun _ hts he => runs_simpleTypeName hg hts he

theorem safe_qualifiers (hg : Able n g) : Safe n (repeatUpTo n do
    if startsQualifier (← ahead) then
      wrapLast .qualifiedName do
        bump
        simpleTypeName n g
      return true
    return false) := by
  refine safe_repeatUpTo fun ts hts => .ahead_bind (.ite (fun h => ?_) fun _ => .tries_none)
  obtain ⟨-, hname⟩ := startsQualifier_cases h
  refine (runs_wrapLast ?_).return_true
  exact .bump_ready (not_startsEnd_of_identifier hname) (by omega) (ready_simpleTypeName hg)

theorem runs_dottedName (hg : Able n g) (hts : ts.length < n) :
    Runs (dottedName n g) ts (Tries ts) := by
  refine .atIdentifier_bind (fun h => ?_) .tries_none
  refine .tries_of_shorter ((runs_simpleTypeName hg hts (not_startsEnd_of_identifier h)).bind_shorter ?_)
  intro _ rest hlt
  exact ((safe_qualifiers hg).bind fun _ => .pure true) rest (by omega)

theorem safe_dottedName (hg : Able n g) : Safe n (dottedName n g) :=
  .of_runs fun _ hts => runs_dottedName hg hts

/-- The elements of a tuple type and its closing parenthesis. -/
theorem safe_tupleRest (hg : Able n g) : Safe n (do
    commaSeparated n do
      if ← expectType (g .type) then
        if ← atIdentifier then bump
        return true
      return false
    discard (expect ")")) := by
  refine (safe_commaSeparated ?_).bind fun _ => (safe_expect _).discard
  refine (safe_expectType hg.type).bind fun _ => .ite ?_ (.pure _)
  exact .ifIdentifier (ready_bump.bind fun _ => .pure _) (.pure _)

/-- Behind the commas of an empty rank stands its closing bracket. -/
theorem runs_rankTokens (hts : ts.length < n) (h : (skipEmptyRank? ts).isSome = true) :
    Runs (do bump; bumpWhile n ","; bump) ts (Shorter ts) := by
  obtain ⟨rest, hrest⟩ := Option.isSome_iff_exists.1 h
  simp only [skipEmptyRank?, Option.ite_none_right_eq_some] at hrest
  obtain ⟨hopen, hclose, -⟩ := hrest
  refine .of_legible fun hl => .place_next (hl.not_startsEnd hopen (by decide)) fun hlt => ?_
  have hcommas : Runs (bumpWhile n ",") (ts.drop 1) Any :=
    runs_repeatUpTo (fun _ _ => runs_eat ",") (by omega)
  refine (hcommas.reading (.bumpWhile (by decide) (by omega))).bind fun _ us _ hus => ?_
  obtain ⟨-, rfl, -⟩ := hus
  exact .of_legible fun hr => (runs_bump (hr.not_startsEnd hclose (by decide))).any

theorem runs_emptyRank (hts : ts.length < n) : Runs (emptyRank n) ts (Tries ts) :=
  .ahead_bind (.ite (fun h => (runs_node (runs_rankTokens hts h)).return_true) fun _ => .tries_none)

/-- Ranks, of which the first is there. -/
theorem runs_emptyRanks (hts : ts.length + 1 < n) (h : (skipEmptyRank? ts).isSome = true) :
    Runs (repeatUpTo n (emptyRank n)) ts (Shorter ts) := by
  obtain ⟨k, rfl⟩ : ∃ k, n = k + 1 := ⟨n - 1, by omega⟩
  have hfirst : Runs (emptyRank (k + 1)) ts (Shorter ts) := by
    refine .ahead_bind ?_
    rw [if_pos h]
    exact (runs_node (runs_rankTokens (by omega) h)).bind_shorter fun _ _ _ => .pure trivial
  refine hfirst.bind_shorter fun _ rest hlt => .ite (fun _ => ?_) fun _ => .pure trivial
  exact runs_repeatUpTo (fun us hus => runs_emptyRank (by omega)) (by omega)

/-- Question marks and empty ranks. -/
theorem safe_typeSuffixes (nullable arrays : Bool) : Safe n (do
    repeatUpTo n do
      if nullable && (← atText "?") then
        wrapLast .nullableType bump
        return true
      if arrays && (skipEmptyRank? (← ahead)).isSome then
        wrapLast .arrayType (repeatUpTo n (emptyRank n))
        return true
      return false
    return true) := by
  refine Safe.bind (safe_repeatUpTo fun ts hts => .of_legible fun hl => ?_) fun _ => .pure _
  refine .seeText_bind (.ite (fun h => ?_) fun _ => ?_)
  · have hmark : startsText ts "?" = true := (Bool.and_eq_true_iff.1 h).2
    exact (runs_wrapLast (runs_bump (hl.not_startsEnd hmark (by decide)))).return_true
  · refine .ahead_bind (.ite (fun h => ?_) fun _ => .tries_none)
    exact (runs_wrapLast (runs_emptyRanks hts (Bool.and_eq_true_iff.1 h).2)).return_true

theorem runs_typePhrase (hg : Able n g) (nullable arrays : Bool) (hts : ts.length < n) :
    Runs (typePhrase n g nullable arrays) ts (Tries ts) := by
  have hsuffixes : ∀ {p : Parse Unit}, Runs p ts (Shorter ts) → Runs (p >>= fun _ => do
      repeatUpTo n do
        if nullable && (← atText "?") then
          wrapLast .nullableType bump
          return true
        if arrays && (skipEmptyRank? (← ahead)).isSome then
          wrapLast .arrayType (repeatUpTo n (emptyRank n))
          return true
        return false
      return true) ts (Tries ts) := fun hp =>
    .tries_of_shorter (hp.bind_shorter fun _ rest hlt =>
      safe_typeSuffixes nullable arrays rest (by omega))
  refine .of_legible fun hl => .ahead_bind (.ite (fun hp => ?_) fun _ => .ite (fun hi => ?_) fun _ =>
    .look_bind (answers_startsTupleType hts) fun tuple htuple => .ite (fun ht => ?_) fun _ =>
      .tries_none)
  · exact hsuffixes (runs_node (runs_bump (not_startsEnd_of_predefined hp)))
  · refine hsuffixes ?_
    refine (runs_dottedName hg hts).discard.shorter fun b hb => ?_
    refine (yields_dottedName_of_identifier hg.sound (by rwa [hb])).discard.imp ?_
    rintro _ _ _ _ ⟨_, -, x, rfl, -⟩
    simp [Something]
  · have hopen : startsText ts "(" = true := startsText_of_startsTupleType (ht ▸ htuple)
    refine hsuffixes (runs_node ?_)
    exact .bump_then (hl.not_startsEnd hopen (by decide)) hts (safe_tupleRest hg)

theorem runs_fullType (hg : Able n g) (hts : ts.length < n) :
    Runs (fullType n g) ts (Tries ts) := runs_typePhrase hg true true hts

/-- A type that has been followed is found, and read up to the token to which it was followed. -/
theorem runs_foundType {rest : List Token} (hg : Able n g) (h : skipType n ts = .ok (some rest))
    (hts : ts.length < n) :
    Runs (fullType n g) ts fun found rest' =>
      found = true ∧ rest' = rest ∧ rest'.length < ts.length := by
  obtain ⟨k, rfl⟩ : ∃ k, n = k + 1 := ⟨n - 1, by omega⟩
  have hreads : Reads (fullType (k + 1) g) ts true rest := reads_fullType hg.reads h hts
  refine ((runs_fullType hg hts).reading hreads).imp ?_
  rintro _ _ - ⟨rfl, rfl, hlt⟩
  exact ⟨rfl, rfl, hlt rfl⟩

/-- So the phrase around it is not given up. -/
theorem runs_followedType {rest : List Token} (hg : Able n g)
    (h : skipType n ts = .ok (some rest)) (hts : ts.length < n) :
    Runs (orGiveUp (fullType n g)) ts fun _ rest' => rest' = rest :=
  runs_orGiveUp ((runs_foundType hg h hts).imp fun _ _ _ hfound => ⟨hfound.1, hfound.2.1⟩)

theorem safe_typePhrase (hg : Able n g) (nullable arrays : Bool) :
    Safe n (typePhrase n g nullable arrays) :=
  .of_runs fun _ hts => runs_typePhrase hg nullable arrays hts

theorem safe_fullType (hg : Able n g) : Safe n (fullType n g) := safe_typePhrase hg true true

theorem safe_expectFullType (hg : Able n g) : Safe n (expectType (fullType n g)) :=
  safe_expectType (safe_fullType hg)

end PluginLint.Grammar
