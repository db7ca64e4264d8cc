import PluginLint.Proofs.Moves.Operators

/-!
# Moves of a parse

However the functions of the grammar call one another, all that ever happens to a parse is that a
token is placed, that a problem is noted, and that parts are gathered in nodes. `Makes` is the
relation that such moves generate; what every move keeps, every parse keeps, by induction on it.
That a function of the grammar makes only moves is a matter of how it is put together, so it is an
instance of a class, and all the rules are instances as well.
-/
namespace PluginLint.Grammar

/-! ### Moves -/

/-- What is known of the parts that become a node, and of the problems noted by then. -/
structure Closable (kind : NodeKind) (parts : List Tree) (errors : List ParseError) : Prop where
  /-- What cannot be placed is set aside only after a problem has been noted. -/
  noted : kind = .error → errors ≠ []
  grouped : kind = .binaryExpression → Grouped parts

/-- What can happen during a parse. -/
inductive Makes : Builder → Builder → Prop
  | refl (b : Builder) : Makes b b
  | trans {b b' b'' : Builder} (h : Makes b b') (h' : Makes b' b'') : Makes b b''
  | place {b : Builder} {t u : Token} {rest : List Token} (hb : b.ahead = t :: rest)
    (ht : t.isEnd = false) (hu : Retagged t u) : Makes b { b with
      ahead := rest, offset := b.offset + t.width, parts := b.parts.push (.leaf u) }
  | note {b : Builder} {t : Token} {rest : List Token} (hb : b.ahead = t :: rest)
    (he : ∀ e ∈ b.errors.head?, e.offset ≠ b.offset + Trivia.width t.leading) (message : String) :
    Makes b { b with errors := ⟨b.offset + Trivia.width t.leading, message⟩ :: b.errors }
  | gather {b b' : Builder} {kind : NodeKind} (h : Makes { b with parts := #[] } b')
    (hk : Closable kind b'.parts.toList b'.errors) :
    Makes b { b' with parts := b.parts.push (.node kind b'.parts.toList) }
  | inline {b b' : Builder} (h : Makes { b with parts := #[] } b') :
    Makes b { b' with parts := b.parts ++ b'.parts }
  | wrap {b b' : Builder} {kind : NodeKind}
    (h : Makes { b with parts := (b.parts.back?.map (#[·])).getD #[] } b')
    (hk : Closable kind b'.parts.toList b'.errors) :
    Makes b { b' with parts := b.parts.pop.push (.node kind b'.parts.toList) }
  | wrapAll {b : Builder} {kind : NodeKind} (hk : Closable kind b.parts.toList b.errors) :
    Makes b { b with parts := #[.node kind b.parts.toList] }

namespace Makes

variable {b b' : Builder}

theorem readable (h : Makes b b') (hb : Readable b) : Readable b' := by
  induction h with
  | refl | note | wrapAll => exact hb
  | trans _ _ ih ih' => exact ih' (ih hb)
  | @place b t u rest hts ht hu =>
    have hended : Lexer.Ended ([t] ++ rest) := by
      rw [Readable, hts] at hb
      exact hb
    exact ended_of_append hended (by simpa using ht)
  | gather _ _ ih | inline _ ih | wrap _ _ ih => exact ih hb

theorem errors_suffix (h : Makes b b') : b.errors <:+ b'.errors := by
  induction h with
  | refl | place | wrapAll => exact List.suffix_rfl
  | trans _ _ ih ih' => exact ih.trans ih'
  | note => exact List.suffix_cons _ _
  | gather _ _ ih | inline _ ih | wrap _ _ ih => exact ih

theorem ahead_suffix (h : Makes b b') : b'.ahead <:+ b.ahead := by
  induction h with
  | refl | note | wrapAll => exact List.suffix_rfl
  | trans _ _ ih ih' => exact ih'.trans ih
  | place hb => exact hb ▸ List.suffix_cons _ _
  | gather _ _ ih | inline _ ih | wrap _ _ ih => exact ih

theorem errors_ne_nil (h : Makes b b') (hb : b.errors ≠ []) : b'.errors ≠ [] := by
  intro he
  have hsuffix := h.errors_suffix
  rw [he, List.suffix_nil] at hsuffix
  exact hb hsuffix

/-- What holds of all that becomes a node holds of every node. -/
theorem everyAll {S : NodeKind → List Tree → Prop} (h : Makes b b')
    (hS : ∀ kind parts errors, errors <:+ b'.errors → Closable kind parts errors → S kind parts)
    (hb : Tree.EveryAll S b.parts.toList) : Tree.EveryAll S b'.parts.toList := by
  induction h with
  | refl | note => exact hb
  | trans _ h' ih ih' =>
    refine ih' hS (ih (fun kind parts errors he => ?_) hb)
    exact hS kind parts errors (he.trans h'.errors_suffix)
  | place => simpa using hb
  | gather _ hk ih => simpa using ⟨hb, hS _ _ _ List.suffix_rfl hk, ih hS (by simp)⟩
  | inline _ ih => simpa using ⟨hb, ih hS (by simp)⟩
  | @wrap b b' kind _ hk ih =>
    obtain ⟨parts, hparts⟩ : ∃ parts : List Tree, b.parts = parts.toArray := ⟨_, rfl⟩
    rcases List.eq_nil_or_concat' parts with rfl | ⟨init, x, rfl⟩
    · have hin : Tree.EveryAll S b'.parts.toList := ih hS (by simp [hparts])
      simpa [hparts] using ⟨hS _ _ _ List.suffix_rfl hk, hin⟩
    · obtain ⟨hinit, hx⟩ : Tree.EveryAll S init ∧ x.Every S := by simpa [hparts] using hb
      have hin : Tree.EveryAll S b'.parts.toList := ih hS (by simpa [hparts] using hx)
      simpa [hparts] using ⟨hinit, hS _ _ _ List.suffix_rfl hk, hin⟩
  | wrapAll hk => simpa using ⟨hS _ _ _ List.suffix_rfl hk, hb⟩

end Makes

/-! ### Steps that only move -/

/-- All that the step does to a parse is to make moves. -/
class Moves (p : Parse α) : Prop where
  makes : ∀ {b a b'}, Readable b → p b = .ok (a, b') → Makes b b'

variable {p q : Parse α} {f : α → Parse β}

namespace Moves

instance pure (a : α) : Moves (Pure.pure a : Parse α) where
  makes _ hrun := by
    obtain ⟨-, rfl⟩ := eq_of_pure hrun
    exact .refl _

instance panic (e : Panic) : Moves (throw e : Parse α) where
  makes _ hrun := by cases hrun

instance bind [Moves p] [∀ a, Moves (f a)] : Moves (p >>= f) where
  makes hb hrun := by
    obtain ⟨a, b', hrun, hrun'⟩ := exists_of_bind hrun
    have h := makes hb hrun
    exact h.trans (makes (h.readable hb) hrun')

/-- A step, and one that has to be looked at more closely. -/
theorem bind_of [Moves p] (hf : ∀ a, Moves (f a)) : Moves (p >>= f) := bind

instance ite {c : Prop} [Decidable c] [Moves p] [Moves q] : Moves (if c then p else q) := by
  split <;> infer_instance

instance discard [Moves p] : Moves (Functor.discard p) :=
  inferInstanceAs (Moves (p >>= fun _ => Pure.pure _))

/-! ### Looking, placing and noting -/

instance orPanic (x : Except Panic α) : Moves (Grammar.orPanic x) where
  makes _ hrun := by
    obtain ⟨a, -, h⟩ := exists_of_map hrun
    cases h
    exact .refl _

instance ahead : Moves Grammar.ahead where
  makes _ hrun := by
    cases hrun
    exact .refl _

instance isBlankNode : Moves Grammar.isBlankNode where
  makes _ hrun := by
    cases hrun
    exact .refl _

instance look (t : List Token → Except Panic α) : Moves (Grammar.look t) := by
  unfold Grammar.look
  infer_instance

instance upcoming : Moves Grammar.upcoming := by
  unfold Grammar.upcoming
  infer_instance

instance atText (text : String) : Moves (Grammar.atText text) := by
  unfold Grammar.atText
  infer_instance

instance atIdentifier : Moves Grammar.atIdentifier := by
  unfold Grammar.atIdentifier
  infer_instance

instance atWord (word : String) : Moves (Grammar.atWord word) := by
  unfold Grammar.atWord
  infer_instance

instance atEnd : Moves Grammar.atEnd := by
  unfold Grammar.atEnd
  infer_instance

theorem place {f : Token → Token} (hf : ∀ t, Retagged t (f t)) : Moves (Grammar.place f) where
  makes _ hrun := by
    unfold Grammar.place at hrun
    split at hrun
    · cases hrun
    · rename_i t rest hts
      split at hrun
      · cases hrun
      · rename_i he
        cases hrun
        exact .place hts (by simpa using he) (hf t)

instance bump : Moves Grammar.bump := place fun _ => .inl rfl

instance bumpKeyword : Moves Grammar.bumpKeyword := place retagged_asKeyword

instance bumpMany (k : Nat) : Moves (Grammar.bumpMany k) := by
  induction k with
  | zero => exact pure ()
  | succ k ih => exact bind

instance bumpKeywords (k : Nat) : Moves (Grammar.bumpKeywords k) := by
  induction k with
  | zero => exact pure ()
  | succ k ih =>
    unfold Grammar.bumpKeywords
    infer_instance

instance report (message : String) : Moves (Grammar.report message) where
  makes _ hrun := by
    unfold Grammar.report at hrun
    split at hrun
    · cases hrun
    rename_i t rest hts
    dsimp only at hrun
    split at hrun
    · rename_i e es he
      split at hrun
      · cases hrun
        exact .refl _
      · rename_i hne
        cases hrun
        exact .note hts (by simpa [he] using hne) message
    · rename_i he
      cases hrun
      rw [← he]
      exact .note hts (by simp [he]) message

instance eat (text : String) : Moves (Grammar.eat text) := by
  unfold Grammar.eat
  infer_instance

instance expect (text : String) : Moves (Grammar.expect text) := by
  unfold Grammar.expect
  infer_instance

instance expectIdentifier : Moves Grammar.expectIdentifier := by
  unfold Grammar.expectIdentifier
  infer_instance

instance orReport {p : Parse Bool} [Moves p] (message : String) :
    Moves (Grammar.orReport p message) := by
  unfold Grammar.orReport
  infer_instance

instance orGiveUp {p : Parse Bool} [Moves p] : Moves (Grammar.orGiveUp p) := by
  unfold Grammar.orGiveUp
  infer_instance

/-! ### Loops -/

instance repeatUpTo {step : Parse Bool} [Moves step] (n : Nat) :
    Moves (Grammar.repeatUpTo n step) := by
  induction n with
  | zero => exact panic _
  | succ n ih =>
    unfold Grammar.repeatUpTo
    infer_instance

instance bumpWhile (n : Nat) (text : String) : Moves (Grammar.bumpWhile n text) := by
  unfold Grammar.bumpWhile
  infer_instance

instance commaSeparated {item : Parse Bool} [Moves item] (n : Nat) :
    Moves (Grammar.commaSeparated n item) := by
  unfold Grammar.commaSeparated
  infer_instance

end Moves

/-! ### Nodes -/

/-- A condition on a kind that is settled by looking at it. -/
class Holding (c : Bool) : Prop where
  holds : c = true

instance : Holding true := ⟨rfl⟩

instance {c : Prop} [Decidable c] {k k' : NodeKind} {f : NodeKind → Bool} [Holding (f k)]
    [Holding (f k')] : Holding (f (if c then k else k')) := by
  split <;> infer_instance

/-- A kind of which nothing is asked, and that no operator has. -/
@[reducible] def isOrdinary : NodeKind → Bool
  | .error | .binaryExpression | .isPatternExpression | .asExpression | .switchExpression
  | .withExpression | .rangeExpression => false
  | _ => true

theorem not_isOperator_of_isOrdinary {kind : NodeKind} (hk : isOrdinary kind = true) :
    ¬IsOperator kind := by
  rintro ⟨form, rfl⟩
  cases form <;> cases hk

theorem Closable.of_ne {kind : NodeKind} {parts : List Tree} {errors : List ParseError}
    (herror : kind = .error → errors ≠ []) (hbinary : kind ≠ .binaryExpression) :
    Closable kind parts errors := ⟨herror, fun h => absurd h hbinary⟩

theorem Closable.of_isOrdinary {kind : NodeKind} {parts : List Tree} {errors : List ParseError}
    (hk : isOrdinary kind = true) : Closable kind parts errors := by
  refine .of_ne ?_ ?_ <;> rintro rfl <;> cases hk

/-- The step gives the kind of a node: one that no operator has, and an error only behind a
problem. -/
class Closes (p : Parse NodeKind) : Prop where
  closes : ∀ {b kind b'}, Readable b → p b = .ok (kind, b') →
    ¬IsOperator kind ∧ (kind = .error → b'.errors ≠ [])

namespace Closes

instance pure {kind : NodeKind} [h : Holding (isOrdinary kind)] :
    Closes (Pure.pure kind : Parse NodeKind) where
  closes _ hrun := by
    obtain ⟨rfl, -⟩ := eq_of_pure hrun
    refine ⟨not_isOperator_of_isOrdinary h.holds, ?_⟩
    rintro rfl
    exact absurd h.holds (by decide)

instance bind {f : α → Parse NodeKind} [Moves p] [∀ a, Closes (f a)] : Closes (p >>= f) where
  closes hb hrun := by
    obtain ⟨a, b', hrun, hrun'⟩ := exists_of_bind hrun
    exact closes ((Moves.makes hb hrun).readable hb) hrun'

/-- A step, and one that has to be looked at more closely. -/
theorem bind_of {f : α → Parse NodeKind} [Moves p] (hf : ∀ a, Closes (f a)) : Closes (p >>= f) :=
  bind

instance ite {c : Prop} [Decidable c] {p q : Parse NodeKind} [Closes p] [Closes q] :
    Closes (if c then p else q) := by
  split <;> infer_instance

end Closes

theorem errors_of_report {message : String} {b b' : Builder} {a : Unit} (hb : Readable b)
    (hrun : report message b = .ok (a, b')) : b'.errors ≠ [] := by
  obtain ⟨_, -, he, -⟩ := yields_report message hb a b' hrun
  exact he

/-- Behind a problem a node may be an error. -/
theorem Closes.report_bind {message : String} {f : Unit → Parse NodeKind} [Moves (f ())]
    (hf : ∀ {b kind b'}, f () b = .ok (kind, b') → ¬IsOperator kind) :
    Closes (report message >>= f) where
  closes hb hrun := by
    obtain ⟨_, b₁, hreport, hrest⟩ := exists_of_bind hrun
    have hb₁ := (Moves.makes hb hreport).readable hb
    have hmoves : Makes b₁ _ := Moves.makes hb₁ hrest
    exact ⟨hf hrest, fun _ => hmoves.errors_ne_nil (errors_of_report hb hreport)⟩

namespace Moves

/-- What is placed in a fresh open node becomes one node. -/
theorem node_of {kind : NodeKind} [Moves p] (hk : ∀ {b a b'}, Readable b → b.parts = #[] →
    p b = .ok (a, b') → Closable kind b'.parts.toList b'.errors) :
    Moves (Grammar.node kind p) where
  makes {b _ _} hb hrun := by
    obtain ⟨b', hinner, rfl⟩ := exists_of_gather hrun
    have hfresh : Readable { b with parts := #[] } := hb
    exact .gather (makes hfresh hinner) (hk hfresh rfl hinner)

instance node {kind : NodeKind} [Holding (isOrdinary kind)] [Moves p] :
    Moves (Grammar.node kind p) :=
  node_of fun _ _ _ => .of_isOrdinary Holding.holds

/-- A range may begin with its operator. -/
instance rangeNode [Moves p] : Moves (Grammar.node .rangeExpression p) :=
  node_of fun _ _ _ => .of_ne (fun h => by cases h) (by decide)

instance nodeOf {p : Parse NodeKind} [Moves p] [Closes p] : Moves (Grammar.nodeOf p) where
  makes {b _ _} hb hrun := by
    obtain ⟨kind, b₁, hrun, hrest⟩ := exists_of_bind hrun
    obtain ⟨-, rfl⟩ := eq_of_pure hrest
    obtain ⟨b', hinner, rfl⟩ := exists_of_gather hrun
    have hfresh : Readable { b with parts := #[] } := hb
    obtain ⟨hop, herror⟩ := Closes.closes hfresh hinner
    refine .gather (makes hfresh hinner) (.of_ne herror ?_)
    rintro rfl
    exact hop ⟨.plain, rfl⟩

instance nodeWhen {kind : NodeKind} [Holding (isOrdinary kind)] {p : Parse Bool} [Moves p] :
    Moves (Grammar.nodeWhen kind p) where
  makes {b ok _} hb hrun := by
    obtain ⟨b', hinner, rfl⟩ := exists_of_gather hrun
    have h : Makes { b with parts := #[] } b' := makes hb hinner
    cases ok with
    | true => exact .gather h (.of_isOrdinary Holding.holds)
    | false => exact .inline h

instance nodeUnlessBlank {kind : NodeKind} [Holding (isOrdinary kind)] {p : Parse Unit} [Moves p] :
    Moves (Grammar.nodeUnlessBlank kind p) := by
  unfold Grammar.nodeUnlessBlank
  infer_instance

/-- The last part becomes the first part of a node. -/
theorem wrapLast_of {kind : NodeKind} [Moves p]
    (hk : ∀ {b a b'}, Readable b → p b = .ok (a, b') → Closable kind b'.parts.toList b'.errors) :
    Moves (Grammar.wrapLast kind p) where
  makes {b _ _} hb hrun := by
    obtain ⟨⟨_, b'⟩, hinner, h⟩ := exists_of_map hrun
    cases h
    have hfresh : Readable { b with parts := (b.parts.back?.map (#[·])).getD #[] } := hb
    exact .wrap (makes hfresh hinner) (hk hfresh hinner)

instance wrapLast {kind : NodeKind} [Holding (isOrdinary kind)] [Moves p] :
    Moves (Grammar.wrapLast kind p) :=
  wrapLast_of fun _ _ => .of_isOrdinary Holding.holds

instance wrapAll {kind : NodeKind} [Holding (isOrdinary kind)] :
    Moves (Grammar.wrapAll kind) where
  makes _ hrun := by
    cases hrun
    exact .wrapAll (.of_isOrdinary Holding.holds)

/-- What is set aside comes behind a problem. -/
instance skipToken (message : String) : Moves (Grammar.skipToken message) where
  makes {b _ _} hb hrun := by
    obtain ⟨_, b₁, hreport, hrest⟩ := exists_of_bind hrun
    have h₁ := makes hb hreport
    have he := errors_of_report hb hreport
    obtain ⟨found, b₂, hend, hrest⟩ := exists_of_bind hrest
    obtain ⟨-, rfl⟩ := eq_of_pure hend
    cases found with
    | true =>
      rw [if_neg (by decide)] at hrest
      exact h₁.trans (makes (h₁.readable hb) hrest)
    | false =>
      rw [if_pos (by decide)] at hrest
      obtain ⟨b', hbump, rfl⟩ := exists_of_gather hrest
      have h : Makes { b₂ with parts := #[] } b' := makes (h₁.readable hb) hbump
      exact h₁.trans (.gather h (.of_ne (fun _ => h.errors_ne_nil he) (by decide)))

end Moves

end PluginLint.Grammar
