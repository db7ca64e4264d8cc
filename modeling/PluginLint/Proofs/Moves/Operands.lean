import PluginLint.Proofs.Moves.Expressions

/-!
# Operands

What stands between two operators is a node that is no operator itself, or an operator with nothing
to its left. It is the last part that its function leaves, so that only the last steps of a function
matter here.
-/
namespace PluginLint.Grammar

-- An instance is put together along all the steps of a function.
set_option synthInstance.maxSize 20000

variable {n : Nat} {g : Phrases} {b b' : Builder}

/-! ### Operands -/

/-- A node that is no operator, or one without a left operand. -/
def IsOperand (x : Tree) : Prop :=
  ∃ kind parts, x = .node kind parts ∧
    (IsOperator kind → kind ≠ .binaryExpression ∧ ¬HasLeft parts)

/-- The last part of the open node is an operand. -/
def OnOperand (b : Builder) : Prop := ∃ x, b.parts.back? = some x ∧ IsOperand x

/-- The step leaves an operand as the last part. -/
class Ends (p : Parse α) : Prop where
  ends : ∀ {b a b'}, Readable b → p b = .ok (a, b') → OnOperand b'

/-- What the step finds is an operand. -/
class Finds (p : Parse Bool) : Prop where
  finds : ∀ {b b'}, Readable b → p b = .ok (true, b') → OnOperand b'

/-- Behind an operand, the step leaves an operand. -/
class Keeps (p : Parse α) : Prop where
  keeps : ∀ {b a b'}, Readable b → p b = .ok (a, b') → OnOperand b → OnOperand b'

theorem onOperand_push (parts : Array Tree) {kind : NodeKind} (hk : isOrdinary kind = true)
    {inner : List Tree} {ahead : List Token} {offset : Nat} {errors : List ParseError} :
    OnOperand ⟨ahead, offset, errors, parts.push (.node kind inner)⟩ :=
  ⟨_, Array.back?_push, _, _, rfl, fun h => absurd h (not_isOperator_of_isOrdinary hk)⟩

variable {p q : Parse α} {f : α → Parse β}

namespace Ends

instance node {kind : NodeKind} [h : Holding (isOrdinary kind)] : Ends (Grammar.node kind p) where
  ends _ hrun := by
    obtain ⟨b', -, rfl⟩ := exists_of_gather hrun
    exact onOperand_push _ h.holds

instance wrapLast {kind : NodeKind} [h : Holding (isOrdinary kind)] :
    Ends (Grammar.wrapLast kind p) where
  ends _ hrun := by
    obtain ⟨⟨_, b'⟩, -, h⟩ := exists_of_map hrun
    cases h
    exact onOperand_push _ Holding.holds

instance nodeOf {p : Parse NodeKind} [Closes p] : Ends (Grammar.nodeOf p) where
  ends {b _ _} hb hrun := by
    obtain ⟨kind, b₁, hrun, hrest⟩ := exists_of_bind hrun
    obtain ⟨-, rfl⟩ := eq_of_pure hrest
    obtain ⟨b', hinner, rfl⟩ := exists_of_gather hrun
    have hfresh : Readable { b with parts := #[] } := hb
    exact ⟨_, Array.back?_push, _, _, rfl, fun h => absurd h (Closes.closes hfresh hinner).1⟩

instance bind [Moves p] [∀ a, Ends (f a)] : Ends (p >>= f) where
  ends hb hrun := by
    obtain ⟨a, b', hrun, hrun'⟩ := exists_of_bind hrun
    exact ends ((Moves.makes hb hrun).readable hb) hrun'

instance ite {c : Prop} [Decidable c] [Ends p] [Ends q] : Ends (if c then p else q) := by
  split <;> infer_instance

end Ends

namespace Finds

instance none : Finds (pure false) where
  finds _ hrun := by cases hrun

instance found [Ends p] : Finds (p >>= fun _ => pure true) where
  finds hb hrun := by
    obtain ⟨a, b', hrun, hrun'⟩ := exists_of_bind hrun
    obtain ⟨-, rfl⟩ := eq_of_pure hrun'
    exact Ends.ends hb hrun

instance bind {f : α → Parse Bool} [Moves p] [∀ a, Finds (f a)] : Finds (p >>= f) where
  finds hb hrun := by
    obtain ⟨a, b', hrun, hrun'⟩ := exists_of_bind hrun
    exact finds ((Moves.makes hb hrun).readable hb) hrun'

/-- What is not found by one step is looked for by another. -/
instance or {p q : Parse Bool} [Moves p] [Finds p] [Finds q] :
    Finds (p >>= fun found => if found = true then pure true else q) where
  finds hb hrun := by
    obtain ⟨found, b', hrun, hrun'⟩ := exists_of_bind hrun
    cases found with
    | true =>
      obtain ⟨-, rfl⟩ := eq_of_pure hrun'
      exact finds hb hrun
    | false =>
      rw [if_neg (by decide)] at hrun'
      exact finds ((Moves.makes hb hrun).readable hb) hrun'

/-- A step, and one that has to be looked at more closely. -/
theorem bind_of {f : α → Parse Bool} [Moves p] (hf : ∀ a, Finds (f a)) : Finds (p >>= f) := bind

instance ite {c : Prop} [Decidable c] {p q : Parse Bool} [Finds p] [Finds q] :
    Finds (if c then p else q) := by
  split <;> infer_instance

end Finds

namespace Keeps

instance pure (a : α) : Keeps (Pure.pure a : Parse α) where
  keeps _ hrun h := by
    obtain ⟨-, rfl⟩ := eq_of_pure hrun
    exact h

instance ends [Ends p] : Keeps p where
  keeps hb hrun _ := Ends.ends hb hrun

instance bind [Moves p] [Keeps p] [∀ a, Keeps (f a)] : Keeps (p >>= f) where
  keeps hb hrun h := by
    obtain ⟨a, b', hrun, hrun'⟩ := exists_of_bind hrun
    exact keeps ((Moves.makes hb hrun).readable hb) hrun' (keeps hb hrun h)

/-- A step, and one that has to be looked at more closely. -/
theorem bind_of [Moves p] [Keeps p] (hf : ∀ a, Keeps (f a)) : Keeps (p >>= f) := bind

instance ite {c : Prop} [Decidable c] [Keeps p] [Keeps q] : Keeps (if c then p else q) := by
  split <;> infer_instance

instance upcoming : Keeps Grammar.upcoming where
  keeps hb hrun h := by
    obtain ⟨_, -, -, rfl, -⟩ := yields_upcoming hb _ _ hrun
    exact h

instance repeatUpTo {step : Parse Bool} [Moves step] [Keeps step] (n : Nat) :
    Keeps (Grammar.repeatUpTo n step) where
  keeps hb hrun h := by
    refine (repeatUpTo_keeps (I := fun b => Readable b ∧ OnOperand b) ?_ ⟨hb, h⟩ hrun).2
    intro b again b' hI hrun
    exact ⟨(Moves.makes hI.1 hrun).readable hI.1, keeps hI.1 hrun hI.2⟩

end Keeps

section
variable [Moving g]

instance : Ends (simpleNameExpression n g) := by
  unfold simpleNameExpression
  infer_instance

instance (modifiers : Nat) : Ends (anonymousMethod n g modifiers) := by
  unfold anonymousMethod
  infer_instance

instance : Ends (creation n g) := by
  unfold creation
  infer_instance

instance : Ends (stackArray n g) := by
  unfold stackArray
  infer_instance

instance (kind : NodeKind) [Holding (isOrdinary kind)] : Ends (parenthesizedType n g kind) := by
  unfold parenthesizedType
  infer_instance

instance : Ends (parenthesizedOrTuple n g) := by
  unfold parenthesizedOrTuple
  infer_instance

instance : Ends (collectionExpression n g) := by
  unfold collectionExpression
  infer_instance

instance (ts : List Token) : Finds (keywordOperand n g ts) := by
  unfold keywordOperand
  split <;> infer_instance

instance : Finds (primary n g) := by
  unfold primary
  refine Finds.bind_of fun ts => ?_
  split
  · rename_i kind hkind
    have : Holding (isOrdinary kind) := ⟨isOrdinary_of_literalKind? hkind⟩
    infer_instance
  · split <;> infer_instance

instance : Keeps (postfixStep n g) := by
  unfold postfixStep
  refine Keeps.bind_of fun ts => ?_
  split
  · infer_instance
  · split <;> infer_instance

instance : Finds (operand n g) where
  finds hb hrun := by
    obtain ⟨found, b₁, hprimary, hrun⟩ := exists_of_bind hrun
    cases found with
    | false => cases hrun
    | true =>
      obtain ⟨_, b₂, hloop, hrun⟩ := exists_of_bind hrun
      obtain ⟨-, rfl⟩ := eq_of_pure hrun
      have hb₁ := (Moves.makes hb hprimary).readable hb
      exact Keeps.keeps hb₁ hloop (Finds.finds hb hprimary)

instance : Finds (castExpression n g) := by
  unfold castExpression
  infer_instance

end

/-- A range without a left operand begins with its operator. -/
theorem onOperand_of_range {f : Unit → Parse α} (hb : Readable b) (hm : More b)
    (hf : Steady (f ())) {a : α} (hrun : node .rangeExpression (bump >>= f) b = .ok (a, b')) :
    OnOperand b' := by
  obtain ⟨b₁, hinner, rfl⟩ := exists_of_gather hrun
  have hfresh : Readable { b with parts := #[] } := hb
  obtain ⟨_, hg, t, rest, rfl⟩ := yields_bump_headed hm.fresh hf hfresh _ _ hinner
  have hparts : b₁.parts.toList = .leaf t :: rest := by simpa using hg.parts
  refine ⟨_, Array.back?_push, _, _, rfl, fun _ => ⟨by decide, ?_⟩⟩
  rintro ⟨left, rest', h, hleft⟩
  rw [hparts] at h
  cases h
  cases hleft

theorem finds_unary [Moving g] (hg : Sound g) : Finds (unary n g) where
  finds {b b'} hb hrun := by
    obtain ⟨ts, b₁, hup, hrun⟩ := exists_of_bind hrun
    obtain ⟨_, -, rfl, rfl, -⟩ := yields_upcoming hb _ _ hup
    generalize hk : kindAt b₁.ahead 0 = kind at hrun
    cases kind with
    | punct =>
      dsimp only at hrun
      split at hrun
      · exact Finds.finds hb hrun
      split at hrun
      · obtain ⟨_, b₂, hrun, hrest⟩ := exists_of_bind hrun
        obtain ⟨-, rfl⟩ := eq_of_pure hrest
        refine onOperand_of_range hb (more_of_kindAt (by simp [hk])) ?_ hrun
        refine steady_ahead.bind fun _ => .ite ?_ (.pure _)
        exact Steady.discard fun b => (hg.unary b).anything
      · exact Finds.finds hb hrun
    | _ => exact Finds.finds hb hrun

end PluginLint.Grammar
