import PluginLint.Proofs.Moves.Lists

/-!
# Expressions only move

All functions below the loop over binary operators, which needs an invariant of its own.
-/
namespace PluginLint.Grammar

-- An instance is put together along all the steps of a function.
set_option synthInstance.maxSize 20000

variable {n : Nat} {g : Phrases} [Moving g]

theorem isOrdinary_of_literalKind? {ts : List Token} {kind : NodeKind}
    (h : literalKind? ts = some kind) : isOrdinary kind = true := by
  unfold literalKind? at h
  split at h
  case h_5 =>
    split at h
    case h_6 => split_ifs at h; cases h; rfl
    case h_7 => cases h
    all_goals cases h; rfl
  case h_6 => cases h
  all_goals cases h; rfl

namespace Moves

/-! ### Operands -/

instance simpleNameExpression : Moves (Grammar.simpleNameExpression n g) := by
  unfold Grammar.simpleNameExpression
  infer_instance

instance anonymousMethod (modifiers : Nat) : Moves (Grammar.anonymousMethod n g modifiers) := by
  unfold Grammar.anonymousMethod
  infer_instance

instance lambdaBody : Moves (Grammar.lambdaBody g) := by
  unfold Grammar.lambdaBody
  infer_instance

instance lambda : Moves (Grammar.lambda n g) := by
  unfold Grammar.lambda
  infer_instance

instance creation : Moves (Grammar.creation n g) := by
  unfold Grammar.creation
  infer_instance

instance stackArray : Moves (Grammar.stackArray n g) := by
  unfold Grammar.stackArray
  infer_instance

instance parenthesizedType (kind : NodeKind) [Holding (isOrdinary kind)] :
    Moves (Grammar.parenthesizedType n g kind) := by
  unfold Grammar.parenthesizedType
  infer_instance

instance parenthesizedValue : Moves (Grammar.parenthesizedValue g) := by
  unfold Grammar.parenthesizedValue
  infer_instance

instance parenthesizedOrTuple : Moves (Grammar.parenthesizedOrTuple n g) := by
  unfold Grammar.parenthesizedOrTuple
  infer_instance

instance collectionExpression : Moves (Grammar.collectionExpression n g) := by
  unfold Grammar.collectionExpression
  infer_instance

instance keywordOperand (ts : List Token) : Moves (Grammar.keywordOperand n g ts) := by
  unfold Grammar.keywordOperand
  split <;> infer_instance

instance primary : Moves (Grammar.primary n g) := by
  unfold Grammar.primary
  refine bind_of fun ts => ?_
  split
  · rename_i kind hkind
    have : Holding (isOrdinary kind) := ⟨isOrdinary_of_literalKind? hkind⟩
    infer_instance
  · split <;> infer_instance

instance postfixStep : Moves (Grammar.postfixStep n g) := by
  unfold Grammar.postfixStep
  refine bind_of fun ts => ?_
  split
  · infer_instance
  · split <;> infer_instance

instance operand : Moves (Grammar.operand n g) := by
  unfold Grammar.operand
  infer_instance

instance expectUnary : Moves (Grammar.expectUnary g) := by
  unfold Grammar.expectUnary
  infer_instance

instance castExpression : Moves (Grammar.castExpression n g) := by
  unfold Grammar.castExpression
  infer_instance

instance unary : Moves (Grammar.unary n g) := by
  unfold Grammar.unary
  refine bind_of fun ts => ?_
  split <;> infer_instance

/-! ### Right sides and assignments -/

instance switchArms : Moves (Grammar.switchArms n g) := by
  unfold Grammar.switchArms
  infer_instance

instance rightSide (op : BinaryOperator) : Moves (Grammar.rightSide n g op) := by
  unfold Grammar.rightSide
  split <;> infer_instance

end Moves

end PluginLint.Grammar
