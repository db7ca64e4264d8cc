import PluginLint.Proofs.Moves.Climbing

/-!
# Statements only move

Conditions, assignments and statements, which contain expressions with operators.
-/
namespace PluginLint.Grammar

-- An instance is put together along all the steps of a function.
set_option synthInstance.maxSize 20000

variable {n : Nat} {g : Phrases} [Climbing g]

theorem isOrdinary_of_assignmentOperator? {ts : List Token} {kind : NodeKind} {tokens : Nat}
    (h : assignmentOperator? ts = some (kind, tokens)) : isOrdinary kind = true := by
  simp only [assignmentOperator?] at h
  split_ifs at h
  all_goals
    cases h
    rfl

namespace Moves

/-! ### Conditions and assignments -/

instance conditional : Moves (Grammar.conditional n g) := by
  unfold Grammar.conditional
  infer_instance

instance expression : Moves (Grammar.expression n g) := by
  unfold Grammar.expression
  refine bind_of fun _ => ?_
  split
  · infer_instance
  refine bind_of fun _ => ?_
  split
  · infer_instance
  refine bind_of fun ts => ?_
  dsimp only
  split
  · rename_i kind tokens h
    have : Holding (isOrdinary kind) := ⟨isOrdinary_of_assignmentOperator? h⟩
    infer_instance
  · infer_instance

/-! ### Statements -/

instance embeddedStatement : Moves (Grammar.embeddedStatement g) := by
  unfold Grammar.embeddedStatement
  infer_instance

instance statementsUntil (stop : List Token → Bool) : Moves (Grammar.statementsUntil n g stop) := by
  unfold Grammar.statementsUntil
  infer_instance

instance block : Moves (Grammar.block n g) := by
  unfold Grammar.block
  infer_instance

instance expectBlock : Moves (Grammar.expectBlock g) := by
  unfold Grammar.expectBlock
  infer_instance

instance guardedStatement (kind : NodeKind) [Holding (isOrdinary kind)] :
    Moves (Grammar.guardedStatement g kind) := by
  unfold Grammar.guardedStatement
  infer_instance

instance ifStatement : Moves (Grammar.ifStatement g) := by
  unfold Grammar.ifStatement
  infer_instance

instance doStatement : Moves (Grammar.doStatement g) := by
  unfold Grammar.doStatement
  infer_instance

instance jumpStatement (kind : NodeKind) [Holding (isOrdinary kind)] :
    Moves (Grammar.jumpStatement g kind) := by
  unfold Grammar.jumpStatement
  infer_instance

instance yieldStatement : Moves (Grammar.yieldStatement g) := by
  unfold Grammar.yieldStatement
  infer_instance

instance gotoStatement : Moves (Grammar.gotoStatement g) := by
  unfold Grammar.gotoStatement
  infer_instance

instance expressionList : Moves (Grammar.expressionList n g) := by
  unfold Grammar.expressionList
  infer_instance

instance forStatement : Moves (Grammar.forStatement n g) := by
  unfold Grammar.forStatement
  infer_instance

instance forEachRest : Moves (Grammar.forEachRest n g) := by
  unfold Grammar.forEachRest
  infer_instance

instance usingRest : Moves (Grammar.usingRest n g) := by
  unfold Grammar.usingRest
  infer_instance

end Moves

instance Closes.usingRest : Closes (Grammar.usingRest n g) := by
  unfold Grammar.usingRest
  infer_instance

namespace Moves

instance catchClause : Moves (Grammar.catchClause n g) := by
  unfold Grammar.catchClause
  infer_instance

instance tryStatement : Moves (Grammar.tryStatement n g) := by
  unfold Grammar.tryStatement
  infer_instance

instance switchLabel : Moves (Grammar.switchLabel n g) := by
  unfold Grammar.switchLabel
  infer_instance

instance switchSection : Moves (Grammar.switchSection n g) := by
  unfold Grammar.switchSection
  infer_instance

instance switchStatement : Moves (Grammar.switchStatement n g) := by
  unfold Grammar.switchStatement
  infer_instance

instance fixedStatement : Moves (Grammar.fixedStatement n g) := by
  unfold Grammar.fixedStatement
  infer_instance

instance blockStatement (kind : NodeKind) [Holding (isOrdinary kind)] :
    Moves (Grammar.blockStatement g kind) := by
  unfold Grammar.blockStatement
  infer_instance

instance keywordStatement (ts : List Token) : Moves (Grammar.keywordStatement n g ts) := by
  unfold Grammar.keywordStatement
  split <;> infer_instance

instance localFunctionRest : Moves (Grammar.localFunctionRest n g) := by
  unfold Grammar.localFunctionRest
  infer_instance

instance localDeclaration : Moves (Grammar.localDeclaration n g) := by
  unfold Grammar.localDeclaration
  infer_instance

instance expressionStatement : Moves (Grammar.expressionStatement n g) := by
  unfold Grammar.expressionStatement
  infer_instance

instance wordStatement (ts : List Token) : Moves (Grammar.wordStatement n g ts) := by
  unfold Grammar.wordStatement
  infer_instance

instance knownStatement : Moves (Grammar.knownStatement n g) := by
  unfold Grammar.knownStatement
  refine bind_of fun ts => ?_
  split <;> infer_instance

instance statement : Moves (Grammar.statement n g) := by
  unfold Grammar.statement
  infer_instance

end Moves

end PluginLint.Grammar
