import PluginLint.Proofs.Moves.Steps

/-!
# Types and lists only move

Each function is an instance by how it is put together; only recursion asks for an induction.
-/
namespace PluginLint.Grammar

-- An instance is put together along all the steps of a function.
set_option synthInstance.maxSize 20000

/-- The phrases inside a phrase only move. -/
class Moving (g : Phrases) : Prop where
  moves : ∀ p, Moves (g p)

variable {n : Nat} {g : Phrases} [Moving g]

namespace Moves

instance phrase (p : Phrase) : Moves (g p) := Moving.moves p

instance expectType {p : Parse Bool} [Moves p] : Moves (Grammar.expectType p) := by
  unfold Grammar.expectType
  infer_instance

instance expectExpression : Moves (Grammar.expectExpression g) := by
  unfold Grammar.expectExpression
  infer_instance

/-! ### Types -/

instance typeArgumentList : Moves (Grammar.typeArgumentList n g) := by
  unfold Grammar.typeArgumentList
  infer_instance

instance simpleTypeName : Moves (Grammar.simpleTypeName n g) := by
  unfold Grammar.simpleTypeName
  infer_instance

instance dottedName : Moves (Grammar.dottedName n g) := by
  unfold Grammar.dottedName
  infer_instance

instance tupleType : Moves (Grammar.tupleType n g) := by
  unfold Grammar.tupleType
  infer_instance

instance emptyRank : Moves (Grammar.emptyRank n) := by
  unfold Grammar.emptyRank
  infer_instance

instance typePhrase (nullable arrays : Bool) : Moves (Grammar.typePhrase n g nullable arrays) := by
  unfold Grammar.typePhrase
  infer_instance

instance fullType : Moves (Grammar.fullType n g) := typePhrase true true

/-! ### Attributes and patterns -/

instance attributeTokens (k depth : Nat) : Moves (Grammar.attributeTokens k depth) := by
  induction k generalizing depth with
  | zero => exact panic _
  | succ k ih =>
    unfold Grammar.attributeTokens
    infer_instance

instance attributeList : Moves (Grammar.attributeList n) := by
  unfold Grammar.attributeList
  infer_instance

instance attributeLists : Moves (Grammar.attributeLists n) := by
  unfold Grammar.attributeLists
  infer_instance

instance patternTokens (k depth : Nat) : Moves (Grammar.patternTokens k depth) := by
  induction k generalizing depth with
  | zero => exact panic _
  | succ k ih =>
    unfold Grammar.patternTokens
    infer_instance

instance pattern : Moves (Grammar.pattern n) := by
  unfold Grammar.pattern
  infer_instance

/-! ### Arguments and values -/

instance declarationExpression (typed : Bool) :
    Moves (Grammar.declarationExpression n g typed) := by
  unfold Grammar.declarationExpression
  infer_instance

instance nameColon : Moves Grammar.nameColon := by
  unfold Grammar.nameColon
  infer_instance

instance argument (typed : Bool) : Moves (Grammar.argument n g typed) := by
  unfold Grammar.argument
  infer_instance

instance argumentsTo (close : String) (kind : NodeKind) [Holding (isOrdinary kind)] :
    Moves (Grammar.argumentsTo n g close kind) := by
  unfold Grammar.argumentsTo
  infer_instance

instance argumentList : Moves (Grammar.argumentList n g) := by
  unfold Grammar.argumentList
  infer_instance

instance bracketedArgumentList : Moves (Grammar.bracketedArgumentList n g) := by
  unfold Grammar.bracketedArgumentList
  infer_instance

instance elementList (close : String) : Moves (Grammar.elementList n g close) := by
  unfold Grammar.elementList
  infer_instance

instance initializer : Moves (Grammar.initializer n g) := by
  unfold Grammar.initializer
  infer_instance

instance optionalInitializer : Moves (Grammar.optionalInitializer n g) := by
  unfold Grammar.optionalInitializer
  infer_instance

instance initialValue : Moves (Grammar.initialValue n g) := by
  unfold Grammar.initialValue
  infer_instance

instance equalsValueClause : Moves (Grammar.equalsValueClause n g) := by
  unfold Grammar.equalsValueClause
  infer_instance

instance rankSpecifiers : Moves (Grammar.rankSpecifiers n g) := by
  unfold Grammar.rankSpecifiers
  infer_instance

/-! ### Parameters -/

instance parameter (close : String) : Moves (Grammar.parameter n g close) := by
  unfold Grammar.parameter
  infer_instance

instance parametersTo (close : String) (kind : NodeKind) [Holding (isOrdinary kind)] :
    Moves (Grammar.parametersTo n g close kind) := by
  unfold Grammar.parametersTo
  infer_instance

instance parameterList : Moves (Grammar.parameterList n g) := by
  unfold Grammar.parameterList
  infer_instance

instance expectParameterList : Moves (Grammar.expectParameterList n g) := by
  unfold Grammar.expectParameterList
  infer_instance

instance typeParameterList : Moves (Grammar.typeParameterList n) := by
  unfold Grammar.typeParameterList
  infer_instance

instance optionalTypeParameters : Moves (Grammar.optionalTypeParameters n) := by
  unfold Grammar.optionalTypeParameters
  infer_instance

instance constraint : Moves (Grammar.constraint n g) := by
  unfold Grammar.constraint
  infer_instance

instance constraintClauses : Moves (Grammar.constraintClauses n g) := by
  unfold Grammar.constraintClauses
  infer_instance

/-! ### Variables and bodies -/

instance declareVariables : Moves (Grammar.declareVariables n g) := by
  unfold Grammar.declareVariables
  infer_instance

instance variableDeclaration : Moves (Grammar.variableDeclaration n g) := by
  unfold Grammar.variableDeclaration
  infer_instance

instance arrowClause : Moves (Grammar.arrowClause g) := by
  unfold Grammar.arrowClause
  infer_instance

instance memberBody : Moves (Grammar.memberBody g) := by
  unfold Grammar.memberBody
  infer_instance

end Moves

end PluginLint.Grammar
