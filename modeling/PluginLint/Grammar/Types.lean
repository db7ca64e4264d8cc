import PluginLint.Grammar.Lookahead

/-!
# Types

Names with type arguments, predefined types, tuples, nullable types and arrays. The number `n`
bounds every loop; it has to be larger than the number of tokens ahead.
-/
namespace PluginLint.Grammar

/-- Type arguments between angle brackets; the first token is `<`. -/
def typeArgumentList (n : Nat) (g : Phrases) : Parse Unit :=
  node .typeArgumentList do
    bump
    repeatUpTo n do
      if ← eat "," then return true
      if ← eat ">" then return false
      orReport (g .type) "expected `>`"

/-- A name and its type arguments where a type is expected; an identifier comes next. -/
def simpleTypeName (n : Nat) (g : Phrases) : Parse Unit := do
  if ← look (startsGenericType n) then
    node .genericName do
      bump
      typeArgumentList n g
  else node .identifierName bump

/-- A dotted name. -/
def dottedName (n : Nat) (g : Phrases) : Parse Bool := do
  if !(← atIdentifier) then return false
  simpleTypeName n g
  repeatUpTo n do
    if startsQualifier (← ahead) then
      wrapLast .qualifiedName do
        bump
        simpleTypeName n g
      return true
    return false
  return true

/-- A tuple type; the first token is `(`. -/
def tupleType (n : Nat) (g : Phrases) : Parse Unit :=
  node .tupleType do
    bump
    commaSeparated n do
      if ← expectType (g .type) then
        if ← atIdentifier then bump
        return true
      return false
    discard (expect ")")

/-- One empty rank, if there is one. -/
def emptyRank (n : Nat) : Parse Bool := do
  if (skipEmptyRank? (← ahead)).isSome then
    node .arrayRankSpecifier do
      bump
      bumpWhile n ","
      bump
    return true
  return false

/-- A type. A question mark and empty ranks may be left out of it. -/
def typePhrase (n : Nat) (g : Phrases) (nullable arrays : Bool) : Parse Bool := do
  let ts ← ahead
  if startsPredefined ts then node .predefinedType bump
  else if startsIdentifier ts then discard (dottedName n g)
  else if ← look (startsTupleType n) then tupleType n g
  else return false
  repeatUpTo n do
    if nullable && (← atText "?") then
      wrapLast .nullableType bump
      return true
    if arrays && (skipEmptyRank? (← ahead)).isSome then
      wrapLast .arrayType (repeatUpTo n (emptyRank n))
      return true
    return false
  return true

/-- A type with all that may follow it. -/
def fullType (n : Nat) (g : Phrases) : Parse Bool := typePhrase n g true true

end PluginLint.Grammar
