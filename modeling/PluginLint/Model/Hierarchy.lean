import PluginLint.Model.TypeSymbol

/-!
# Base types and interfaces

Walking up from a type through what it extends and implements. A name that has been met is not
followed again.
-/
namespace PluginLint.TypeSymbol

/- The number of types above a type, counted with repetition. -/
mutual

/-- The number of types at and above a type, counted with repetition. -/
def rank : TypeSymbol → Nat
  | ⟨_, _, _, _, base, interfaces, _⟩ => rankOption base + rankAll interfaces + 1

def rankOption : Option TypeSymbol → Nat
  | none => 0
  | some t => rank t

def rankAll : List TypeSymbol → Nat
  | [] => 0
  | t :: ts => rank t + rankAll ts

end

theorem rank_eq (t : TypeSymbol) : t.rank = rankOption t.base + rankAll t.interfaces + 1 := by
  cases t; simp [rank]

@[simp] theorem rankAll_append (ts us : List TypeSymbol) :
    rankAll (ts ++ us) = rankAll ts + rankAll us := by
  induction ts with
  | nil => simp [rankAll]
  | cons t ts ih => simp [rankAll, ih]; omega

@[simp] theorem rankAll_reverse (ts : List TypeSymbol) : rankAll ts.reverse = rankAll ts := by
  induction ts with
  | nil => rfl
  | cons t ts ih => simp [rankAll, ih]; omega

@[simp] theorem rankAll_toList (t : Option TypeSymbol) : rankAll t.toList = rankOption t := by
  cases t <;> simp [rankAll, rankOption]

/-- The type, its base type and so on, up to a name that was met before. -/
def baseChainFrom (seen : List String) (t : TypeSymbol) : List TypeSymbol :=
  if seen.contains t.fullName then []
  else
    match _h : t.base with
    | some b => t :: baseChainFrom (t.fullName :: seen) b
    | none => [t]
termination_by t.rank
decreasing_by
  rw [rank_eq t, _h, rankOption]
  omega

/-- The type, its base type and so on. -/
def baseChain (t : TypeSymbol) : List TypeSymbol := baseChainFrom [] t

/-- The type or one of its base types has this name in this namespace. -/
def baseChainContains (t : TypeSymbol) (space name : String) : Bool :=
  t.baseChain.any fun b => b.isNamed space name

/-- The types directly above a type: its interfaces, the last one first, and its base type. -/
def above (t : TypeSymbol) : List TypeSymbol := t.interfaces.reverse ++ t.base.toList

theorem rankAll_above (t : TypeSymbol) : rankAll t.above + 1 = t.rank := by
  simp [above, rank_eq t]
  omega

/-- One of the pending types, or a type above them, has the name. The type added last is looked at
first. -/
def anyNamed (name : String) (seen : List String) : List TypeSymbol → Bool
  | [] => false
  | t :: pending =>
    if seen.contains t.fullName then anyNamed name seen pending
    else if t.name == name then true
    else anyNamed name (t.fullName :: seen) (t.above ++ pending)
termination_by pending => rankAll pending
decreasing_by
  · have := rank_eq t
    simp only [rankAll]
    omega
  · have := rankAll_above t
    simp only [rankAll, rankAll_append]
    omega

/-- The type, a base type, or an interface of one of them has this name. -/
def implements (t : TypeSymbol) (name : String) : Bool := anyNamed name [] [t]

end PluginLint.TypeSymbol
