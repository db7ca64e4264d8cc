import PluginLint.Binding.FileModel
import PluginLint.Grammar.Parse
import Mathlib.Logic.Relation
import Mathlib.Tactic.ByContra
import Mathlib.Tactic.SplitIfs

/-!
# Types and the depth they are looked for

The rules for types are followed at most so many steps deep, and what lies deeper has no known type.
Some expressions look elsewhere when an operand has no type: the other operand of `??` or of a
condition, a method that extends any type, a type with a dotted name. For these an operand that is
merely too deep is like one without a type, so that their answer can change when more steps are left.
This is the only way in which an answer can change.
-/
namespace PluginLint.Binding.FileModel

open Relation

/-- What the type of a variable may depend on. -/
def variableOperands (v : Variable) : List Node :=
  match v.type with
  | .declared _ value? => value?.toList
  | .element _ collection => [collection]
  | .unknown => []

/-- What the type of a name may depend on: the object being made, or the variable it stands for. -/
def nameOperands (m : FileModel) (n : Node) : List Node :=
  match m.initializedObject? n.span with
  | some object => [object]
  | none =>
    if n.kind = .identifierName then
      ((identifierName? n).bind fun name => m.findVariable? name n.span.start).elim []
        variableOperands
    else []

/-- The object whose method is called. -/
def calledObject (call : Node) : List Node :=
  match call.childNodes.head? with
  | none => []
  | some callee =>
    match callee.kind with
    | .simpleMemberAccessExpression | .conditionalAccessExpression => callee.childNodes.take 1
    | _ => []

/-- The nodes whose types are asked for to find the type of a node. -/
def operands (m : FileModel) (n : Node) : List Node :=
  match n.kind with
  | .identifierName | .genericName => m.nameOperands n
  | .parenthesizedExpression | .checkedExpression | .simpleAssignmentExpression
  | .compoundAssignmentExpression | .postfixUnaryExpression | .equalsValueClause
  | .arrowExpressionClause | .simpleMemberAccessExpression | .conditionalAccessExpression
  | .elementAccessExpression | .awaitExpression | .prefixUnaryExpression => n.childNodes.take 1
  | .invocationExpression => calledObject n
  | .conditionalExpression => (n.childNodes.drop 1).take 2
  | .binaryExpression => n.childNodes.take 2
  | _ => []

/-- The operands without whose types the type of a node is looked for elsewhere. -/
def preferred (n : Node) : List Node :=
  match n.kind with
  | .simpleMemberAccessExpression | .conditionalAccessExpression =>
    if (n.childNodes[1]?).any fun c => c.kind == .bracketedArgumentList then []
    else n.childNodes.take 1
  | .invocationExpression => calledObject n
  | .conditionalExpression => (n.childNodes.drop 1).take 1
  | .binaryExpression =>
    n.childNodes.take (if Text.join "" (n.childTokens.map PlacedToken.text) = "+" then 2 else 1)
  | _ => []

theorem mem_operands_of_mem_preferred {m : FileModel} {n p : Node} (h : p ∈ preferred n) :
    p ∈ m.operands n := by
  unfold preferred at h
  unfold operands
  split at h
  · rename_i hk
    rw [hk]
    split at h
    · cases h
    · exact h
  · rename_i hk
    rw [hk]
    split at h
    · cases h
    · exact h
  · rename_i hk
    rw [hk]
    exact h
  · rename_i hk
    rw [hk]
    exact List.take_subset_take_left _ (by omega) h
  · rename_i hk
    rw [hk]
    refine List.take_subset_take_left _ ?_ h
    split <;> omega
  · cases h

/-! ### One rule -/

/-- Types known of some nodes are still known, and the same. -/
def Keeps (infer infer' : Node → Option TypeSymbol) (nodes : List Node) : Prop :=
  ∀ k ∈ nodes, ∀ t, infer k = some t → infer' k = some t

section

variable {m : FileModel} {infer infer' : Node → Option TypeSymbol} {n : Node} {t : TypeSymbol}

theorem Keeps.bind {β : Type} {k : Node} {nodes : List Node} (hkeeps : Keeps infer infer' nodes)
    (hk : k ∈ nodes) {g : TypeSymbol → Option β} {b : β} (h : (infer k).bind g = some b) :
    (infer' k).bind g = some b := by
  obtain ⟨u, hu, hb⟩ := Option.bind_eq_some_iff.1 h
  rw [hkeeps k hk u hu]
  exact hb

theorem Keeps.first (hkeeps : Keeps infer infer' (n.childNodes.take 1))
    (h : n.childNodes.head?.bind infer = some t) : n.childNodes.head?.bind infer' = some t := by
  cases hc : n.childNodes with
  | nil => simp [hc] at h
  | cons c rest =>
    rw [hc] at h hkeeps
    exact hkeeps c (by simp) t h

/-- An operand that is known to have no type, or to have one, decides the same way. -/
theorem Keeps.eq {p : Node} {nodes : List Node} (hkeeps : Keeps infer infer' nodes)
    (hp : p ∈ nodes) (hnone : infer p = none → infer' p = none) : infer p = infer' p := by
  cases hi : infer p with
  | none => exact (hnone hi).symm
  | some u => exact (hkeeps p hp u hi).symm

theorem variableType?_keeps {v : Variable} (hkeeps : Keeps infer infer' (variableOperands v))
    (h : m.variableType? infer v = some t) : m.variableType? infer' v = some t := by
  unfold variableType? at h ⊢
  unfold variableOperands at hkeeps
  cases hv : v.type with
  | declared type value? =>
    rw [hv] at h hkeeps
    dsimp only at h hkeeps ⊢
    split_ifs at h ⊢
    · cases value? with
      | none => cases h
      | some value => exact hkeeps value (by simp) t h
    · exact h
  | element type collection =>
    rw [hv] at h hkeeps
    dsimp only at h hkeeps ⊢
    split_ifs at h ⊢
    · exact hkeeps.bind (by simp) h
    · exact h
  | unknown =>
    rw [hv] at h
    cases h

theorem nameType?_keeps (hkeeps : Keeps infer infer' (m.nameOperands n))
    (h : m.nameType? infer n = some t) : m.nameType? infer' n = some t := by
  unfold nameType? at h ⊢
  unfold nameOperands at hkeeps
  cases hname : identifierName? n with
  | none => simp [hname] at h
  | some name =>
    simp only [hname, Option.bind_eq_bind, Option.bind_some] at h hkeeps ⊢
    cases hobject : m.initializedObject? n.span with
    | some object =>
      simp only [hobject] at h hkeeps ⊢
      exact hkeeps.bind (by simp) h
    | none =>
      simp only [hobject] at h hkeeps ⊢
      by_cases hk : n.kind = .identifierName
      · simp only [hk, if_true] at h hkeeps ⊢
        cases hv : m.findVariable? name n.span.start with
        | none =>
          simp only [hv] at h ⊢
          exact h
        | some v =>
          simp only [hv, Option.elim_some] at h hkeeps ⊢
          exact variableType?_keeps hkeeps h
      · simp only [hk, if_false] at h ⊢
        exact h

/-- With the receiver of a member decided the same way, so is the member. -/
theorem memberAccessType?_keeps (hkeeps : Keeps infer infer' (n.childNodes.take 1))
    (hsame : (n.childNodes[1]?.any fun c => c.kind == .bracketedArgumentList) = false →
      ∀ p ∈ n.childNodes.take 1, infer p = infer' p)
    (h : m.memberAccessType? infer n = some t) : m.memberAccessType? infer' n = some t := by
  unfold memberAccessType? at h ⊢
  match hc : n.childNodes with
  | [] => simp [hc] at h
  | [_] => simp [hc] at h
  | receiver :: member :: rest =>
    rw [hc] at h hkeeps hsame
    dsimp only at h ⊢
    by_cases hk : member.kind = .bracketedArgumentList
    · simp only [hk, if_true] at h ⊢
      exact hkeeps.bind (by simp) h
    · have hreceiver : infer receiver = infer' receiver := hsame (by simp [hk]) receiver (by simp)
      rw [← hreceiver]
      exact h

theorem calledMethod?_congr (hsame : ∀ p ∈ calledObject n, infer p = infer' p) :
    m.calledMethod? infer n = m.calledMethod? infer' n := by
  unfold calledMethod?
  unfold calledObject at hsame
  cases hcallee : n.childNodes.head? with
  | none => rfl
  | some callee =>
    rw [hcallee] at hsame
    dsimp only [Option.bind_eq_bind, Option.bind_some] at hsame ⊢
    have hobject : callee.kind = .simpleMemberAccessExpression ∨
        callee.kind = .conditionalAccessExpression →
        ∀ receiver rest, callee.childNodes = receiver :: rest →
          infer receiver = infer' receiver := by
      intro hk receiver rest hc
      refine hsame receiver ?_
      rcases hk with hk | hk <;> simp [hk, hc]
    split
    · rfl
    · rfl
    · rename_i hk
      split
      · rename_i receiver member rest hc
        rw [hobject (.inl hk) receiver (member :: rest) hc]
      · rfl
    · rename_i hk
      split
      · rename_i receiver member rest hc
        rw [hobject (.inr hk) receiver (member :: rest) hc]
      · rfl
    · rfl

theorem callType?_congr (hsame : ∀ p ∈ calledObject n, infer p = infer' p) :
    m.callType? infer n = m.callType? infer' n := by
  unfold callType?
  rw [calledMethod?_congr hsame]

/-- The right operand of `+` can make the sum a text, so it counts as much as the left one. -/
theorem binaryType?_keeps (hkeeps : Keeps infer infer' (n.childNodes.take 2))
    (hsame : ∀ p ∈ n.childNodes.take
        (if Text.join "" (n.childTokens.map PlacedToken.text) = "+" then 2 else 1),
      infer p = infer' p)
    (h : binaryType? infer n = some t) : binaryType? infer' n = some t := by
  unfold binaryType? at h ⊢
  match hc : n.childNodes with
  | [] => simp [hc] at h
  | [_] => simp [hc] at h
  | left :: right :: rest =>
    rw [hc] at h hkeeps hsame
    dsimp only at h hsame ⊢
    have hleft : infer left = infer' left := by
      refine hsame left ?_
      split <;> simp
    by_cases htest : testOperators.contains
        (Text.join "" (n.childTokens.map PlacedToken.text)) = true
    · simp only [htest, if_true] at h ⊢
      exact h
    · simp only [htest, Bool.false_eq_true, if_false] at h ⊢
      by_cases hsum : Text.join "" (n.childTokens.map PlacedToken.text) = "+"
      · have hright : infer right = infer' right := by
          refine hsame right ?_
          simp [hsum]
        rw [← hleft, ← hright]
        exact h
      · simp only [hsum, if_false] at h ⊢
        rw [← hleft]
        cases hl : infer left with
        | none =>
          simp only [hl, Option.none_or, ite_self] at h ⊢
          exact hkeeps right (by simp) t h
        | some u =>
          simp only [hl, Option.some_or] at h ⊢
          exact h

/-- With the first of two values decided the same way, so is the first that has a type. -/
theorem conditionalType_keeps (hkeeps : Keeps infer infer' ((n.childNodes.drop 1).take 2))
    (hsame : ∀ p ∈ (n.childNodes.drop 1).take 1, infer p = infer' p)
    (h : (match n.childNodes with
      | _ :: whenTrue :: whenFalse :: _ => (infer whenTrue).or (infer whenFalse)
      | _ => none) = some t) :
    (match n.childNodes with
      | _ :: whenTrue :: whenFalse :: _ => (infer' whenTrue).or (infer' whenFalse)
      | _ => none) = some t := by
  match hc : n.childNodes with
  | [] => simp [hc] at h
  | [_] => simp [hc] at h
  | [_, _] => simp [hc] at h
  | test :: whenTrue :: whenFalse :: rest =>
    rw [hc] at h hkeeps hsame
    dsimp only at h ⊢
    rw [← hsame whenTrue (by simp)]
    cases htrue : infer whenTrue with
    | none =>
      rw [htrue, Option.none_or] at h
      rw [Option.none_or]
      exact hkeeps whenFalse (by simp) t h
    | some u =>
      rw [htrue, Option.some_or] at h
      rw [Option.some_or]
      exact h

/-- What one rule says of a node stays, if the types it asks for stay and the preferred operands that
had none still have none. -/
theorem typeFrom_keeps (hkeeps : Keeps infer infer' (m.operands n))
    (hnone : ∀ p ∈ preferred n, infer p = none → infer' p = none)
    (h : m.typeFrom infer n = some t) : m.typeFrom infer' n = some t := by
  have hsame : ∀ p ∈ preferred n, infer p = infer' p := fun p hp =>
    hkeeps.eq (mem_operands_of_mem_preferred hp) (hnone p hp)
  unfold typeFrom at h ⊢
  unfold operands at hkeeps
  unfold preferred at hsame
  -- The kinds of nodes come in the order in which the rules are given.
  split at h <;> rename_i hk <;> simp only [hk] at hkeeps hsame ⊢
  -- Names.
  iterate 2 exact nameType?_keeps hkeeps h
  -- Written types, literals and the type around.
  iterate 15 exact h
  -- Expressions with the type of their first part.
  iterate 7 exact hkeeps.first h
  -- Expressions that name their type.
  iterate 9 exact h
  -- Members.
  · refine memberAccessType?_keeps hkeeps (fun hmember p hp => hsame p ?_) h
    rw [if_neg (by simp [hmember])]
    exact hp
  · obtain ⟨u, hu, rfl⟩ := Option.map_eq_some_iff.1 h
    have hmember := memberAccessType?_keeps hkeeps (fun hmember p hp => hsame p (by
      rw [if_neg (by simp [hmember])]
      exact hp)) hu
    rw [hmember, Option.map_some]
  -- Elements, calls and tasks.
  · obtain ⟨u, hu, ht⟩ := Option.bind_eq_some_iff.1 h
    rw [hkeeps.first hu, Option.bind_some, ht]
  · rw [← callType?_congr hsame]
    exact h
  · obtain ⟨u, hu, rfl⟩ := Option.map_eq_some_iff.1 h
    rw [hkeeps.first hu, Option.map_some]
  -- Values picked by a condition, and operators.
  · exact conditionalType_keeps hkeeps hsame h
  · split_ifs at h ⊢
    · exact h
    · exact hkeeps.first h
  · exact binaryType?_keeps hkeeps hsame h
  -- Declarations, and all that has no type.
  · exact h

end

/-! ### Rules followed many steps deep -/

/-- The nodes whose types may be asked for on the way to the type of a node, and the node. -/
def Asks (m : FileModel) : Node → Node → Prop := ReflTransGen fun n k => k ∈ m.operands n

/-- Steps that are left over change a type found with fewer steps only where it was found in place of
the type of a preferred operand that lay too deep. A start that is deeper by `more` leaves `more`
steps less. -/
theorem typeWithin_keeps_iff (m : FileModel) (n : Node) (more : Nat) :
    (∀ k, m.Asks n k → ∀ steps t,
        m.typeWithin steps k = some t → m.typeWithin (steps + more) k = some t) ↔
      ∀ k, m.Asks n k → ∀ steps t, m.typeWithin (steps + 1) k = some t →
        (∃ p ∈ preferred k, m.typeWithin steps p = none ∧ m.typeWithin (steps + more) p ≠ none) →
        m.typeWithin (steps + more + 1) k = some t := by
  constructor
  · intro h k hk steps t ht _
    have hlater := h k hk (steps + 1) t ht
    rwa [Nat.add_right_comm] at hlater
  · intro h k hk steps
    induction steps generalizing k with
    | zero =>
      intro t ht
      cases ht
    | succ steps ih =>
      intro t ht
      rw [Nat.add_right_comm]
      by_cases hcut : ∃ p ∈ preferred k,
          m.typeWithin steps p = none ∧ m.typeWithin (steps + more) p ≠ none
      · exact h k hk steps t ht hcut
      · have hkeeps : Keeps (m.typeWithin steps) (m.typeWithin (steps + more)) (m.operands k) :=
          fun p hp => ih p (hk.tail hp)
        refine typeFrom_keeps hkeeps (fun p hp hnone => ?_) ht
        by_contra hsome
        exact hcut ⟨p, hp, hnone, hsome⟩

/-- Thirty-two numbers added to a text, one after the other. -/
def longSum : String :=
  "class C\x7bobject F=\"\"+1+1+1+1+1+1+1+1+1+1+1+1+1+1+1+1+1+1+1+1+1+1+1+1+1+1+1+1+1+1+1+1;\x7d"

/-- The model of a file that is bound alone. -/
def ofFile (f : SourceFile) : FileModel :=
  let c := Compilation.ofFiles [f]
  make c (c.files.headD {}) f

/-- Typed from its own place the sum is a text. One step deeper the text is out of reach, and the
numbers decide. -/
theorem typeWithin_longSum :
    ∃ f n t u, SourceFile.parse "t.cs" longSum = .ok f ∧ f.errors = [] ∧
      n ∈ f.nodes ∧ n.kind = .binaryExpression ∧
      (ofFile f).typeWithin depthLimit n = some t ∧ t.special = .string ∧
      (ofFile f).typeWithin (depthLimit - 1) n = some u ∧ u.special = .int32 := by
  have hseen : ((SourceFile.parse "t.cs" longSum).toOption.any fun f =>
      f.errors.isEmpty && f.nodes.any fun n =>
        n.kind == .binaryExpression &&
          ((ofFile f).typeWithin depthLimit n).any (fun t => t.special == .string) &&
          ((ofFile f).typeWithin (depthLimit - 1) n).any fun u => u.special == .int32) = true := by
    rw [longSum, SourceFile.parse_ofList]
    decide +kernel
  obtain ⟨f, hf, hseen⟩ := SourceFile.exists_of_parse_any hseen
  simp only [Bool.and_eq_true, List.isEmpty_iff, List.any_eq_true, Option.any_eq_true,
    beq_iff_eq] at hseen
  obtain ⟨herrors, n, hn, ⟨hkind, t, ht, htext⟩, u, hu, hnumber⟩ := hseen
  exact ⟨f, n, t, u, hf, herrors, hn, hkind, ht, htext, hu, hnumber⟩

end PluginLint.Binding.FileModel
