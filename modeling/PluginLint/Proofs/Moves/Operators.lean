import PluginLint.Proofs.Progress.Expressions

/-!
# Operators of finished expressions

The operator of a node can be read off its tokens again, just as it was read when the node was made:
what has been parsed behind it spells the same text at the same distance as what was ahead. By their
operators, binary expressions are grouped as the precedences ask for.
-/
namespace PluginLint.Grammar

/-! ### Grouping -/

/-- The kind of an expression with an operator between a left operand and something else. -/
def IsOperator (kind : NodeKind) : Prop := ∃ form : BinaryForm, form.kind = kind

/-- The operator behind the first part of an expression. -/
def operatorBehind? (parts : List Tree) : Option BinaryOperator :=
  binaryOperator? (Tree.tokensAll parts.tail)

/-- The operator behind the first part is `??`, which groups to the right. -/
def Coalesces (parts : List Tree) : Prop := textAt (Tree.tokensAll parts.tail) 0 = "??"

/-- The operands of a binary expression; one of them may be missing. -/
def operands (parts : List Tree) : List Tree := parts.filter Tree.isNode

/-- The parts begin with a node: the operator behind it has a left operand. -/
def HasLeft (parts : List Tree) : Prop := ∃ left rest, parts = left :: rest ∧ left.isNode = true

/-- The parts are two operands and, between them, the tokens that spell an operator. -/
def Joins (left : Tree) (op : BinaryOperator) (right : Tree) (parts : List Tree) : Prop :=
  operatorBehind? parts = some op ∧ ∃ spelled : List Token, spelled.length = op.tokens ∧
    parts = left :: (spelled.map .leaf ++ [right])

/-- On the right of a binary expression an operator with a left operand of its own binds more
tightly, or as tightly in the case of `??`. -/
def BindsRight (parts : List Tree) (op : BinaryOperator) (right : Tree) : Prop :=
  ∀ kind inner, right = .node kind inner → IsOperator kind → HasLeft inner →
    ∃ q, operatorBehind? inner = some q ∧
      (op.precedence < q.precedence ∨ Coalesces parts ∧ op.precedence ≤ q.precedence)

/-- On the left of a binary expression, one with both operands binds as tightly, or more tightly in
the case of `??`. -/
def BindsLeft (parts : List Tree) (op : BinaryOperator) (left : Tree) : Prop :=
  ∀ inner, left = .node .binaryExpression inner → (operands inner).length = 2 →
    ∃ q, operatorBehind? inner = some q ∧ op.precedence ≤ q.precedence ∧
      (Coalesces parts → op.precedence < q.precedence)

/-- A binary expression has a left operand, and no more than two. If it has both, it is grouped by
precedence, to the left except at `??`. -/
structure Grouped (parts : List Tree) : Prop where
  left : HasLeft parts
  two : (operands parts).length ≤ 2
  grouped : ∀ left right, operands parts = [left, right] →
    ∃ op, Joins left op right parts ∧ BindsLeft parts op left ∧ BindsRight parts op right

/-! ### Reading an operator again -/

variable {ts us : List Token} {op : BinaryOperator}

@[simp] theorem nth_cons_zero (t : Token) (ts : List Token) : nth (t :: ts) 0 = t := rfl

@[simp] theorem nth_cons_succ (t : Token) (ts : List Token) (k : Nat) :
    nth (t :: ts) (k + 1) = nth ts k := rfl

@[simp] theorem nth_nil (k : Nat) : nth [] k = Token.endOfFile [] := rfl

theorem greaterOperator?_spec (h : greaterOperator? ts = some op) :
    op.form = .plain ∧ 1 < op.precedence := by
  simp only [greaterOperator?] at h
  split_ifs at h <;> cases h <;> decide

theorem plainPrecedence?_spec {text : String} {p : Nat} (h : plainPrecedence? text = some p) :
    0 < p ∧ (p = 1 ↔ text = "??") := by
  unfold plainPrecedence? at h
  split at h
  all_goals first
    | cases h; decide
    | cases h

/-- Every operator has a precedence, and only `??` has the least one. -/
theorem precedence_of_binaryOperator? (h : binaryOperator? ts = some op) :
    0 < op.precedence ∧ (op.precedence = 1 ↔ textAt ts 0 = "??") := by
  simp only [binaryOperator?] at h
  split at h
  case h_1 =>
    split_ifs at h with hgreater hrange
    · have := (greaterOperator?_spec h).2
      have htext : textAt ts 0 = ">" := by simpa using hgreater
      simp [htext]
      omega
    · cases h
      have htext : textAt ts 0 = ".." := by simpa using hrange
      simp [htext]
    · obtain ⟨p, hp, rfl⟩ := Option.map_eq_some_iff.1 h
      exact plainPrecedence?_spec hp
  case h_2 =>
    split_ifs at h
    all_goals
      cases h
      simp_all
  case h_3 =>
    split_ifs at h
    cases h
    simp_all
  case h_4 => cases h

/-- Behind the tokens that spell an operator, `us` reads like `ts`: it begins with the same text at
the same distance, or ends there. -/
def ReadsLike (ts us : List Token) : Prop :=
  us = [] ∨ textAt us 0 = textAt ts 0 ∧ (nth us 0).leading = (nth ts 0).leading

theorem greaterOperator?_again {spelled : List Token}
    (h : greaterOperator? (spelled ++ ts) = some op) (hs : spelled.length = op.tokens)
    (hus : ReadsLike ts us) : greaterOperator? (spelled ++ us) = some op := by
  simp only [greaterOperator?] at h
  split_ifs at h
  all_goals
    cases h
    rcases hus with rfl | ⟨htext, hleading⟩
  all_goals first
    | obtain ⟨a, rfl⟩ := List.length_eq_one_iff.1 hs
      simp_all [greaterOperator?, textAt, joined, Token.endOfFile]
    | obtain ⟨a, b, rfl⟩ := List.length_eq_two.1 hs
      simp_all [greaterOperator?, textAt, joined, Token.endOfFile]
    | obtain ⟨a, b, c, rfl⟩ := List.length_eq_three.1 hs
      simp_all [greaterOperator?, textAt, joined]

/-- The operators in front of a brace. -/
def BinaryForm.IsBraced (form : BinaryForm) : Prop := form = .switchArms ∨ form = .withValues

/-- A brace follows the operators that need one. -/
theorem binaryOperator?_braced (h : binaryOperator? ts = some op) (hop : op.form.IsBraced) :
    op.tokens = 1 ∧ textAt ts 1 = "\x7b" := by
  simp only [binaryOperator?] at h
  split at h
  case h_1 =>
    exfalso
    split_ifs at h
    · rw [BinaryForm.IsBraced, (greaterOperator?_spec h).1] at hop
      rcases hop with hop | hop <;> cases hop
    · cases h
      rcases hop with hop | hop <;> cases hop
    · obtain ⟨p, -, rfl⟩ := Option.map_eq_some_iff.1 h
      rcases hop with hop | hop <;> cases hop
  case h_2 =>
    split_ifs at h with _ _ hswitch
    · cases h
      rcases hop with hop | hop <;> cases hop
    · cases h
      rcases hop with hop | hop <;> cases hop
    · cases h
      rw [Bool.and_eq_true, beq_iff_eq, beq_iff_eq] at hswitch
      exact ⟨rfl, hswitch.2⟩
  case h_3 =>
    split_ifs at h with hwith
    cases h
    rw [Bool.and_eq_true, beq_iff_eq, beq_iff_eq] at hwith
    exact ⟨rfl, hwith.2⟩
  case h_4 => cases h

/-- An operator is read again in front of other tokens that read like those ahead; the operators in
front of a brace need it. -/
theorem binaryOperator?_again {spelled : List Token}
    (h : binaryOperator? (spelled ++ ts) = some op) (hs : spelled.length = op.tokens)
    (hus : ReadsLike ts us) (hbraced : op.form.IsBraced → us ≠ []) :
    binaryOperator? (spelled ++ us) = some op := by
  obtain ⟨a, rest, rfl⟩ : ∃ a rest, spelled = a :: rest :=
    List.exists_cons_of_length_pos (hs ▸ Nat.pos_of_ne_zero (tokens_ne_zero_of_binaryOperator? h))
  have hkind : kindAt (a :: rest ++ us) 0 = kindAt (a :: rest ++ ts) 0 := rfl
  have htext : textAt (a :: rest ++ us) 0 = textAt (a :: rest ++ ts) 0 := rfl
  have hbrace : op.form.IsBraced → textAt (a :: rest ++ us) 1 = "\x7b" := fun hop => by
    obtain ⟨hone, hts⟩ := binaryOperator?_braced h hop
    obtain rfl : rest = [] := by simpa [hone] using hs
    exact (hus.resolve_left (hbraced hop)).1.trans hts
  simp only [binaryOperator?] at h
  simp only [binaryOperator?, hkind, htext]
  split at h
  case h_1 =>
    split_ifs at h ⊢
    · exact greaterOperator?_again h hs hus
    · exact h
    · exact h
  case h_2 =>
    split_ifs at h with his has hswitch
    · rwa [if_pos his]
    · rwa [if_neg his, if_pos has]
    · cases h
      rw [if_neg his, if_neg has, (Bool.and_eq_true_iff.1 hswitch).1, hbrace (.inl rfl)]
      rfl
  case h_3 =>
    split_ifs at h with hwith
    cases h
    rw [(Bool.and_eq_true_iff.1 hwith).1, hbrace (.inr rfl)]
    rfl
  case h_4 => cases h

end PluginLint.Grammar
