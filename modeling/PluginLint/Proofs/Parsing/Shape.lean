import PluginLint.Rules.ControlFlow

/-!
# Shapes of parsed trees

What the parser promises of the nodes that it makes, whatever the input. A node always has parts,
and a node of control flow begins with a token. In a file without problems more is known of the
nodes around a body and of the jumps that may stand there: which tokens they have, and where.
-/
namespace PluginLint

namespace Tree

/-- Induction over a tree, with the hypothesis for all parts of a node. -/
@[elab_as_elim]
theorem induct {motive : Tree → Prop} (leaf : ∀ t, motive (.leaf t))
    (node : ∀ kind parts, (∀ t ∈ parts, motive t) → motive (.node kind parts)) :
    ∀ t, motive t
  | .leaf t => leaf t
  | .node kind parts => node kind parts fun t _ => induct leaf node t

/-- Induction along the parts of a node: what is shown of the later ones holds in front of them, and
each one met is a part of the node. -/
@[elab_as_elim]
theorem along {motive : List Tree → Prop} (parts : List Tree) (nil : motive [])
    (cons : ∀ t ts, t ∈ parts → motive ts → motive (t :: ts)) : motive parts := by
  induction parts with
  | nil => exact nil
  | cons t ts ih =>
    exact cons t ts List.mem_cons_self (ih fun u us hu => cons u us (List.mem_cons_of_mem t hu))

/- A property of all inner nodes. -/
mutual

/-- Every inner node of a tree has a property of its kind and its parts. -/
def Every (S : NodeKind → List Tree → Prop) : Tree → Prop
  | .node kind parts => S kind parts ∧ EveryAll S parts
  | .leaf _ => True

/-- Every inner node of a list of trees has a property. -/
def EveryAll (S : NodeKind → List Tree → Prop) : List Tree → Prop
  | [] => True
  | t :: ts => Every S t ∧ EveryAll S ts

end

variable {S : NodeKind → List Tree → Prop}

@[simp] theorem every_node {kind : NodeKind} {parts : List Tree} :
    (node kind parts).Every S ↔ S kind parts ∧ EveryAll S parts := by rw [Every]

@[simp] theorem every_leaf {t : Token} : (leaf t).Every S := by rw [Every]; trivial

@[simp] theorem everyAll_nil : EveryAll S [] := by rw [EveryAll]; trivial

@[simp] theorem everyAll_cons {t : Tree} {ts : List Tree} :
    EveryAll S (t :: ts) ↔ t.Every S ∧ EveryAll S ts := by rw [EveryAll]

@[simp] theorem everyAll_append {ts us : List Tree} :
    EveryAll S (ts ++ us) ↔ EveryAll S ts ∧ EveryAll S us := by
  induction ts with
  | nil => simp
  | cons t ts ih => simp [ih, and_assoc]

theorem every_of_mem {t : Tree} {ts : List Tree} (h : EveryAll S ts) (ht : t ∈ ts) : t.Every S := by
  induction ts with
  | nil => cases ht
  | cons u us ih =>
    rw [everyAll_cons] at h
    rcases List.mem_cons.1 ht with rfl | ht
    · exact h.1
    · exact ih h.2 ht

/-- An inner node whose kind is in a class. -/
def HasKind (K : NodeKind → Prop) : Tree → Prop
  | .node kind _ => K kind
  | .leaf _ => False

end Tree

namespace NodeKind

/-- A statement. -/
def IsStatement (kind : NodeKind) : Prop := kind.isStatement = true

/-- A node that is no statement. -/
def IsInner (kind : NodeKind) : Prop := kind.isStatement = false

end NodeKind

/-- What holds of the parts of every node that the parser makes. -/
structure Formed (kind : NodeKind) (parts : List Tree) : Prop where
  nonempty : parts ≠ []
  headed : Rules.controlKinds.contains kind = true → ∃ t rest, parts = .leaf t :: rest
  /-- A block has nodes behind its opening brace; the closing one may be missing. -/
  braced : kind = .block → ∃ opening inner closing,
    parts = .leaf opening :: (inner ++ closing) ∧ opening.text = "\x7b" ∧
      (∀ t ∈ inner, t.isNode = true) ∧
      (closing = [] ∨ ∃ brace, closing = [.leaf brace] ∧ brace.text = "\x7d")
  /-- A name is a single token. -/
  named : kind = .identifierName → ∃ t, parts = [.leaf t]
  /-- A type begins with attributes or with a word. -/
  opened : kind.isTypeDeclaration = true → ∀ first inner,
    parts.head? = some (.node first inner) → first = .attributeList

/-- The words with which a jump begins. -/
def jumpStarts : List String := ["return", "throw", "break", "continue", "yield"]

/-- What holds, in addition, of the parts of a node in a file without problems. -/
structure Complete (kind : NodeKind) (parts : List Tree) : Prop where
  /-- The body of an `if` stands behind a closing parenthesis. -/
  ifBody : kind = .ifStatement → ∃ word opening condition closing body rest,
    parts = .leaf word :: .leaf opening :: condition :: .leaf closing :: body :: rest ∧
      closing.text = ")" ∧ condition.HasKind NodeKind.IsInner ∧ body.HasKind NodeKind.IsStatement
  /-- The body of an `else` stands behind that word. -/
  elseBody : kind = .elseClause → ∃ word body,
    parts = [.leaf word, body] ∧ word.text = "else" ∧ body.HasKind NodeKind.IsStatement
  /-- A block has nodes between two braces. -/
  braces : kind = .block → ∃ opening inner closing,
    parts = .leaf opening :: (inner ++ [.leaf closing]) ∧ opening.text = "\x7b" ∧
      closing.text = "\x7d" ∧ ∀ t ∈ inner, t.isNode = true
  /-- A jump runs from its word to a semicolon. -/
  jump : Rules.isJump kind = true → ∃ word inner semicolon,
    parts = .leaf word :: (inner ++ [.leaf semicolon]) ∧ word.text ∈ jumpStarts ∧
      semicolon.text = ";"

/-- Kinds of which at most the first part is known. -/
def NodeKind.isLoose (kind : NodeKind) : Bool :=
  kind != .ifStatement && kind != .elseClause && kind != .block && kind != .identifierName &&
    !Rules.isJump kind

/-- Kinds of which nothing special is known. -/
def NodeKind.isPlain (kind : NodeKind) : Bool :=
  !Rules.controlKinds.contains kind && !Rules.isJump kind && kind != .block &&
    kind != .identifierName && !kind.isTypeDeclaration

theorem NodeKind.ne_block_of_isLoose {kind : NodeKind} (hk : kind.isLoose = true) :
    kind ≠ .block := by
  rintro rfl
  exact absurd hk (by decide)

theorem NodeKind.ne_identifierName_of_isLoose {kind : NodeKind} (hk : kind.isLoose = true) :
    kind ≠ .identifierName := by
  rintro rfl
  exact absurd hk (by decide)

theorem NodeKind.ne_block_of_isJump {kind : NodeKind} (hk : Rules.isJump kind = true) :
    kind ≠ .block := by
  rintro rfl
  exact absurd hk (by decide)

theorem NodeKind.ne_identifierName_of_isJump {kind : NodeKind} (hk : Rules.isJump kind = true) :
    kind ≠ .identifierName := by
  rintro rfl
  exact absurd hk (by decide)

theorem NodeKind.isLoose_of_isPlain {kind : NodeKind} (hk : kind.isPlain = true) :
    kind.isLoose = true := by
  simp only [isPlain, Bool.and_eq_true, Bool.not_eq_true', bne_iff_ne] at hk
  obtain ⟨⟨⟨⟨hc, hj⟩, hb⟩, hn⟩, -⟩ := hk
  have hif : kind ≠ .ifStatement := by
    rintro rfl
    exact absurd hc (by decide)
  have helse : kind ≠ .elseClause := by
    rintro rfl
    exact absurd hc (by decide)
  simp [isLoose, hif, helse, hb, hn, hj]

theorem NodeKind.isLoose_of_isTypeDeclaration {kind : NodeKind}
    (hk : kind.isTypeDeclaration = true) : kind.isLoose = true := by
  unfold isTypeDeclaration at hk
  split at hk
  all_goals first
    | rfl
    | cases hk

theorem Formed.of_plain {kind : NodeKind} {parts : List Tree} (hk : kind.isPlain = true)
    (hp : parts ≠ []) : Formed kind parts := by
  simp only [NodeKind.isPlain, Bool.and_eq_true, Bool.not_eq_true', bne_iff_ne] at hk
  obtain ⟨⟨⟨⟨hc, -⟩, hb⟩, hn⟩, ht⟩ := hk
  exact ⟨hp, fun h => by simp only [hc, Bool.false_eq_true] at h, fun h => absurd h hb,
    fun h => absurd h hn, fun h => by simp only [ht, Bool.false_eq_true] at h⟩

theorem Formed.of_leaf {kind : NodeKind} {t : Token} {rest : List Tree} (hk : kind ≠ .block)
    (hn : kind ≠ .identifierName) : Formed kind (.leaf t :: rest) :=
  ⟨List.cons_ne_nil _ _, fun _ => ⟨t, rest, rfl⟩, fun h => absurd h hk, fun h => absurd h hn,
    fun _ _ _ h => by cases h⟩

theorem Formed.of_name (t : Token) : Formed .identifierName [.leaf t] where
  nonempty := List.cons_ne_nil _ _
  headed _ := ⟨t, [], rfl⟩
  braced h := by cases h
  named _ := ⟨t, rfl⟩
  opened h := by cases h

theorem Formed.of_typeDeclaration {kind : NodeKind} {parts : List Tree}
    (hk : kind.isTypeDeclaration = true) (hp : parts ≠ [])
    (hfirst : ∀ first inner, parts.head? = some (.node first inner) → first = .attributeList) :
    Formed kind parts := by
  have hloose := NodeKind.isLoose_of_isTypeDeclaration hk
  refine ⟨hp, fun hc => ?_, fun h => absurd h (NodeKind.ne_block_of_isLoose hloose),
    fun h => absurd h (NodeKind.ne_identifierName_of_isLoose hloose), fun _ => hfirst⟩
  unfold NodeKind.isTypeDeclaration at hk
  split at hk
  all_goals first
    | exact absurd hc (by decide)
    | cases hk

theorem Complete.of_loose {kind : NodeKind} {parts : List Tree} (hk : kind.isLoose = true) :
    Complete kind parts := by
  simp only [NodeKind.isLoose, Bool.and_eq_true, Bool.not_eq_true', bne_iff_ne] at hk
  obtain ⟨⟨⟨⟨hif, helse⟩, hb⟩, -⟩, hj⟩ := hk
  exact ⟨fun h => absurd h hif, fun h => absurd h helse, fun h => absurd h hb,
    fun h => by simp only [hj, Bool.false_eq_true] at h⟩

theorem Complete.of_plain {kind : NodeKind} {parts : List Tree} (hk : kind.isPlain = true) :
    Complete kind parts := .of_loose (NodeKind.isLoose_of_isPlain hk)

theorem Complete.of_name {parts : List Tree} : Complete .identifierName parts where
  ifBody h := by cases h
  elseBody h := by cases h
  braces h := by cases h
  jump h := by cases h

/-- Of a jump only the outer parts are known. -/
theorem Complete.of_jump {kind : NodeKind} {parts : List Tree} (hk : Rules.isJump kind = true)
    (hp : ∃ word inner semicolon, parts = .leaf word :: (inner ++ [.leaf semicolon]) ∧
      word.text ∈ jumpStarts ∧ semicolon.text = ";") : Complete kind parts := by
  refine ⟨?_, ?_, ?_, fun _ => hp⟩
  all_goals
    rintro rfl
    exact absurd hk (by decide)

/-- Every tree that the parser makes has a token. -/
theorem Tree.tokens_ne_nil_of_formed {t : Tree} (h : t.Every Formed) : t.tokens ≠ [] := by
  induction t using Tree.induct with
  | leaf token => simp
  | node kind parts ih =>
    rw [every_node] at h
    obtain ⟨u, us, rfl⟩ := List.exists_cons_of_ne_nil h.1.nonempty
    have hu := ih u (by simp) (every_of_mem h.2 (by simp))
    simp [hu]

end PluginLint
