import PluginLint.Grammar.Parse
import PluginLint.Proofs.Moves.Statements
import PluginLint.Proofs.Trees.Layout

/-!
# Files only move

A member is an error only behind a problem, and that is the one thing to look at here. The phrases
then give each other what they rely on, by induction on how deep they may nest, and a whole parse is
a run of moves. So in a parsed file every binary expression is grouped by precedence.
-/
namespace PluginLint.Grammar

-- An instance is put together along all the steps of a function.
set_option synthInstance.maxSize 20000

variable {n : Nat} {g : Phrases} [Climbing g]

namespace Moves

/-! ### Members -/

instance modifiers : Moves (Grammar.modifiers n) := by
  unfold Grammar.modifiers
  infer_instance

instance accessor : Moves (Grammar.accessor n g) := by
  unfold Grammar.accessor
  infer_instance

instance accessorList : Moves (Grammar.accessorList n g) := by
  unfold Grammar.accessorList
  infer_instance

instance accessorsOrSemicolon : Moves (Grammar.accessorsOrSemicolon n g) := by
  unfold Grammar.accessorsOrSemicolon
  infer_instance

instance accessorsOrArrow : Moves (Grammar.accessorsOrArrow n g) := by
  unfold Grammar.accessorsOrArrow
  infer_instance

instance interfaceSpecifier : Moves (Grammar.interfaceSpecifier n g) := by
  unfold Grammar.interfaceSpecifier
  infer_instance

instance operatorToken : Moves (Grammar.operatorToken) := by
  unfold Grammar.operatorToken
  infer_instance

instance fields : Moves (Grammar.fields n g) := by
  unfold Grammar.fields
  infer_instance

instance constructor : Moves (Grammar.constructor n g) := by
  unfold Grammar.constructor
  infer_instance

instance destructor : Moves (Grammar.destructor n g) := by
  unfold Grammar.destructor
  infer_instance

instance conversion : Moves (Grammar.conversion n g) := by
  unfold Grammar.conversion
  infer_instance

instance event : Moves (Grammar.event n g) := by
  unfold Grammar.event
  infer_instance

instance operatorRest : Moves (Grammar.operatorRest n g) := by
  unfold Grammar.operatorRest
  infer_instance

instance indexerRest : Moves (Grammar.indexerRest n g) := by
  unfold Grammar.indexerRest
  infer_instance

instance namedRest : Moves (Grammar.namedRest n g) := by
  unfold Grammar.namedRest
  infer_instance

instance typedMember : Moves (Grammar.typedMember n g) := by
  unfold Grammar.typedMember
  infer_instance

/-! ### Types -/

instance baseList : Moves (Grammar.baseList n g) := by
  unfold Grammar.baseList
  infer_instance

instance optionalBaseList : Moves (Grammar.optionalBaseList n g) := by
  unfold Grammar.optionalBaseList
  infer_instance

instance enumMember : Moves (Grammar.enumMember n g) := by
  unfold Grammar.enumMember
  infer_instance

instance enumRest : Moves (Grammar.enumRest n g) := by
  unfold Grammar.enumRest
  infer_instance

instance delegateRest : Moves (Grammar.delegateRest n g) := by
  unfold Grammar.delegateRest
  infer_instance

instance typeRest : Moves (Grammar.typeRest n g) := by
  unfold Grammar.typeRest
  infer_instance

instance typeDeclaration : Moves (Grammar.typeDeclaration n g) := by
  unfold Grammar.typeDeclaration
  refine bind_of fun ts => ?_
  split <;> infer_instance

end Moves

/-! ### Kinds of members -/

instance Closes.constructor : Closes (Grammar.constructor n g) := by
  unfold Grammar.constructor
  infer_instance

instance Closes.destructor : Closes (Grammar.destructor n g) := by
  unfold Grammar.destructor
  infer_instance

instance Closes.conversion : Closes (Grammar.conversion n g) := by
  unfold Grammar.conversion
  infer_instance

instance Closes.event : Closes (Grammar.event n g) := by
  unfold Grammar.event
  infer_instance

instance Closes.operatorRest : Closes (Grammar.operatorRest n g) := by
  unfold Grammar.operatorRest
  infer_instance

instance Closes.indexerRest : Closes (Grammar.indexerRest n g) := by
  unfold Grammar.indexerRest
  infer_instance

/-- A problem is noted if the name is missing. -/
theorem errors_of_expectIdentifier {b b' : Builder} (hb : Readable b)
    (hrun : expectIdentifier b = .ok (false, b')) : b'.errors ≠ [] := by
  obtain ⟨found, b₁, hat, hrun⟩ := exists_of_bind hrun
  cases found with
  | true =>
    obtain ⟨_, b₂, -, hrun⟩ := exists_of_bind hrun
    cases hrun
  | false =>
    obtain ⟨_, b₂, hreport, hrun⟩ := exists_of_bind hrun
    obtain ⟨-, rfl⟩ := eq_of_pure hrun
    have hb₁ : Readable b₁ := Moves.makes hb hat |>.readable hb
    exact errors_of_report hb₁ hreport

theorem not_isOperator_error : ¬IsOperator .error := by
  rintro ⟨form, h⟩
  exact form.kind_ne_error h

instance Closes.namedRest : Closes (Grammar.namedRest n g) := by
  unfold Grammar.namedRest
  have herror : Closes (do report "expected `(`, `\x7b` or `=>`"; return .error) :=
    Closes.report_bind fun hrun => by
      obtain ⟨rfl, -⟩ := eq_of_pure hrun
      exact not_isOperator_error
  infer_instance

/-- Without a name the member is an error. -/
theorem closes_named :
    Closes (do if ← expectIdentifier then Grammar.namedRest n g else return .error) where
  closes hb hrun := by
    obtain ⟨found, b₁, hname, hrun⟩ := exists_of_bind hrun
    cases found with
    | true =>
      rw [if_pos rfl] at hrun
      exact Closes.closes (Moves.makes hb hname |>.readable hb) hrun
    | false =>
      obtain ⟨rfl, rfl⟩ := eq_of_pure hrun
      exact ⟨not_isOperator_error, fun _ => errors_of_expectIdentifier hb hname⟩

instance Closes.typedMember : Closes (Grammar.typedMember n g) := by
  unfold Grammar.typedMember
  have := closes_named (n := n) (g := g)
  infer_instance

instance Closes.enumRest : Closes (Grammar.enumRest n g) := by
  unfold Grammar.enumRest
  infer_instance

instance Closes.delegateRest : Closes (Grammar.delegateRest n g) := by
  unfold Grammar.delegateRest
  infer_instance

instance Closes.typeDeclaration : Closes (Grammar.typeDeclaration n g) := by
  unfold Grammar.typeDeclaration
  refine Closes.bind_of fun ts => ?_
  split <;> infer_instance

/-- What is no member becomes an error, behind a problem. -/
instance closes_noMember : Closes (do
    report "expected member declaration"
    if ← isBlankNode then bump
    return .error) :=
  Closes.report_bind fun hrun => by
    obtain ⟨blank, b₁, -, hrun⟩ := exists_of_bind hrun
    split at hrun
    · obtain ⟨_, b₂, -, hrun⟩ := exists_of_bind hrun
      obtain ⟨rfl, -⟩ := eq_of_pure hrun
      exact not_isOperator_error
    · obtain ⟨rfl, -⟩ := eq_of_pure hrun
      exact not_isOperator_error

instance Moves.member : Moves (Grammar.member n g) := by
  unfold Grammar.member
  refine @Moves.nodeOf _ ?_ ?_
  · refine Moves.bind_of fun _ => Moves.bind_of fun _ => Moves.bind_of fun ts => ?_
    split
    · infer_instance
    · dsimp only
      split <;> infer_instance
  · refine Closes.bind_of fun _ => Closes.bind_of fun _ => Closes.bind_of fun ts => ?_
    split
    · infer_instance
    · dsimp only
      split <;> infer_instance

namespace Moves

/-! ### Files -/

instance usingDirective : Moves (Grammar.usingDirective n g) := by
  unfold Grammar.usingDirective
  infer_instance

instance namespaceDeclaration : Moves (Grammar.namespaceDeclaration n g) := by
  unfold Grammar.namespaceDeclaration
  infer_instance

instance namespaceBody (braced : Bool) : Moves (Grammar.namespaceBody n g braced) := by
  unfold Grammar.namespaceBody
  infer_instance

end Moves

/-! ### Tying the phrases together -/

theorem climbing_phrase (n : Nat) : Climbing (phrase n g) where
  moves p := by
    cases p with
    | _ =>
      unfold phrase
      infer_instance
  sound := sound_phrase Climbing.sound n
  climbs hb hrun := (climbs_binary hb hrun).2 rfl

theorem climbing_phrases (n : Nat) : Climbing (phrases n) := by
  induction n with
  | zero =>
    have hclimbs : ∀ {least b b'}, Readable b → phrases 0 (.binary least) b = .ok (true, b') →
        ∃ x, b'.parts = b.parts.push x ∧ x.isNode = true ∧ Bounded least x ∧
          Stopped least b'.ahead := fun _ hrun => by cases hrun
    exact { moves := fun _ => Moves.panic _, sound := sound_phrases 0, climbs := hclimbs }
  | succ n ih => exact climbing_phrase (n + 1)

/-- A whole parse is made of moves. -/
theorem makes_parseTokens {tokens : List Token} {b : Builder} (h : Lexer.Ended tokens)
    (hrun : parseTokens tokens = .ok b) : Makes { ahead := tokens } b := by
  obtain ⟨⟨found, _⟩, hp, rfl⟩ := exists_of_map hrun
  have := climbing_phrases (tokens.length + 1)
  exact Moves.makes (p := phrases (tokens.length + 1) (.namespaceBody false)) h hp

end PluginLint.Grammar

namespace PluginLint.SourceFile

open Grammar (Closable Grouped Makes)

/-- A file whose text can be cut into tokens is what a run of moves over these tokens leaves. -/
theorem exists_makes_of_tokenize (path : String) {source : String} {tokens : List Token}
    (h : Lexer.tokenize source = .ok tokens) :
    ∃ f b leading, parse path source = .ok f ∧ Makes { ahead := tokens } b ∧
      f.errors = b.errors.reverse ∧ f.kind = .compilationUnit ∧
      f.parts = b.parts.toList ++ [.leaf (.endOfFile leading)] := by
  have hended := (Lexer.tokenize_lossless h).2
  obtain ⟨f, hf⟩ := exists_parse path h
  have hofTokens : ofTokens path tokens = .ok f := by
    rwa [parse, h] at hf
  obtain ⟨b, leading, hb, -, rfl⟩ := (ofTokens_eq_ok_iff hended).1 hofTokens
  exact ⟨_, b, leading, hf, Grammar.makes_parseTokens hended hb, rfl, rfl, rfl⟩

/-- What holds of all that becomes a node holds of all nodes below the root. -/
theorem closed_of_mem_nodes {S : NodeKind → List Tree → Prop} {f : SourceFile}
    {tokens : List Token} {b : Grammar.Builder} {last : Token}
    (hmakes : Makes { ahead := tokens } b) (hparts : f.parts = b.parts.toList ++ [.leaf last])
    (hroot : S f.kind f.parts)
    (hS : ∀ kind parts errors, errors <:+ b.errors → Closable kind parts errors → S kind parts)
    {n : Node} (hn : n ∈ f.nodes) : S n.kind n.parts := by
  obtain ⟨q, pre, post, -, hholds, -⟩ := Node.holds_of_mem_nodesOf hn
  have hall : Tree.EveryAll S f.parts := by
    rw [hparts, Tree.everyAll_append]
    exact ⟨hmakes.everyAll hS (by simp), by simp⟩
  have hevery : n.tree.Every S := hholds.every (Tree.every_node.2 ⟨hroot, hall⟩)
  exact (Tree.every_node.1 hevery).1

/-- In every file whose text can be cut into tokens, the operands of a binary expression with two of
them are grouped by the precedence of its operator. -/
theorem parse_groups_operators (path : String) {source : String} {tokens : List Token}
    (h : Lexer.tokenize source = .ok tokens) :
    ∃ f, parse path source = .ok f ∧
      ∀ n ∈ f.nodes, n.kind = .binaryExpression → Grouped n.parts := by
  obtain ⟨f, b, _, hf, hmakes, -, hkind, hparts⟩ := exists_makes_of_tokenize path h
  refine ⟨f, hf, fun n hn => ?_⟩
  refine closed_of_mem_nodes (S := fun kind parts => kind = .binaryExpression → Grouped parts)
    hmakes hparts (fun h => ?_) (fun _ _ _ _ hk => hk.grouped) hn
  rw [hkind] at h
  cases h

/-- Two tokens that touch spell one operator, and `??` groups to the right. -/
theorem parse_groups_operators_shift :
    Lexer.tokenize "a ?? b ?? c >> d;" = .ok
      [⟨.identifier, "a", [], [.space]⟩, ⟨.punct, "??", [], [.space]⟩,
        ⟨.identifier, "b", [], [.space]⟩, ⟨.punct, "??", [], [.space]⟩,
        ⟨.identifier, "c", [], [.space]⟩, ⟨.punct, ">", [], []⟩, ⟨.punct, ">", [], [.space]⟩,
        ⟨.identifier, "d", [], []⟩, ⟨.punct, ";", [], []⟩, .endOfFile []] ∧
    ∃ f, parse "Shift.cs" "a ?? b ?? c >> d;" = .ok f ∧
      ∀ n ∈ f.nodes, n.kind = .binaryExpression → Grouped n.parts := by
  refine ⟨?tokens, parse_groups_operators "Shift.cs" ?tokens⟩
  decide +kernel

example : (parse "Shift.cs" "a ?? b ?? c >> d;").map (fun f =>
    (f.nodes.filter fun n => n.kind == .binaryExpression).map fun n =>
      (n.text, Grammar.operatorBehind? n.parts)) = .ok
    [("a ?? b ?? c >> d", some ⟨1, 1, .plain⟩), ("b ?? c >> d", some ⟨1, 1, .plain⟩),
      ("c >> d", some ⟨9, 2, .plain⟩)] := by
  decide +kernel

end PluginLint.SourceFile
