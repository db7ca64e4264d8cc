import PluginLint.Grammar.Parse
import PluginLint.Proofs.Parsing.Members

/-!
# Parsing whole files

The phrases of the grammar do what each of them expects of the others, by induction on how deep they
may nest. So a whole parse is one step like any other: its tree has the tokens of the file as leaves,
and its nodes have the shapes that are promised.
-/
namespace PluginLint.Grammar

variable {n : Nat} {g : Phrases} {b : Builder}

/-! ### Namespaces -/

theorem yields_usingDirective (hg : Sound g) (hb : More b) :
    Yields (usingDirective n g) b (One NodeKind.IsInner) := by
  have hname : Steady (do discard (expectType (fullType n g)); discard (expect ";")) :=
    (steady_expectType hg true true).discard.bind fun _ => (steady_expect _).discard
  have hrest : Steady (do
      discard (eat "static")
      let ts ← ahead
      if startsIdentifier ts && textAt ts 1 == "=" then
        bump
        bump
      discard (expectType (fullType n g))
      discard (expect ";")) := by
    refine (steady_eat _).discard.bind fun _ => steady_ahead.bind fun _ => .ite ?_ hname
    exact steady_bump.bind fun _ => steady_bump.bind fun _ => hname
  refine yields_node rfl rfl (.atWord_bind (fun hb => ?_) (yields_bump_then hb.fresh hrest))
  exact yields_bumpKeyword_then hb (steady_bump.bind fun _ => hrest)

theorem yields_namespaceDeclaration (hg : Sound g) (hb : More b) :
    Yields (namespaceDeclaration n g) b (One NodeKind.IsInner) := by
  refine yields_nodeOf_bump hb fun b => ?_
  have hname : Steady (dottedName n g) := fun _ => (yields_dottedName hg).anything
  refine .steady_bind (steady_orReport hname).discard fun _ _ => .steady_bind (steady_eat _) fun _ _ =>
    .ite (fun _ => ?_) fun _ => .steady_bind (steady_expect _) fun _ _ => .ite (fun _ => ?_) fun _ => ?_
  · exact .steady_bind (hg.namespaceBody _).discard fun _ _ => .pure ⟨rfl, rfl⟩
  · exact .steady_bind (hg.namespaceBody _).discard fun _ _ =>
      .steady_bind (steady_expect _).discard fun _ _ => .pure ⟨rfl, rfl⟩
  · exact .pure ⟨rfl, rfl⟩

/-- Without a brace around it, what a namespace holds ends at the end of the file and nowhere else. -/
theorem yields_namespaceBody (hg : Sound g) (braced : Bool) (b : Builder) :
    Yields (namespaceBody n g braced) b fun _ b' _ =>
      braced = false → startsEnd b'.ahead = true := by
  refine yields_repeatUpTo_ends (F := fun b' => braced = false → startsEnd b'.ahead = true)
    (fun b => .of_readable fun hr => .ahead_bind ?_) _ b
  refine .ite (fun h => .pure fun _ hbraced => by simpa [hbraced] using h) fun h => ?_
  have hb : More b := by
    simp only [Bool.or_eq_true, not_or, Bool.not_eq_true] at h
    exact h.1
  -- Every other round asks for one more.
  refine Yields.imp (Q := Gives fun again => again = true) ?_ fun _ _ _ _ hon hstop =>
    absurd (hon.symm.trans hstop) (by decide)
  refine .look_bind fun _ _ => .ite (fun _ => ?_) fun _ => .ite (fun _ => ?_) fun _ =>
    .ite (fun _ => ?_) fun _ => .look_bind fun _ _ => .ite (fun _ => ?_) fun _ => ?_
  · exact (yields_usingDirective hg hb).anything.gives fun _ _ => .pure rfl
  · exact (yields_namespaceDeclaration hg hb).anything.gives fun _ _ => .pure rfl
  · exact (yields_attributeList hb).anything.gives fun _ _ => .pure rfl
  · exact (yields_member hg hb).anything.gives fun _ _ => .pure rfl
  · refine (yields_statement hg).anything.gives fun _ b' => .ite (fun _ => ?_) fun _ => .pure rfl
    exact (steady_skipToken _ b').gives fun _ _ => .pure rfl

/-! ### Tying the phrases together -/

theorem sound_phrase (hg : Sound g) (n : Nat) : Sound (phrase n g) where
  type _ := yields_fullType hg
  expression _ := yields_expression hg
  unary _ := yields_unary hg
  binary least _ := yields_binary hg least
  statement _ := yields_statement hg
  initializer _ hb := (yields_initializer hg hb).anything.gives fun _ _ => .pure trivial
  block _ hb := (yields_block hg hb).anything.gives fun _ _ => .pure trivial
  member _ hb := (yields_member hg hb).anything.gives fun _ _ => .pure trivial
  namespaceBody braced b := (yields_namespaceBody hg braced b).anything.gives fun _ _ => .pure trivial

theorem sound_phrases (n : Nat) : Sound (phrases n) := by
  induction n with
  | zero =>
    exact ⟨fun _ => .panic _, fun _ => .panic _, fun _ => .panic _, fun _ _ => .panic _,
      fun _ => .panic _, fun _ _ => .panic _, fun _ _ => .panic _, fun _ _ => .panic _,
      fun _ => .panic _⟩
  | succ n ih => exact sound_phrase ih (n + 1)

theorem eq_endOfFile_of_startsEnd {ts : List Token} (h : Lexer.Ended ts)
    (hstart : startsEnd ts = true) : ∃ leading, ts = [.endOfFile leading] := by
  obtain ⟨init, leading, rfl, hinit⟩ := h
  cases init with
  | nil => exact ⟨leading, rfl⟩
  | cons t init =>
    have ht : t.isEnd = false := (hinit t List.mem_cons_self).1
    exact absurd (ht.symm.trans hstart) (by decide)

/-- A whole parse is one step, and leaves the end of the file and nothing else. -/
theorem grown_parseTokens {tokens : List Token} {b : Builder} (h : Lexer.Ended tokens)
    (hrun : parseTokens tokens = .ok b) :
    ∃ new leading, Grown { ahead := tokens } b new ∧ b.ahead = [.endOfFile leading] := by
  obtain ⟨⟨found, _⟩, hp, rfl⟩ := exists_of_map hrun
  obtain ⟨_, _, hbody, hpure⟩ := exists_of_bind (p := namespaceBody (tokens.length + 1) _ false) hp
  obtain ⟨-, rfl⟩ := eq_of_pure hpure
  obtain ⟨new, hg, hend⟩ := yields_namespaceBody (sound_phrases tokens.length) false
    { ahead := tokens } h _ _ hbody
  obtain ⟨leading, hahead⟩ := eq_endOfFile_of_startsEnd (hg.readable h) (hend rfl)
  exact ⟨new, leading, hg, hahead⟩

end PluginLint.Grammar

namespace PluginLint.SourceFile

/-- A file is read from tokens if a whole parse of them runs through. What is left of them then is
the end of the file, which stands behind all that was placed. -/
theorem ofTokens_eq_ok_iff {path : String} {tokens : List Token} {f : SourceFile}
    (h : Lexer.Ended tokens) :
    ofTokens path tokens = .ok f ↔ ∃ b leading, Grammar.parseTokens tokens = .ok b ∧
      b.ahead = [.endOfFile leading] ∧
      f = ⟨path, .compilationUnit, b.parts.toList ++ [.leaf (.endOfFile leading)],
        b.errors.reverse⟩ := by
  unfold ofTokens
  cases hb : Grammar.parseTokens tokens with
  | error e => simp [bind, Except.bind]
  | ok b =>
    obtain ⟨new, leading, hg, hahead⟩ := Grammar.grown_parseTokens h hb
    have hlast : ∀ l, Token.endOfFile leading = .endOfFile l ↔ leading = l := by
      simp [Token.endOfFile]
    simp [bind, Except.bind, pure, Except.pure, hahead, hlast, eq_comm]

end PluginLint.SourceFile
