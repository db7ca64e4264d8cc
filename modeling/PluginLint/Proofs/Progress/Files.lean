import PluginLint.Proofs.Parsing.Files
import PluginLint.Proofs.Progress.Members

/-!
# Parsing does not panic

The phrases of the grammar run wherever fewer tokens are ahead than they may nest, by induction on
that number: a phrase looks for the phrases inside it only behind a token of its own. So whatever
can be cut into tokens is parsed, with every loop at its end, no count of brackets below zero, no
token needed behind the last one and no phrase given up in its middle.
-/
namespace PluginLint

namespace Grammar

variable {n : Nat} {g : Phrases} {ts : List Token}

/-! ### Namespaces -/

/-- Behind `global` there is the word itself. -/
theorem textAt_of_usingDirective (h : startsUsingDirective n ts = .ok true)
    (hglobal : startsWord ts "global" = true) : textAt ts 1 = "using" := by
  have htext : startsText ts "global" = true := (Bool.and_eq_true_iff.1 hglobal).2
  by_contra hne
  have hother : (startsWord ts "global" && textAt ts 1 == "using") = false := by simp [hne]
  have hword : startsText ts "using" = false := by
    rw [startsText, startsText_iff.1 htext]
    decide
  simp only [startsUsingDirective, hother, Bool.false_eq_true, if_false, hword] at h
  cases h

theorem runs_usingDirective (hg : Able n g) (h : startsEnd ts = false)
    (hdirective : startsUsingDirective n ts = .ok true) (hts : ts.length < n) :
    Runs (usingDirective n g) ts (Shorter ts) := by
  have hname : Safe n (do discard (expectType (fullType n g)); discard (expect ";")) :=
    (safe_expectFullType hg).discard.bind fun _ => (safe_expect _).discard
  have hrest : Safe n (do
      discard (eat "static")
      let ts ← ahead
      if startsIdentifier ts && textAt ts 1 == "=" then
        bump
        bump
      discard (expectType (fullType n g))
      discard (expect ";")) := by
    refine (safe_eat _).discard.bind fun _ us hus => .of_legible fun hl => .ahead_bind ?_
    refine .ite (fun halias => ?_) fun _ => hname us hus
    have hequals := hl.not_startsEnd_drop (beq_iff_eq.1 (Bool.and_eq_true_iff.1 halias).2) (by decide)
    exact (Runs.bump_ready (n := n) hequals (by omega) (ready_bump.bind fun _ => hname)).any
  refine .of_legible fun hl => runs_node (.atWord_bind (fun hglobal => ?_) (.bump_then h hts hrest))
  have husing := hl.not_startsEnd_drop (textAt_of_usingDirective hdirective hglobal) (by decide)
  exact .bumpKeyword_ready husing hts (ready_bump.bind fun _ => hrest)

theorem runs_namespaceDeclaration (hg : Able n g) (h : startsEnd ts = false) (hts : ts.length < n) :
    Runs (namespaceDeclaration n g) ts (Shorter ts) := by
  refine runs_nodeOf (.bump_then h hts ((safe_orReport (safe_dottedName hg)).discard.bind fun _ => ?_))
  refine (safe_eat _).bind fun _ => .ite ?_ ((safe_expect _).bind fun _ => .ite ?_ (.pure _))
  · exact (hg.namespaceBody _).discard.bind fun _ => .pure _
  · exact (hg.namespaceBody _).discard.bind fun _ => (safe_expect _).discard.bind fun _ => .pure _

theorem runs_namespaceBody (hg : Able n g) (braced : Bool) (hts : ts.length < n) :
    Runs (namespaceBody n g braced) ts Any := by
  refine runs_repeatUpTo (fun us hus => .ahead_bind (.ite (fun _ => .tries_none) fun h => ?_)) hts
  have he : startsEnd us = false := not_startsEnd_of_goesOn h
  have hlen : us.length < n := by omega
  refine .look_bind (answers_startsUsingDirective hlen) fun _ hlook => .ite (fun husing => ?_) fun _ =>
    .ite (fun _ => ?_) fun _ => .ite (fun hattribute => ?_) fun _ =>
      .look_bind (answers_startsTypeDeclaration hlen) fun _ _ => .ite (fun _ => ?_) fun _ => ?_
  · exact (runs_usingDirective hg he (husing ▸ hlook) hlen).return_true
  · exact (runs_namespaceDeclaration hg he hlen).return_true
  · simp only [startsGlobalAttribute, Bool.and_eq_true] at hattribute
    exact (runs_attributeList hattribute.1.1 hlen).return_true
  · exact (runs_member hg he hlen).return_true
  · exact runs_orSkip (runs_statement hg hlen) he

/-! ### Tying the phrases together -/

theorem readsTypes_phrase (hg : Able n g) : ReadsTypes n (phrase n g) := by
  intro ts rest hts h
  obtain ⟨k, rfl⟩ : ∃ k, n = k + 1 := ⟨n - 1, by omega⟩
  exact reads_fullType hg.reads h hts

theorem able_phrase (hg : Able n g) : Able (n + 1) (phrase n g) where
  sound := sound_phrase hg.sound n
  reads := readsTypes_phrase hg
  type _ hts := (runs_fullType hg (by omega)).any
  expression _ hts := (runs_expression hg (by omega)).any
  unary _ hts := (runs_unary hg (by omega)).any
  binary least _ hts := (runs_binary hg least (by omega)).any
  statement _ hts := (runs_statement hg (by omega)).any
  initializer _ hts h := (runs_initializer hg h (by omega)).bind fun _ _ _ _ => .pure trivial
  block _ hts h := (runs_block hg h (by omega)).bind fun _ _ _ _ => .pure trivial
  member _ hts h := (runs_member hg h (by omega)).bind_shorter fun _ _ _ => .pure trivial
  namespaceBody braced _ hts :=
    (runs_namespaceBody hg braced (by omega)).bind fun _ _ _ _ => .pure trivial

/-- With a bound of one only the end of the file could be ahead, and there nothing is nested. -/
theorem able_phrases (n : Nat) : Able (n + 1) (phrases n) := by
  induction n with
  | zero =>
    have hnone : ∀ {p : Parse Bool}, Safe 1 p := fun ts hts => absurd hts (by omega)
    exact ⟨sound_phrases 0, readsTypes_phrases 0, hnone, hnone, hnone, fun _ => hnone, hnone,
      fun ts hts _ => hnone ts hts, fun ts hts _ => hnone ts hts,
      fun ts hts _ => absurd hts (by omega), fun _ => hnone⟩
  | succ n ih => exact able_phrase ih

theorem exists_parseTokens {tokens : List Token} (h : Legible tokens) :
    ∃ b, parseTokens tokens = .ok b := by
  have hruns := (able_phrases (tokens.length + 1)).namespaceBody false tokens (by omega)
  obtain ⟨found, b, hrun, -⟩ := hruns h { ahead := tokens } rfl
  refine ⟨b, ?_⟩
  rw [parseTokens, hrun]
  rfl

end Grammar

namespace SourceFile

theorem exists_ofTokens (path : String) {tokens : List Token} (h : Grammar.Legible tokens) :
    ∃ f, ofTokens path tokens = .ok f := by
  obtain ⟨b, hb⟩ := Grammar.exists_parseTokens h
  obtain ⟨-, leading, -, hahead⟩ := Grammar.grown_parseTokens h.ended hb
  exact ⟨_, (ofTokens_eq_ok_iff h.ended).2 ⟨b, leading, hb, hahead, rfl⟩⟩

theorem exists_parse (path : String) {source : String} {tokens : List Token}
    (h : Lexer.tokenize source = .ok tokens) : ∃ f, parse path source = .ok f := by
  obtain ⟨f, hf⟩ := exists_ofTokens path (Grammar.legible_of_tokenize h)
  exact ⟨f, by rw [parse, h]; exact hf⟩

/-- The parser adds no panic of its own. A file is parsed if its text can be cut into tokens, and
otherwise fails as that does; no loop runs on, no count of open brackets falls below zero, no token
behind the last one is needed, and no phrase is given up behind tokens that it has taken. -/
theorem parse_panics_iff (path source : String) :
    (∀ tokens, Lexer.tokenize source = .ok tokens → ∃ f, parse path source = .ok f) ∧
      (∀ e, parse path source = .error e ↔ Lexer.tokenize source = .error e) ∧
      parse path source ≠ .error .endless ∧ parse path source ≠ .error .belowZero ∧
      parse path source ≠ .error .pastEnd ∧ parse path source ≠ .error .givenUp := by
  have hiff : ∀ e, parse path source = .error e ↔ Lexer.tokenize source = .error e := by
    intro e
    cases ht : Lexer.tokenize source with
    | error e' =>
      simp [parse, ht, bind, Except.bind]
    | ok tokens =>
      obtain ⟨f, hf⟩ := exists_parse path ht
      simp [hf]
  have hbroken : ∀ e, e ≠ .brokenString → parse path source ≠ .error e := fun e hne he =>
    hne (Lexer.eq_brokenString_of_tokensFrom ((hiff e).1 he))
  exact ⟨fun _ => exists_parse path, hiff, hbroken _ (by decide), hbroken _ (by decide),
    hbroken _ (by decide), hbroken _ (by decide)⟩

/-- Brackets that do not match are parsed, and marks without a literal are not. -/
theorem parse_panics_iff_unmatched :
    (∃ f, parse "Unmatched.cs" "[[x]) => y is ]" = .ok f) ∧
      parse "Marks.cs" "$@" = .error .brokenString :=
  ⟨(parse_panics_iff "Unmatched.cs" "[[x]) => y is ]").1
      [⟨.punct, "[", [], []⟩, ⟨.punct, "[", [], []⟩, ⟨.identifier, "x", [], []⟩,
        ⟨.punct, "]", [], []⟩, ⟨.punct, ")", [], [.space]⟩, ⟨.punct, "=>", [], [.space]⟩,
        ⟨.identifier, "y", [], [.space]⟩, ⟨.keyword, "is", [], [.space]⟩, ⟨.punct, "]", [], []⟩,
        .endOfFile []] (by decide +kernel),
    ((parse_panics_iff "Marks.cs" "$@").2.1 .brokenString).2 (by decide +kernel)⟩

end SourceFile

end PluginLint
