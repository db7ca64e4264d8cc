import PluginLint.Proofs.Edits.BraceRules
import PluginLint.Proofs.Lexing.Unbraced

/-!
# Reading a file again after braces were removed

In a file without problems the block of a finding stands behind `)` or `else` and holds a jump from
its word to its semicolon. The fix takes the two braces out of the text with the trivia inside, so
that the new text has the tokens of the old one without the braces, save where the opening brace is
all that stands between two words.
-/
namespace PluginLint

open Grammar (Retagged)

namespace Lexer.Braced

/-- The tokens of a block in a tree are tokens of a block in the text. -/
theorem exists_of_retagged {ts : List Token} {c : Braced}
    (h : List.Forall₂ Retagged ts c.tokens) :
    ∃ b : Braced, ts = b.tokens ∧ List.Forall₂ Retagged b.unbraced c.unbraced ∧
      List.Forall₂ Retagged (b.word :: (b.mid ++ [b.semicolon]))
        (c.word :: (c.mid ++ [c.semicolon])) ∧
      Retagged b.front c.front ∧ Retagged b.opening c.opening ∧ Retagged b.closing c.closing := by
  obtain ⟨front, _, rfl, hfront, h⟩ := Token.exists_cons_of_retagged h
  obtain ⟨opening, _, rfl, hopening, h⟩ := Token.exists_cons_of_retagged h
  obtain ⟨word, _, rfl, hword, h⟩ := Token.exists_cons_of_retagged h
  obtain ⟨mid, _, rfl, hmid, h⟩ := Token.exists_append_of_retagged h
  obtain ⟨semicolon, _, rfl, hsemicolon, h⟩ := Token.exists_cons_of_retagged h
  obtain ⟨closing, _, rfl, hclosing, h⟩ := Token.exists_cons_of_retagged h
  cases h
  refine ⟨⟨front, opening, word, mid, semicolon, closing, ?_, ?_, ?_, ?_, ?_⟩, rfl, ?_, ?_, hfront,
    hopening, hclosing⟩
  · rw [← hfront.text]
    exact c.front_text
  · rw [← hopening.text]
    exact c.opening_text
  · rw [← hword.text]
    exact c.word_text
  · rw [← hsemicolon.text]
    exact c.semicolon_text
  · rw [← hclosing.text]
    exact c.closing_text
  · have hword' : Retagged { word with leading := opening.leading }
        { c.word with leading := c.opening.leading } := by
      rw [hopening.leading]
      obtain hw | ⟨hk, hw⟩ := hword <;> rw [hw]
      · exact .inl rfl
      · exact .inr ⟨hk, rfl⟩
    have hsemicolon' : Retagged { semicolon with trailing := closing.trailing }
        { c.semicolon with trailing := c.closing.trailing } := by
      rw [hclosing.trailing]
      obtain hs | ⟨hk, hs⟩ := hsemicolon <;> rw [hs]
      · exact .inl rfl
      · exact .inr ⟨hk, rfl⟩
    exact .cons hfront (.cons hword' (List.rel_append hmid (.cons hsemicolon' .nil)))
  · exact .cons hword (List.rel_append hmid (.cons hsemicolon .nil))

end Lexer.Braced

theorem Diagnostic.AsksFor.unique {d : Diagnostic} {edit edit' : Edit} (h : d.AsksFor edit)
    (h' : d.AsksFor edit') : edit = edit' := by
  obtain ⟨span, fix⟩ := edit
  obtain ⟨span', fix'⟩ := edit'
  obtain ⟨hfix, rfl⟩ := h
  obtain ⟨hfix', rfl⟩ := h'
  obtain rfl : fix = fix' := Option.some.inj (hfix.symm.trans hfix')
  rfl

/-! ### The block of a finding -/

namespace Rules

/-- The body is the first statement among the parts. -/
theorem HasBody.before_eq {n body : Node} {before after front rest : List Tree} {t : Tree}
    (hb : HasBody n body before after) (hparts : n.parts = front ++ t :: rest)
    (hfront : ∀ kind inner, .node kind inner ∈ front → kind.isStatement = false)
    (ht : t.HasKind NodeKind.IsStatement) : before = front := by
  have hbody : (body.tree).HasKind NodeKind.IsStatement := hb.statement
  have hnone : ∀ {ts : List Tree} {u : Tree},
      (∀ kind inner, .node kind inner ∈ ts → kind.isStatement = false) →
      u.HasKind NodeKind.IsStatement → u ∉ ts := by
    intro ts u hts hu hmem
    cases u with
    | leaf token => exact hu
    | node kind inner =>
      have hkind : kind.isStatement = true := hu
      rw [hts kind inner hmem] at hkind
      cases hkind
  rw [hb.parts, List.append_eq_append_iff] at hparts
  obtain ⟨as, hfront', has⟩ | ⟨as, hbefore', has⟩ := hparts
  · cases as with
    | nil => rw [hfront', List.append_nil]
    | cons a as =>
      rw [List.cons_append, List.cons.injEq] at has
      exact absurd (by rw [hfront', has.1]; simp) (hnone hfront hbody)
  · cases as with
    | nil => rw [hbefore', List.append_nil]
    | cons a as =>
      rw [List.cons_append, List.cons.injEq] at has
      exact absurd (by rw [hbefore', has.1]; simp) (hnone hb.first ht)

/-- The body of an `if` or an `else` stands behind a token that is known. -/
theorem HasBody.exists_front {n body : Node} {before after : List Tree}
    (hb : HasBody n body before after) (hk : noBracesForControlFlow.triggeredBy n.kind = true)
    (hn : Complete n.kind n.parts) :
    ∃ init front, before = init ++ [.leaf front] ∧ (front.text = ")" ∨ front.text = "else") := by
  have hkinds : n.kind = .ifStatement ∨ n.kind = .elseClause := by
    simpa [Rule.triggeredBy, noBracesForControlFlow] using hk
  rcases hkinds with hkind | hkind
  · obtain ⟨word, opening, condition, closing, t, rest, hparts, htext, hcondition, ht⟩ :=
      hn.ifBody hkind
    refine ⟨[.leaf word, .leaf opening, condition], closing, ?_, .inl htext⟩
    refine hb.before_eq hparts (fun kind inner hmem => ?_) ht
    have hmem : Tree.node kind inner = condition := by simpa using hmem
    rw [← hmem] at hcondition
    exact hcondition
  · obtain ⟨word, t, hparts, htext, ht⟩ := hn.elseBody hkind
    refine ⟨[], word, ?_, .inr htext⟩
    refine hb.before_eq hparts (fun kind inner hmem => ?_) ht
    simp at hmem

/-- A block of a file without problems has its single statement between the braces. -/
theorem exists_braces {block s : Node} (hs : block.singleStatement? = some s)
    (hblock : Complete block.kind block.parts) :
    ∃ opening closing, block.parts = [.leaf opening, s.tree, .leaf closing] ∧
      opening.text = "\x7b" ∧ closing.text = "\x7d" := by
  obtain ⟨hk, hc, -⟩ := Node.childNodes_of_singleStatement? hs
  obtain ⟨opening, inner, closing, hparts, hopening, hclosing, hinner⟩ := hblock.braces hk
  have hnodes := Node.map_tree_childNodes block
  have hinner' : inner.filter Tree.isNode = inner := List.filter_eq_self.2 hinner
  rw [hc, hparts] at hnodes
  have hsingle : inner = [s.tree] := by
    simpa [List.filter_cons, Tree.isNode, hinner'] using hnodes.symm
  rw [hsingle] at hparts
  exact ⟨opening, closing, hparts, hopening, hclosing⟩

/-- A jump in braces behind `)` or `else`, seen through its tokens. -/
theorem HasBody.exists_braced {n block s : Node} {before after : List Tree}
    (hb : HasBody n block before after) (hk : noBracesForControlFlow.triggeredBy n.kind = true)
    (hs : block.singleStatement? = some s) (hjump : isJump s.kind = true)
    (hn : n.tree.Every Complete) :
    ∃ init, ∃ c : Lexer.Braced, before = init ++ [.leaf c.front] ∧
      s.tree.tokens = c.word :: (c.mid ++ [c.semicolon]) ∧
      block.tree.tokens = c.opening :: (c.word :: (c.mid ++ [c.semicolon]) ++ [c.closing]) := by
  obtain ⟨init, front, rfl, hfront⟩ := hb.exists_front hk (Tree.every_node.1 hn).1
  rw [hb.tree_eq, Tree.every_node] at hn
  have hblock : block.tree.Every Complete := Tree.every_of_mem hn.2 (by simp)
  obtain ⟨opening, closing, hparts, hopening, hclosing⟩ :=
    exists_braces hs (Tree.every_node.1 hblock).1
  rw [Node.tree, hparts, Tree.every_node] at hblock
  have hstatement : s.tree.Every Complete := Tree.every_of_mem hblock.2 (by simp)
  obtain ⟨word, inner, semicolon, hjump, hword, hsemicolon⟩ :=
    (Tree.every_node.1 hstatement).1.jump hjump
  have htokens : s.tree.tokens = word :: (Tree.tokensAll inner ++ [semicolon]) := by
    rw [Node.tree, hjump]
    simp
  refine ⟨init, ⟨front, opening, word, Tree.tokensAll inner, semicolon, closing, hfront, hopening,
    hword, hsemicolon, hclosing⟩, rfl, htokens, ?_⟩
  rw [Node.tree, hparts]
  simp [htokens]

end Rules

namespace SourceFile

open Rules

/-- In a file without problems every node has the shape of its kind. -/
theorem Parsed.every_complete {tokens : List Token} {f : SourceFile} (hf : Parsed tokens f)
    (he : f.errors = []) : f.root.tree.Every Complete := by
  have hroot : f.root.tree = .node .compilationUnit f.parts := by
    rw [root, Node.tree_mk, hf.kind]
  rw [hroot, Tree.every_node]
  exact ⟨.of_plain rfl, hf.complete he⟩

/-- A fix that removes the braces of a block leaves its single statement, with the trivia around the
block. -/
theorem Stands.tokens_of_unwrapped {f g : SourceFile} {block s : Node} {pre post : List Token}
    (hblock : f.Stands block pre post) (hs : block.singleStatement? = some s) {edit : Edit}
    (hfix : edit.fix = .removeBraces) (hlocate : f.locate edit = .ok block)
    (hg : f.applyFix edit false = .ok g) :
    g.root.tree.tokens = pre ++ (Token.surround (Token.frontTrivia block.tree.tokens)
      (Token.backTrivia block.tree.tokens) s.tree.tokens ++ post) := by
  have hreplace : ∃ new, block.unwrapped = .ok new ∧ f.replace block new = .ok g := by
    simp only [applyFix, hlocate, replacement, hfix, bind, Except.bind, Bool.false_eq_true,
      if_false] at hg
    cases hnew : block.unwrapped with
    | error e => simp [hnew] at hg
    | ok new => exact ⟨new, rfl, by simpa [hnew] using hg⟩
  obtain ⟨new, hnew, hreplace⟩ := hreplace
  obtain ⟨s', hs', -, rfl⟩ := Node.unwrapped_cases hnew
  obtain rfl : s = s' := Option.some.inj (hs.symm.trans hs')
  have hnode : ∃ kind parts, s.tree.withOuterTrivia block.leading block.trailing =
      .node kind parts := ⟨_, _, rfl⟩
  obtain ⟨g', hg', -, hholds⟩ := hblock.exists_replace hnode
  obtain rfl : g = g' := Except.ok.inj (hreplace.symm.trans hg')
  rw [hholds.tokens_eq, Tree.tokens_withOuterTrivia, Node.leading, Node.trailing, Tree.leading_eq,
    Tree.trailing_eq]

/-- The leaves of a file around the block of a finding, and those of the file without its braces. -/
theorem Parsed.exists_braced {tokens : List Token} {f : SourceFile} (hf : Parsed tokens f)
    (he : f.errors = []) {n : Node} (hn : n ∈ f.nodes)
    (hk : noBracesForControlFlow.triggeredBy n.kind = true) {v : Violation}
    (hv : v ∈ bracedJump n) {g : SourceFile}
    (hg : f.applyFix ⟨v.span, .removeBraces⟩ false = .ok g) :
    ∃ (pre : List Token) (c : Lexer.Braced) (post : List Token),
      f.root.tree.tokens = pre ++ (c.tokens ++ post) ∧
      g.root.tree.tokens = pre ++ (c.unbraced ++ post) ∧
      v.span.start = Token.widthAll (pre ++ [c.front]) + Trivia.width c.opening.leading ∧
      v.span.stop = Token.widthAll (pre ++ c.front :: c.opening :: c.word ::
        (c.mid ++ [c.semicolon])) + Trivia.width c.closing.leading + 1 := by
  obtain ⟨block, s, hblock, hspan, hs, hjump⟩ := exists_of_mem_bracedJump hv
  obtain ⟨before, after, hb⟩ := hasBody_of_checkedBody? hblock
  obtain ⟨pre, post, hstands⟩ := stands_of_mem_nodes hn
  obtain ⟨init, c, rfl, hstokens, htokens⟩ :=
    hb.exists_braced hk hs hjump (hstands.holds.every (hf.every_complete he))
  have hfix : Fix.removeBraces.accepts block = true := by
    simp [Fix.accepts, (Node.childNodes_of_singleStatement? hs).1]
  have hlocate := hf.locate_body hstands hb hfix
  have hbody := hstands.of_body hb
  rw [← hspan] at hlocate
  have hnew := hbody.tokens_of_unwrapped hs rfl hlocate hg
  have hback : Token.backTrivia block.tree.tokens = c.closing.trailing := by
    rw [htokens, Token.backTrivia, ← List.cons_append, List.getLast?_concat]
    rfl
  have hlead : Token.frontTrivia block.tree.tokens = c.opening.leading := by
    rw [htokens]
    rfl
  have hne : block.tree.tokens ≠ [] := by simp [htokens]
  have hstart : block.start = Token.widthAll (pre ++ Tree.tokensAll init ++ [c.front]) := by
    rw [hbody.start]
    simp
  have hwidth := Token.widthAll_eq hne
  rw [Node.span_eq hne, Node.leading, Tree.leading_eq, hlead, Node.text, Tree.text_eq] at hspan
  refine ⟨pre ++ Tree.tokensAll init, c, Tree.tokensAll after ++ post, ?_, ?_, ?_, ?_⟩
  · rw [hbody.holds.tokens_eq, htokens]
    simp [Lexer.Braced.tokens]
  · rw [hnew, hback, hlead, hstokens, Token.surround_cons_append]
    simp [Lexer.Braced.unbraced]
  · rw [hspan, ← hstart]
    rfl
  · have hbrace : c.closing.text.utf8ByteSize = 1 := by
      rw [c.closing_text]
      decide
    rw [hlead, hback, htokens] at hwidth
    simp only [hspan, Span.ofLength, hstart, htokens]
    simp only [Token.widthAll_append, Token.widthAll_cons, Token.widthAll_nil, Token.width, hbrace]
      at hwidth ⊢
    omega

/-- Reading a file again after the braces of a finding were removed gives its tokens without the two
braces, unless the opening brace stands directly between `else` and the word of the jump: these two
are then read as one word. -/
theorem applyFix_keeps_tokens_iff {path source : String} {tokens : List Token}
    (h : Lexer.tokenize source = .ok tokens) {f : SourceFile} (hf : parse path source = .ok f)
    (he : f.errors = []) {c : Catalog} (hstamped : c.Stamped)
    (hc : noBracesForControlFlow ∈ c.rules)
    {model : SemanticModel} {report : DispatchReport}
    (hrun : Dispatch.run c f model false = .ok report) {d : Diagnostic}
    (hd : d ∈ report.diagnostics) (hcode : d.code = "CT0004") {edit : Edit}
    (hedit : d.AsksFor edit) {g : SourceFile} (hg : f.applyFix edit false = .ok g) :
    ∃ pre front opening inner closing post,
      tokens = pre ++ front :: opening :: (inner ++ closing :: post) ∧
      opening.text = "\x7b" ∧ closing.text = "\x7d" ∧
      edit.span.start = Token.widthAll (pre ++ [front]) + Trivia.width opening.leading ∧
      edit.span.stop = Token.widthAll (pre ++ front :: opening :: inner) +
        Trivia.width closing.leading + 1 ∧
      ((∃ tokens', Lexer.tokenize g.text = .ok tokens' ∧
          tokens'.map Token.text = (pre ++ front :: (inner ++ post)).map Token.text) ↔
        ¬(front.text = "else" ∧ front.trailing = [] ∧ opening.leading = [])) := by
  obtain ⟨tokens₀, h₀, -, hparsed⟩ := exists_parsed hf
  obtain rfl : tokens = tokens₀ := Except.ok.inj (h.symm.trans h₀)
  obtain ⟨report₀, hrun₀, hreport⟩ := Dispatch.run_eq_ok hparsed.kind c model
  obtain rfl : report = report₀ := Except.ok.inj (hrun.symm.trans hrun₀)
  rw [hreport] at hd
  obtain ⟨n, hn, hdn⟩ := List.mem_flatMap.1 hd
  obtain ⟨hk, hdr⟩ := Catalog.mem_findings_of_code hstamped hc hdn hcode
  rw [findings_noBracesForControlFlow] at hdr
  obtain ⟨v, hv, rfl⟩ := List.mem_map.1 hdr
  obtain rfl : edit = ⟨v.span, .removeBraces⟩ := by
    have hpos := (hparsed.fix_bracedJump hn hk hv).1
    exact hedit.unique (Rule.asksFor_diagnostic rfl f (Nat.le_of_lt hpos))
  obtain ⟨preTree, b, postTree, hleaves, hleaves', hstart, hstop⟩ :=
    hparsed.exists_braced he hn hk hv hg
  -- The leaves are the tokens of the text, save for kinds.
  have hretagged := hparsed.tokens
  rw [← Tree.tokens_node f.kind, show Tree.node f.kind f.parts = f.root.tree from rfl,
    hleaves] at hretagged
  obtain ⟨pre, _, rfl, hpre, hretagged⟩ := Token.exists_append_of_retagged hretagged
  obtain ⟨_, post, rfl, hbraced, hpost⟩ := Token.exists_append_of_retagged hretagged
  obtain ⟨a, rfl, hunbraced, hinner, hfront, hopening, hclosing⟩ :=
    Lexer.Braced.exists_of_retagged hbraced
  have htext : g.text = Token.renderAll (pre ++ (a.unbraced ++ post)) := by
    rw [text_eq_render, hleaves']
    exact Token.renderAll_of_retagged (List.rel_append hpre (List.rel_append hunbraced hpost))
  have htexts : (pre ++ a.front :: ((a.word :: (a.mid ++ [a.semicolon])) ++ post)).map Token.text =
      (pre ++ (a.unbraced ++ post)).map Token.text := by simp [Lexer.Braced.unbraced]
  refine ⟨pre, a.front, a.opening, a.word :: (a.mid ++ [a.semicolon]), a.closing, post, ?_,
    a.opening_text, a.closing_text, ?_, ?_, ?_⟩
  · simp [Lexer.Braced.tokens]
  · have hwidth := Token.widthAll_of_retagged (List.rel_append hpre (.cons hfront .nil))
    rw [hstart, hwidth, hopening.leading]
  · have hwidth := Token.widthAll_of_retagged
      (List.rel_append hpre (.cons hfront (.cons hopening hinner)))
    rw [hstop, hwidth, hclosing.leading]
  · rw [htexts, htext]
    constructor
    · rintro ⟨tokens', htokens', hsame⟩ hglued
      exact Lexer.tokenize_glued h hglued htokens' hsame
    · intro hb
      exact ⟨_, Lexer.tokenize_unbraced h hb, rfl⟩

/-- A block behind a parenthesis is taken apart, and all other tokens are read again. -/
theorem applyFix_keeps_tokens_iff_paren :
    ∃ tokens f report d edit g,
      Lexer.tokenize "class C\x7bvoid M()\x7bif(a)\x7breturn;\x7d\x7d\x7d" = .ok tokens ∧
      parse "C.cs" "class C\x7bvoid M()\x7bif(a)\x7breturn;\x7d\x7d\x7d" = .ok f ∧ f.errors = [] ∧
      Dispatch.run .all f .empty false = .ok report ∧ d ∈ report.diagnostics ∧ d.code = "CT0004" ∧
      d.AsksFor edit ∧ f.applyFix edit false = .ok g ∧
      ∃ pre opening inner closing post tokens',
        tokens = pre ++ opening :: (inner ++ closing :: post) ∧ opening.text = "\x7b" ∧
        closing.text = "\x7d" ∧ Lexer.tokenize g.text = .ok tokens' ∧
        tokens'.map Token.text = (pre ++ (inner ++ post)).map Token.text := by
  have hseen : (parse "C.cs" "class C\x7bvoid M()\x7bif(a)\x7breturn;\x7d\x7d\x7d").toOption.map
      (fun f => (f.kind, f.errors.isEmpty, f.root.tree.count seesBracedJump,
        f.nodes.all fun n => (bracedJump n).all fun v => v.span == ⟨22, 31⟩,
        (f.applyFix ⟨⟨22, 31⟩, .removeBraces⟩ false).toOption.isSome)) =
      some (.compilationUnit, true, 1, true, true) := by
    rw [parse_ofList]
    decide +kernel
  have hread : (Lexer.tokenize
      "class C\x7bvoid M()\x7bif(a)\x7breturn;\x7d\x7d\x7d").toOption.map
        (fun tokens => tokens.all fun t => t.text != "else") = some true := by
    rw [Lexer.tokenize_ofList]
    decide +kernel
  obtain ⟨f, hf, hseen⟩ := Option.map_eq_some_iff.1 hseen
  have hf := eq_ok_of_toOption hf
  simp only [Prod.mk.injEq] at hseen
  obtain ⟨hkind, herrors, hcount, hspans, hfixed⟩ := hseen
  have he : f.errors = [] := List.isEmpty_iff.1 herrors
  have hc : noBracesForControlFlow ∈ Catalog.all.rules := by simp [Catalog.all, Rules.all]
  obtain ⟨tokens, htokens, hread⟩ := Option.map_eq_some_iff.1 hread
  have htokens := eq_ok_of_toOption htokens
  obtain ⟨report, hrun, hreport⟩ := Dispatch.run_eq_ok hkind .all .empty
  have hfound := countOf_noBracesForControlFlow Catalog.stamped_all hc hreport
  rw [hcount] at hfound
  obtain ⟨d, hd, hcode⟩ := List.countP_pos_iff.1 (Nat.lt_of_lt_of_eq Nat.one_pos hfound.symm)
  have hcode : d.code = "CT0004" := by simpa using hcode
  obtain ⟨n, hn, hdn⟩ := List.mem_flatMap.1 (hreport ▸ hd)
  obtain ⟨-, hdr⟩ := Catalog.mem_findings_of_code Catalog.stamped_all hc hdn hcode
  rw [findings_noBracesForControlFlow] at hdr
  obtain ⟨v, hv, hdv⟩ := List.mem_map.1 hdr
  have hspan : v.span = ⟨22, 31⟩ := by
    simpa using List.all_eq_true.1 (List.all_eq_true.1 hspans n hn) v hv
  have hedit : d.AsksFor ⟨⟨22, 31⟩, .removeBraces⟩ := by
    rw [← hdv, ← hspan]
    exact Rule.asksFor_diagnostic rfl f (by rw [hspan]; decide)
  obtain ⟨g, hg⟩ := Option.isSome_iff_exists.1 hfixed
  have hg := eq_ok_of_toOption hg
  obtain ⟨pre, front, opening, inner, closing, post, hsplit, hopening, hclosing, -, -, hiff⟩ :=
    applyFix_keeps_tokens_iff htokens hf he Catalog.stamped_all hc hrun hd hcode hedit hg
  have hfront : front.text ≠ "else" := by
    simpa using List.all_eq_true.1 hread front (by simp [hsplit])
  obtain ⟨tokens', htokens', htexts⟩ := hiff.2 fun hglued => hfront hglued.1
  refine ⟨tokens, f, report, d, _, g, htokens, hf, he, hrun, hd, hcode, hedit, hg, pre ++ [front],
    opening, inner, closing, post, tokens', ?_, hopening, hclosing, htokens', ?_⟩
  · simp [hsplit]
  · simpa using htexts

/-- The words on both sides of a brace become one: here the block of the only finding is taken apart,
and neither `else` nor `return` is read again. -/
theorem applyFix_joins_words :
    ((parse "C.cs" "class C\x7bvoid M()\x7bif(a)b();else\x7breturn;\x7d\x7d\x7d").toOption.bind
      fun f => (f.applyFix ⟨⟨30, 39⟩, .removeBraces⟩ false).toOption.bind
      fun g => (Lexer.tokenize g.text).toOption.map
      fun tokens => (f.errors.isEmpty,
        (f.nodes.filter fun n => noBracesForControlFlow.triggeredBy n.kind).flatMap
          (fun n => (bracedJump n).map Violation.span),
        tokens.map Token.text)) =
      some (true, [⟨30, 39⟩],
        ["class", "C", "\x7b", "void", "M", "(", ")", "\x7b", "if", "(", "a", ")", "b", "(", ")", ";",
          "elsereturn", ";", "\x7d", "\x7d", ""]) := by
  rw [parse_ofList]
  decide +kernel

end SourceFile

end PluginLint
