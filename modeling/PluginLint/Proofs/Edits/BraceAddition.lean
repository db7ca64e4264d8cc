import PluginLint.Proofs.Edits.Replacing
import PluginLint.Proofs.Lexing.AddedBraces

/-!
# Reading a file again after braces were added

A statement that ends with a semicolon or a closing brace is put in braces. The file then has the
tokens it had before, with one brace in front of the statement's first token and one behind its last.
-/
namespace PluginLint

open Grammar (Retagged)

/-- A statement in a block is written like its tokens in braces. -/
theorem Node.renderAll_wrapped {n : Node} {ts : List Token}
    (h : List.Forall₂ Retagged ts n.tree.tokens) (hne : ts ≠ []) :
    Token.renderAll n.wrapped.tokens = Token.renderAll (Lexer.embraced ts) := by
  obtain ⟨hfront, hback, hinner⟩ := Token.outer_of_retagged h
  have hsurround : Token.renderAll (Token.surround [] [.space] ts) = Token.innerText ts ++ " " := by
    rw [Token.renderAll_eq (Token.surround_ne_nil [] [.space] hne), Token.frontTrivia_surround _ _ hne,
      Token.backTrivia_surround _ _ hne, Token.innerText_surround]
    simp [Trivia.space]
  have hbare : Token.renderAll (Token.surround [] [] n.tree.tokens) = Token.innerText ts := hinner
  rw [Node.tokens_wrapped, Lexer.embraced, Node.leading, Node.trailing, Tree.leading_eq,
    Tree.trailing_eq, hfront, hback]
  have hspace : Trivia.render [.space] = " " := rfl
  simp only [Token.renderAll_cons, Token.renderAll_append, Token.renderAll_nil, hsurround, hbare,
    Token.render, hspace, Trivia.render_nil, String.append_assoc, String.append_empty,
    String.empty_append]

namespace SourceFile

/-- A statement that ends with a lone mark stands among the tokens of its file, and in a block its
braces stand there too. -/
theorem Parsed.exists_wrap {source : String} {tokens : List Token} {f : SourceFile}
    (h : Lexer.tokenize source = .ok tokens) (hf : Parsed tokens f) {n : Node} (hn : n ∈ f.nodes)
    (haccepts : Fix.addBraces.accepts n = true) {last : Token} {c : Char}
    (hlast : n.tree.tokens.getLast? = some last) (hc : c ∈ Lexer.halts)
    (htext : last.text = String.ofList [c]) :
    ∃ pre inner post g, tokens = pre ++ (inner ++ post) ∧ n.start = Token.widthAll pre ∧
      inner.map Token.text = n.tree.tokens.map Token.text ∧ f.wrap n = .ok g ∧
      Lexer.tokenize g.text = .ok (pre ++ (Lexer.embraced inner ++ post)) := by
  obtain ⟨preTree, postTree, hstands⟩ := stands_of_mem_nodes hn
  have hnode : ∃ kind parts, n.wrapped = .node kind parts := ⟨_, _, rfl⟩
  obtain ⟨g, hg, -, hholds⟩ := hstands.exists_replace hnode
  -- The leaves are the tokens of the text, save for kinds.
  have hretagged := hf.tokens
  rw [← Tree.tokens_node f.kind, show Tree.node f.kind f.parts = f.root.tree from rfl,
    hstands.holds.tokens_eq] at hretagged
  obtain ⟨pre, _, rfl, hpre, hretagged⟩ := Token.exists_append_of_retagged hretagged
  obtain ⟨inner, post, rfl, hinner, hpost⟩ := Token.exists_append_of_retagged hretagged
  obtain ⟨t, ht, hmark⟩ : ∃ t, inner.getLast? = some t ∧ t.text = String.ofList [c] := by
    obtain ⟨init, hinit⟩ := List.getLast?_eq_some_iff.1 hlast
    rw [hinit] at hinner
    obtain ⟨init', _, rfl, -, hlast'⟩ := Token.exists_append_of_retagged hinner
    obtain ⟨t, _, rfl, hretag, hnil⟩ := Token.exists_cons_of_retagged hlast'
    cases hnil
    exact ⟨t, by simp, by rw [← hretag.text, htext]⟩
  have hne : inner ≠ [] := by
    rintro rfl
    cases ht
  have hnew : g.text = Token.renderAll (pre ++ (Lexer.embraced inner ++ post)) := by
    rw [text_eq_render, hholds.tokens_eq, Token.renderAll_append, Token.renderAll_append,
      Token.renderAll_append, Token.renderAll_append, Node.renderAll_wrapped hinner hne,
      Token.renderAll_of_retagged hpre, Token.renderAll_of_retagged hpost]
  refine ⟨pre, inner, post, g, rfl, ?_, (Token.map_text_of_retagged hinner).symm, ?_, ?_⟩
  · rw [hstands.start, Token.widthAll_of_retagged hpre]
  · rw [wrap, if_pos haccepts, hg]
  · rw [hnew, Lexer.tokenize_embraced h ht hc hmark]

/-- Reading a file again after a statement was put in a block gives its tokens with the two braces
around those of the statement, if the statement ends with a semicolon or a closing brace. -/
theorem wrap_adds_two_tokens (path : String) {source : String} {tokens : List Token}
    (h : Lexer.tokenize source = .ok tokens) :
    ∃ f, parse path source = .ok f ∧
      ∀ n ∈ f.nodes, n.kind.isStatement = true → n.kind ≠ .block →
        ∀ last, n.tree.tokens.getLast? = some last → last.text = ";" ∨ last.text = "\x7d" →
          ∃ pre inner post g tokens', tokens = pre ++ (inner ++ post) ∧
            n.start = Token.widthAll pre ∧ inner.map Token.text = n.tree.tokens.map Token.text ∧
            f.wrap n = .ok g ∧ Lexer.tokenize g.text = .ok tokens' ∧
            tokens'.map Token.text = pre.map Token.text ++
              ("\x7b" :: (inner.map Token.text ++ "\x7d" :: post.map Token.text)) := by
  obtain ⟨f, hparse, hf⟩ := exists_parsed_of_tokenize path h
  refine ⟨f, hparse, fun n hn hstatement hblock last hlast htext => ?_⟩
  have haccepts : Fix.addBraces.accepts n = true := by simp [Fix.accepts, hstatement, hblock]
  obtain ⟨c, hc, hmark⟩ : ∃ c ∈ Lexer.halts, last.text = String.ofList [c] := by
    rcases htext with htext | htext
    · exact ⟨';', by decide, htext⟩
    · exact ⟨'\x7d', by decide, htext⟩
  obtain ⟨pre, inner, post, g, htokens, hstart, hinner, hwrap, hread⟩ :=
    hf.exists_wrap h hn haccepts hlast hc hmark
  refine ⟨pre, inner, post, g, _, htokens, hstart, hinner, hwrap, hread, ?_⟩
  simp [Lexer.embraced, Token.map_text_surround]

/-- A statement that begins with an asterisk, right behind a comment. -/
theorem wrap_adds_two_tokens_comment :
    ∃ tokens f n last pre inner post g tokens',
      Lexer.tokenize "class C\x7bvoid M()\x7bif(a)/*b*/*p=1;\x7d\x7d" = .ok tokens ∧
      parse "C.cs" "class C\x7bvoid M()\x7bif(a)/*b*/*p=1;\x7d\x7d" = .ok f ∧ n ∈ f.nodes ∧
      n.kind.isStatement = true ∧ n.kind ≠ .block ∧ n.tree.tokens.getLast? = some last ∧
      last.text = ";" ∧ inner.map Token.text = ["*", "p", "=", "1", ";"] ∧
      tokens = pre ++ (inner ++ post) ∧ n.start = Token.widthAll pre ∧ f.wrap n = .ok g ∧
      Lexer.tokenize g.text = .ok tokens' ∧ tokens'.map Token.text = pre.map Token.text ++
        ("\x7b" :: (inner.map Token.text ++ "\x7d" :: post.map Token.text)) := by
  have hseen : (parse "C.cs" "class C\x7bvoid M()\x7bif(a)/*b*/*p=1;\x7d\x7d").toOption.map (fun f =>
      (f.nodes.filter fun n => n.kind == .expressionStatement).map
        fun n => n.tree.tokens.map Token.text) = some [["*", "p", "=", "1", ";"]] := by
    rw [parse_ofList]
    decide +kernel
  obtain ⟨f, hf, hseen⟩ := Option.map_eq_some_iff.1 hseen
  have hf := eq_ok_of_toOption hf
  obtain ⟨tokens, h, -⟩ := exists_parsed hf
  obtain ⟨f', hf', hall⟩ := wrap_adds_two_tokens "C.cs" h
  obtain rfl : f = f' := Except.ok.inj (hf.symm.trans hf')
  obtain ⟨n, hfound, htexts⟩ : ∃ n, (f.nodes.filter fun n => n.kind == .expressionStatement) = [n] ∧
      n.tree.tokens.map Token.text = ["*", "p", "=", "1", ";"] := by
    simpa [List.map_eq_cons_iff] using hseen
  have hmem : n ∈ f.nodes.filter fun n => n.kind == .expressionStatement := by simp [hfound]
  obtain ⟨hn, hkind⟩ := List.mem_filter.1 hmem
  have hkind : n.kind = .expressionStatement := by simpa using hkind
  have hstatement : n.kind.isStatement = true := by rw [hkind]; rfl
  have hblock : n.kind ≠ .block := by rw [hkind]; decide
  obtain ⟨last, hlast, htext⟩ : ∃ last, n.tree.tokens.getLast? = some last ∧ last.text = ";" := by
    have hends := congrArg List.getLast? htexts
    rw [List.getLast?_map] at hends
    simpa [Option.map_eq_some_iff] using hends
  obtain ⟨pre, inner, post, g, tokens', htokens, hstart, hinner, hwrap, hnew, hadded⟩ :=
    hall n hn hstatement hblock last hlast (.inl htext)
  exact ⟨tokens, f, n, last, pre, inner, post, g, tokens', h, hf, hn, hstatement, hblock, hlast,
    htext, hinner.trans htexts, htokens, hstart, hwrap, hnew, hadded⟩

end SourceFile

end PluginLint
