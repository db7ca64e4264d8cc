import PluginLint.Proofs.Progress.Files

/-!
# Parsing loses nothing

The leaves of a parsed file are its tokens, one for one, whatever the file looks like: the only
change is that some identifiers are read as keywords. So the tree gives the text back, and the end
of the file is its last leaf and stands directly below the root.

One token is placed after the body of the file, and the body only stops at the end of the file. So
nothing stands behind the token that is placed, and none is lost there.
-/
namespace PluginLint

open Grammar (Retagged)

theorem Token.renderAll_of_retagged {ts us : List Token} (h : List.Forall₂ Retagged ts us) :
    renderAll us = renderAll ts := by
  induction h with
  | nil => rfl
  | cons h _ ih => rw [renderAll_cons, renderAll_cons, h.render, ih]

theorem Token.exists_retagged_of_mem {ts us : List Token} {u : Token}
    (h : List.Forall₂ Retagged ts us) (hu : u ∈ us) : ∃ t ∈ ts, Retagged t u := by
  induction h with
  | nil => cases hu
  | cons h _ ih =>
    rcases List.mem_cons.1 hu with rfl | hu
    · exact ⟨_, List.mem_cons_self, h⟩
    · obtain ⟨t, ht, htu⟩ := ih hu
      exact ⟨t, List.mem_cons_of_mem _ ht, htu⟩

theorem Tree.tokensAll_map_leaf (ts : List Token) : tokensAll (ts.map leaf) = ts := by
  induction ts with
  | nil => simp
  | cons t ts ih => simp [ih]

namespace SourceFile

/-- What holds of a file that was parsed from tokens. -/
structure Parsed (tokens : List Token) (f : SourceFile) : Prop where
  kind : f.kind = .compilationUnit
  tokens : List.Forall₂ Retagged tokens (Tree.tokensAll f.parts)
  last : ∃ items leading, f.parts = items ++ [.leaf (.endOfFile leading)] ∧
    ∀ t ∈ Tree.tokensAll items, t.isEnd = false ∧ t.text ≠ ""
  formed : Tree.EveryAll Formed f.parts
  complete : f.errors = [] → Tree.EveryAll Complete f.parts

theorem parsed_ofTokens {path : String} {tokens : List Token} {f : SourceFile}
    (h : Lexer.Ended tokens) (hf : ofTokens path tokens = .ok f) : Parsed tokens f := by
  obtain ⟨b, leading, hb, hahead, rfl⟩ := (ofTokens_eq_ok_iff h).1 hf
  obtain ⟨new, -, hg, -⟩ := Grammar.grown_parseTokens h hb
  obtain rfl : new = b.parts.toList := by simpa using hg.parts.symm
  obtain ⟨moved, hmoved, hretagged, -⟩ := hg.moved
  obtain rfl : tokens = moved ++ [.endOfFile leading] := hahead ▸ hmoved
  refine ⟨rfl, ?_, ⟨b.parts.toList, leading, rfl, fun u hu => ?_⟩, ?_, fun he => ?_⟩
  · rw [Tree.tokensAll_append]
    exact List.rel_append hretagged (by simp [Retagged])
  · -- The tokens in front of the end were read, and reading gives each of them a text.
    obtain ⟨init, leading', hinit, hinits⟩ := h
    have hsame : init = moved := (List.append_inj' hinit.symm rfl).1
    obtain ⟨t, ht, htu⟩ := Token.exists_retagged_of_mem hretagged hu
    rw [htu.isEnd, htu.text]
    exact hinits t (hsame ▸ ht)
  · rw [Tree.everyAll_append]
    exact ⟨hg.formed, by simp⟩
  · rw [Tree.everyAll_append]
    exact ⟨hg.complete (by simpa using he), by simp⟩

/-- A file whose text can be cut into tokens is parsed. -/
theorem exists_parsed_of_tokenize (path : String) {source : String} {tokens : List Token}
    (h : Lexer.tokenize source = .ok tokens) :
    ∃ f, parse path source = .ok f ∧ Parsed tokens f := by
  obtain ⟨f, hf⟩ := exists_parse path h
  have hofTokens : ofTokens path tokens = .ok f := by
    rwa [parse, h] at hf
  exact ⟨f, hf, parsed_ofTokens (Lexer.tokenize_lossless h).2 hofTokens⟩

/-- A file that was parsed, with its tokens. -/
theorem exists_parsed {path source : String} {f : SourceFile} (h : parse path source = .ok f) :
    ∃ tokens, Lexer.tokenize source = .ok tokens ∧ Lexer.Ended tokens ∧ Parsed tokens f := by
  unfold parse at h
  cases ht : Lexer.tokenize source with
  | error e => simp [ht, bind, Except.bind] at h
  | ok tokens =>
    rw [ht] at h
    have hended := (Lexer.tokenize_lossless ht).2
    exact ⟨tokens, rfl, hended, parsed_ofTokens hended h⟩

theorem Parsed.text_eq {source : String} {tokens : List Token} {f : SourceFile}
    (h : Parsed tokens f) (ht : Lexer.tokenize source = .ok tokens) : f.text = source := by
  unfold text Tree.renderAll
  rw [Token.renderAll_of_retagged h.tokens, (Lexer.tokenize_lossless ht).1]

/-- Every file whose text can be cut into tokens is parsed, and its tree has these tokens as leaves,
in order; the only end of the file among them is the last child of the root. -/
theorem parse_conserves_tokens (path : String) {source : String} {tokens : List Token}
    (h : Lexer.tokenize source = .ok tokens) :
    ∃ f, parse path source = .ok f ∧ f.kind = .compilationUnit ∧
      List.Forall₂ Retagged tokens (Tree.tokensAll f.parts) ∧
      (∃ items leading, f.parts = items ++ [.leaf (.endOfFile leading)] ∧
        ∀ t ∈ Tree.tokensAll items, t.isEnd = false) ∧
      f.text = source := by
  obtain ⟨f, hf, hparsed⟩ := exists_parsed_of_tokenize path h
  obtain ⟨items, leading, hitems, hends⟩ := hparsed.last
  exact ⟨f, hf, hparsed.kind, hparsed.tokens, ⟨items, leading, hitems, fun t ht => (hends t ht).1⟩,
    hparsed.text_eq h⟩

/-- A word that becomes a keyword, and braces that do not match. -/
theorem parse_conserves_tokens_yield :
    Lexer.tokenize "yield break\x7d" = .ok
      [⟨.identifier, "yield", [], [.space]⟩, ⟨.keyword, "break", [], []⟩, ⟨.punct, "\x7d", [], []⟩,
        .endOfFile []] ∧
    ∃ f, parse "Broken.cs" "yield break\x7d" = .ok f ∧ f.kind = .compilationUnit ∧
      List.Forall₂ Retagged
        [⟨.identifier, "yield", [], [.space]⟩, ⟨.keyword, "break", [], []⟩,
          ⟨.punct, "\x7d", [], []⟩, .endOfFile []] (Tree.tokensAll f.parts) ∧
      (∃ items leading, f.parts = items ++ [.leaf (.endOfFile leading)] ∧
        ∀ t ∈ Tree.tokensAll items, t.isEnd = false) ∧
      f.text = "yield break\x7d" :=
  ⟨by decide +kernel, parse_conserves_tokens "Broken.cs" (by decide +kernel)⟩

end SourceFile

end PluginLint
