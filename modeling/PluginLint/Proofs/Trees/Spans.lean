import PluginLint.Proofs.Trees.Layout

/-!
# Spans tell nodes apart

Every node of a parsed file but its root has a token with a text, and never the end of the file. So
its span is not empty: the spans of siblings stand one behind the other, and nodes that share a span
lie one below the other.
-/
namespace PluginLint

namespace Node

/-- Children with a text have spans that stand one behind the other. -/
theorem pairwise_spans_childNodes {n : Node} (h : ∀ c ∈ n.childNodes, c.tree.Solid) :
    n.childNodes.Pairwise fun c d => c.span.stop ≤ d.span.start := by
  refine (pairwise_ordered_place n.path n.start 0 n.parts).imp_of_mem fun {c d} hc hd hcd => ?_
  have hcs := span_of_solid (h c hc)
  have hds := span_of_solid (h d hd)
  omega

/-- Nodes that share a span lie one below the other. -/
theorem nested_of_span_eq {r x y : Node} (hx : x ∈ r.descendants) (hy : y ∈ r.descendants)
    (hxs : x.tree.Solid) (hys : y.tree.Solid) (hspan : x.span = y.span) :
    y ∈ x.descendants ∨ x ∈ y.descendants := by
  have hbounds := span_of_solid hxs
  rcases nested_or_spans_apart hx hy hxs hys with h | h | h
  · exact .inl h
  · exact .inr h
  · rw [← hspan] at h
    omega

end Node

namespace SourceFile

variable {tokens : List Token} {f : SourceFile}

/-- What stands below the root was parsed in front of the end of the file. -/
theorem Parsed.below_root (hf : Parsed tokens f) {n : Node} (hn : n ∈ f.nodes) (hne : n ≠ f.root) :
    n.tree.Solid ∧ ∀ t ∈ n.tree.tokens, t.isEnd = false := by
  obtain ⟨items, leading, hparts, hitems⟩ := hf.last
  have hformed := hf.formed
  rw [hparts, Tree.everyAll_append] at hformed
  obtain rfl | ⟨c, hc, hnc⟩ := Node.mem_descendants.1 hn
  · exact absurd rfl hne
  have hmem : c.tree ∈ items := by
    have hc' : c.tree ∈ f.parts := Node.tree_of_mem_childNodes hc
    rw [hparts, List.mem_append, List.mem_singleton] at hc'
    refine hc'.resolve_right fun h => ?_
    cases h
  have htokens : ∀ t ∈ c.tree.tokens, t.isEnd = false ∧ t.text ≠ "" := by
    obtain ⟨before, after, rfl⟩ := List.append_of_mem hmem
    exact fun t ht => hitems t (by simp [ht])
  have hsolid : c.tree.Solid := ⟨Tree.every_of_mem hformed.1 hmem, fun t ht => (htokens t ht).2⟩
  obtain ⟨q, pre, post, -, hholds, -⟩ := Node.holds_of_mem_nodesOf hnc
  refine ⟨hsolid.of_holds hholds, fun t ht => (htokens t ?_).1⟩
  rw [hholds.tokens_eq]
  simp [ht]

theorem Parsed.children_solid (hf : Parsed tokens f) {n c : Node} (hn : n ∈ f.nodes)
    (hc : c ∈ n.childNodes) : c.tree.Solid := by
  have hbelow : c ∈ n.descendants := Node.mem_descendants_of_child hc (Node.mem_descendants_self c)
  refine (hf.below_root (Node.mem_descendants_trans hn hbelow) ?_).1
  rintro rfl
  -- The root is no child: it would be smaller than itself.
  have hlt := Node.size_lt_of_mem_childNodes hc
  rcases Node.eq_or_size_lt_of_mem_descendants hn with rfl | hroot
  · exact Nat.lt_irrefl _ hlt
  · omega

/-- In a parsed file every node but the root has a token with a text, and the end of the file stands
in none of them, so that their spans are not empty. The spans of siblings stand one behind the other,
and of two nodes that share a span one lies below the other. -/
theorem parse_separates_nodes (path : String) {source : String} {tokens : List Token}
    (h : Lexer.tokenize source = .ok tokens) :
    ∃ f, parse path source = .ok f ∧
      (∀ n ∈ f.nodes, n ≠ f.root → (∃ t ∈ n.tree.tokens, t.text ≠ "") ∧
        (∀ t ∈ n.tree.tokens, t.isEnd = false) ∧ n.span.start < n.span.stop) ∧
      (∀ n ∈ f.nodes, n.childNodes.Pairwise fun c d => c.span.stop ≤ d.span.start) ∧
      ∀ x ∈ f.nodes, ∀ y ∈ f.nodes, x.span = y.span → y ∈ x.descendants ∨ x ∈ y.descendants := by
  obtain ⟨f, hf, hparsed⟩ := exists_parsed_of_tokenize path h
  refine ⟨f, hf, fun n hn hne => ?_, fun n hn => ?_, fun x hx y hy hspan => ?_⟩
  · obtain ⟨hsolid, hends⟩ := hparsed.below_root hn hne
    obtain ⟨t, ht⟩ := List.exists_mem_of_ne_nil _ (Tree.tokens_ne_nil_of_formed hsolid.formed)
    exact ⟨⟨t, ht, hsolid.texts t ht⟩, hends, (Node.span_of_solid hsolid).2.1⟩
  · exact Node.pairwise_spans_childNodes fun c hc => hparsed.children_solid hn hc
  · by_cases hxr : x = f.root
    · exact .inl (hxr ▸ hy)
    by_cases hyr : y = f.root
    · exact .inr (hyr ▸ hx)
    exact Node.nested_of_span_eq hx hy (hparsed.below_root hx hxr).1 (hparsed.below_root hy hyr).1
      hspan

/-- A statement that is a name and nothing else, and a parenthesis that is set aside behind it. -/
theorem parse_separates_nodes_name :
    Lexer.tokenize "x)" = .ok
      [⟨.identifier, "x", [], []⟩, ⟨.punct, ")", [], []⟩, .endOfFile []] ∧
    ∃ f, parse "Stray.cs" "x)" = .ok f ∧
      (∀ n ∈ f.nodes, n ≠ f.root → (∃ t ∈ n.tree.tokens, t.text ≠ "") ∧
        (∀ t ∈ n.tree.tokens, t.isEnd = false) ∧ n.span.start < n.span.stop) ∧
      (∀ n ∈ f.nodes, n.childNodes.Pairwise fun c d => c.span.stop ≤ d.span.start) ∧
      ∀ x ∈ f.nodes, ∀ y ∈ f.nodes, x.span = y.span → y ∈ x.descendants ∨ x ∈ y.descendants := by
  have htokens : Lexer.tokenize "x)" = .ok
      [⟨.identifier, "x", [], []⟩, ⟨.punct, ")", [], []⟩, .endOfFile []] := by decide +kernel
  exact ⟨htokens, parse_separates_nodes "Stray.cs" htokens⟩

end SourceFile

end PluginLint
