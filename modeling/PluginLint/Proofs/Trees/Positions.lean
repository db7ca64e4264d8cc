import PluginLint.Proofs.Trees.Search

/-!
# Positions and the text

No offset is stored in a tree: where a node stands is counted from the widths of what is in front of
it, and where its last token stands from its end. The offsets agree with the text of the file, which
reads at every span what the node or token there says.
-/
namespace PluginLint

/-! ### Slices -/

namespace Text

theorem exists_append_of_dropBytes? {n : Nat} {s rest : List Char}
    (h : dropBytes? n s = some rest) : ∃ front, s = front ++ rest ∧ byteLength front = n := by
  fun_induction dropBytes? n s with
  | case1 s =>
    cases h
    exact ⟨[], rfl, rfl⟩
  | case2 n => cases h
  | case3 n c s hc ih =>
    obtain ⟨front, rfl, hlength⟩ := ih h
    refine ⟨c :: front, rfl, ?_⟩
    rw [byteLength_cons, hlength]
    omega
  | case4 n c s hc => cases h

theorem exists_append_of_takeBytes? {n : Nat} {s front : List Char}
    (h : takeBytes? n s = some front) : ∃ rest, s = front ++ rest ∧ byteLength front = n := by
  fun_induction takeBytes? n s generalizing front with
  | case1 s =>
    cases h
    exact ⟨s, rfl, rfl⟩
  | case2 n => cases h
  | case3 n c s hc ih =>
    obtain ⟨front, hfront, rfl⟩ := Option.map_eq_some_iff.1 h
    obtain ⟨rest, rfl, hlength⟩ := ih hfront
    refine ⟨rest, rfl, ?_⟩
    rw [byteLength_cons, hlength]
    omega
  | case4 n c s hc => cases h

/-- There is a slice where whole characters stand in front of it, in it and behind it. -/
theorem slice?_eq_some_iff {s inner : String} {start stop : Nat} :
    slice? s start stop = some inner ↔ ∃ before after, s = before ++ inner ++ after ∧
      start = before.utf8ByteSize ∧ stop = start + inner.utf8ByteSize := by
  constructor
  · intro h
    rw [slice?] at h
    split at h
    · cases h
    · rename_i hle
      simp only [Option.pure_def, Option.bind_eq_bind, Option.bind_eq_some_iff, Option.some.injEq]
        at h
      obtain ⟨rest, hrest, part, hpart, rfl⟩ := h
      obtain ⟨before, hbefore, hstart⟩ := exists_append_of_dropBytes? hrest
      obtain ⟨after, rfl, hlength⟩ := exists_append_of_takeBytes? hpart
      refine ⟨.ofList before, .ofList after, ?_, ?_, ?_⟩
      · rw [← String.ofList_append, ← String.ofList_append, List.append_assoc, ← hbefore,
          String.ofList_toList]
      · rw [← byteLength_toList, String.toList_ofList, hstart]
      · rw [← byteLength_toList, String.toList_ofList]
        omega
  · rintro ⟨before, after, rfl, rfl, rfl⟩
    have h := slice?_append before.toList inner.toList after.toList
    rwa [← String.toList_append, ← String.toList_append, String.ofList_toList, String.ofList_toList,
      byteLength_toList, byteLength_toList] at h

end Text

/-! ### Tokens in a row -/

namespace PlacedToken

/-- Tokens one behind the other, the first of them at `start`. -/
def placeAll (start : Nat) : List Token → List PlacedToken
  | [] => []
  | t :: ts => ⟨t, start⟩ :: placeAll (start + t.width) ts

@[simp] theorem placeAll_nil (start : Nat) : placeAll start [] = [] := rfl

@[simp] theorem placeAll_cons (start : Nat) (t : Token) (ts : List Token) :
    placeAll start (t :: ts) = ⟨t, start⟩ :: placeAll (start + t.width) ts := rfl

theorem placeAll_append (start : Nat) (ts us : List Token) :
    placeAll start (ts ++ us) = placeAll start ts ++ placeAll (start + Token.widthAll ts) us := by
  induction ts generalizing start with
  | nil => simp
  | cons t ts ih => simp [ih, Nat.add_assoc]

theorem head?_placeAll (start : Nat) (ts : List Token) :
    (placeAll start ts).head? = ts.head?.map fun t => ⟨t, start⟩ := by
  cases ts <;> rfl

/-- The last token ends where all of them end. -/
theorem getLast?_placeAll (start : Nat) (ts : List Token) :
    (placeAll start ts).getLast? =
      ts.getLast?.map fun t => ⟨t, start + Token.widthAll ts - t.width⟩ := by
  rcases List.eq_nil_or_concat' ts with rfl | ⟨init, last, rfl⟩
  · rfl
  · rw [placeAll_append]
    simp [← Nat.add_assoc]

theorem exists_of_mem_placeAll {start : Nat} {ts : List Token} {t : PlacedToken}
    (h : t ∈ placeAll start ts) : ∃ before after, ts = before ++ t.token :: after ∧
      t.start = start + Token.widthAll before := by
  induction ts generalizing start with
  | nil => cases h
  | cons u ts ih =>
    rcases List.mem_cons.1 h with rfl | h
    · exact ⟨[], ts, rfl, rfl⟩
    · obtain ⟨before, after, rfl, hstart⟩ := ih h
      exact ⟨u :: before, after, rfl, by rw [hstart, Token.widthAll_cons, Nat.add_assoc]⟩

end PlacedToken

namespace Node

open PlacedToken (placeAll)

/-- The tokens that are met on a walk down the parts of a node, where they stand. -/
def placedTokens (n : Node) : List PlacedToken :=
  n.elements.attach.flatMap fun
    | ⟨.token t, _⟩ => [t]
    | ⟨.node c, h⟩ =>
      have : c.size < n.size := size_lt_of_mem_childNodes (mem_filterMap_node?.2 h)
      c.placedTokens
termination_by n.size

/-- The tokens met at one part. -/
def tokensAt : Element → List PlacedToken
  | .token t => [t]
  | .node c => c.placedTokens

theorem placedTokens_eq_flatMap (n : Node) : n.placedTokens = n.elements.flatMap tokensAt := by
  have hat : n.placedTokens = n.elements.attach.flatMap fun e => tokensAt e.1 := by
    rw [placedTokens]
    congr 1
    funext ⟨e, he⟩
    cases e <;> rfl
  rw [hat, ← List.flatMap_map, List.attach_map_subtype_val]

/-- The walk meets the tokens of the node in a row. -/
theorem placedTokens_eq (n : Node) :
    n.placedTokens = placeAll n.start (Tree.tokensAll n.parts) := by
  induction n using induct with
  | step n ih =>
    have hplace : ∀ (parts : List Tree) (start i : Nat),
        (∀ c, .node c ∈ place n.path start i parts → c ∈ n.childNodes) →
        (place n.path start i parts).flatMap tokensAt = placeAll start (Tree.tokensAll parts) := by
      intro parts
      induction parts with
      | nil =>
        intro start i _
        simp [place]
      | cons t ts ih' =>
        intro start i hmem
        cases t with
        | leaf token =>
          rw [place] at hmem ⊢
          rw [List.flatMap_cons, ih' _ _ fun c hc => hmem c (List.mem_cons_of_mem _ hc)]
          simp [tokensAt]
        | node kind inner =>
          rw [place] at hmem ⊢
          rw [List.flatMap_cons, ih' _ _ fun c hc => hmem c (List.mem_cons_of_mem _ hc), tokensAt,
            ih _ (hmem _ List.mem_cons_self), Tree.tokensAll_cons, Tree.tokens_node,
            PlacedToken.placeAll_append, Tree.widthAll_eq]
    rw [placedTokens_eq_flatMap]
    exact hplace n.parts n.start 0 fun c hc => mem_filterMap_node?.2 hc

theorem head?_placedTokens (n : Node) : n.placedTokens.head? = n.firstToken? := by
  rw [placedTokens_eq, PlacedToken.head?_placeAll, firstToken?, Tree.firstTokenOf?_eq]

/-- Counting from the end of a node gives the same place of its last token as the walk. -/
theorem getLast?_placedTokens (n : Node) : n.placedTokens.getLast? = n.lastToken? := by
  rw [placedTokens_eq, PlacedToken.getLast?_placeAll, lastToken?, Tree.lastTokenOf?_eq, width,
    Tree.widthAll_eq]

end Node

/-! ### Files -/

namespace SourceFile

variable {f : SourceFile} {n : Node} {pre post : List Token}

theorem Stands.text_around (h : f.Stands n pre post) :
    f.text = Token.renderAll pre ++ n.fullText ++ Token.renderAll post := by
  have htokens : Tree.tokensAll f.parts = pre ++ (n.tree.tokens ++ post) := by
    simpa [root] using h.holds.tokens_eq
  rw [text, Tree.renderAll, htokens, Node.fullText, Tree.render]
  simp [String.append_assoc]

theorem Stands.slice_fullSpan (h : f.Stands n pre post) :
    Text.slice? f.text n.fullSpan.start n.fullSpan.stop = some n.fullText := by
  refine Text.slice?_eq_some_iff.2 ⟨_, _, h.text_around, ?_, ?_⟩
  · rw [Token.utf8ByteSize_renderAll]
    exact h.start
  · rw [Node.fullText, Tree.render, Token.utf8ByteSize_renderAll, ← Tree.width_eq]
    rfl

theorem Stands.slice_span (h : f.Stands n pre post) :
    Text.slice? f.text n.span.start n.span.stop = some n.text := by
  by_cases hne : n.tree.tokens = []
  · -- Without tokens there is no text, and the span is empty.
    have hspan : n.span = .ofLength n.start 0 := by
      have hnone : Tree.tokensAll n.parts = [] := by simpa [Node.tree] using hne
      simp [Node.span, Tree.firstTokenOf?_eq, hnone]
    have htext : n.text = "" := by
      rw [Node.text, Tree.text_eq, hne]
      rfl
    have hfull : n.fullText = "" := by
      rw [Node.fullText, Tree.render, hne]
      rfl
    refine Text.slice?_eq_some_iff.2 ⟨Token.renderAll pre, Token.renderAll post, ?_, ?_, ?_⟩
    · rw [h.text_around, hfull, htext]
    · rw [hspan, Token.utf8ByteSize_renderAll]
      exact h.start
    · rw [hspan, htext]
      rfl
  · refine Text.slice?_eq_some_iff.2 ⟨Token.renderAll pre ++ Trivia.render n.leading,
      Trivia.render n.trailing ++ Token.renderAll post, ?_, ?_, ?_⟩
    · rw [h.text_around, Node.fullText, Tree.render, Token.renderAll_eq hne, Node.text,
        Tree.text_eq, Node.leading, Tree.leading_eq, Node.trailing, Tree.trailing_eq]
      simp [String.append_assoc]
    · rw [Node.span_eq hne, String.utf8ByteSize_append, Token.utf8ByteSize_renderAll,
        Trivia.utf8ByteSize_render, ← h.start]
      rfl
    · rw [Node.span_eq hne]
      rfl

theorem Stands.slice_token (h : f.Stands n pre post) {t : PlacedToken} (ht : t ∈ n.placedTokens) :
    Text.slice? f.text t.fullSpan.start t.fullSpan.stop = some t.token.render ∧
      Text.slice? f.text t.span.start t.span.stop = some t.text := by
  rw [Node.placedTokens_eq] at ht
  obtain ⟨before, after, htokens, hstart⟩ := PlacedToken.exists_of_mem_placeAll ht
  have htext : f.text = Token.renderAll (pre ++ before) ++ t.token.render ++
      Token.renderAll (after ++ post) := by
    rw [h.text_around, Node.fullText, Tree.render, Node.tree, Tree.tokens_node, htokens]
    simp [String.append_assoc]
  have hfront : t.start = (Token.renderAll (pre ++ before)).utf8ByteSize := by
    rw [Token.utf8ByteSize_renderAll, Token.widthAll_append, hstart, h.start]
  refine ⟨Text.slice?_eq_some_iff.2 ⟨_, _, htext, hfront, ?_⟩, Text.slice?_eq_some_iff.2
    ⟨Token.renderAll (pre ++ before) ++ Trivia.render t.token.leading,
      Trivia.render t.token.trailing ++ Token.renderAll (after ++ post), ?_, ?_, rfl⟩⟩
  · rw [Token.utf8ByteSize_render]
    rfl
  · rw [htext, Token.render]
    simp [PlacedToken.text, String.append_assoc]
  · rw [String.utf8ByteSize_append, ← hfront, Trivia.utf8ByteSize_render]
    rfl

/-- The text of a file reads at the spans of a node, with and without the trivia around it, what the
node says. Its first and its last token are the ones that a walk down its parts meets first and
last, at the same place, and at the spans of all tokens of the walk the text reads what they say. -/
theorem positions_agree (hn : n ∈ f.nodes) :
    Text.slice? f.text n.fullSpan.start n.fullSpan.stop = some n.fullText ∧
      Text.slice? f.text n.span.start n.span.stop = some n.text ∧
      n.firstToken? = n.placedTokens.head? ∧ n.lastToken? = n.placedTokens.getLast? ∧
      ∀ t ∈ n.placedTokens,
        Text.slice? f.text t.fullSpan.start t.fullSpan.stop = some t.token.render ∧
          Text.slice? f.text t.span.start t.span.stop = some t.text := by
  obtain ⟨pre, post, hstands⟩ := stands_of_mem_nodes hn
  exact ⟨hstands.slice_fullSpan, hstands.slice_span, n.head?_placedTokens.symm,
    n.getLast?_placedTokens.symm, fun t ht => hstands.slice_token ht⟩

/-- A call with letters of two bytes between blanks, its last part a node without tokens. -/
theorem positions_agree_wide :
    let name : Tree := .node .identifierName [.leaf ⟨.identifier, "éß", [.space], [.space]⟩]
    let call : Node := ⟨.invocationExpression, [name, .node .argumentList []], 0, [0]⟩
    let f : SourceFile := ⟨"t.cs", .compilationUnit, [call.tree, .leaf (.endOfFile [])], []⟩
    (call ∈ f.nodes ∧ call.fullSpan = ⟨0, 6⟩ ∧ call.span = ⟨1, 5⟩ ∧ call.text = "éß" ∧
      call.placedTokens.length = 1) ∧
      Text.slice? f.text call.fullSpan.start call.fullSpan.stop = some call.fullText ∧
      Text.slice? f.text call.span.start call.span.stop = some call.text ∧
      call.firstToken? = call.placedTokens.head? ∧ call.lastToken? = call.placedTokens.getLast? ∧
      ∀ t ∈ call.placedTokens,
        Text.slice? f.text t.fullSpan.start t.fullSpan.stop = some t.token.render ∧
          Text.slice? f.text t.span.start t.span.stop = some t.text := by
  intro name call f
  have hmem : call ∈ f.nodes := by
    simp [f, nodes, root, Node.descendants, Node.nodesOf, Node.nodesOfAll, call]
  refine ⟨⟨hmem, by decide +kernel, by decide +kernel, by decide +kernel, ?_⟩,
    positions_agree hmem⟩
  rw [Node.placedTokens_eq]
  decide +kernel

end SourceFile

end PluginLint
