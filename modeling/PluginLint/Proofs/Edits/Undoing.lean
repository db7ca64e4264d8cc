import PluginLint.Proofs.Edits.Frames
import PluginLint.Proofs.Edits.Replacing

/-!
# Taking braces away undoes adding them

A statement is put in a block without the trivia around it, and the block carries that trivia. Taken
out again the statement gets it back at the same tokens, so the tree is the one that was there before.
A tree is known by its shape and its tokens; moving trivia does not touch the shape.
-/
namespace PluginLint

namespace Tree

/-! ### Shapes -/

/- The shape of a tree. -/
mutual

/-- The tree with nothing left of its tokens but their places. -/
def shape : Tree → Tree
  | .node kind parts => .node kind (shapeAll parts)
  | .leaf _ => .leaf (.endOfFile [])

/-- The same for a list of trees. -/
def shapeAll : List Tree → List Tree
  | [] => []
  | t :: ts => shape t :: shapeAll ts

end

@[simp] theorem shape_node (kind : NodeKind) (parts : List Tree) :
    shape (.node kind parts) = .node kind (shapeAll parts) := by rw [shape]

@[simp] theorem shape_leaf (t : Token) : shape (.leaf t) = .leaf (.endOfFile []) := by rw [shape]

@[simp] theorem shapeAll_nil : shapeAll [] = [] := by rw [shapeAll]

@[simp] theorem shapeAll_cons (t : Tree) (ts : List Tree) :
    shapeAll (t :: ts) = shape t :: shapeAll ts := by rw [shapeAll]

/- The shape keeps the number of tokens. -/
mutual

theorem length_tokens_shape : ∀ t : Tree, t.shape.tokens.length = t.tokens.length
  | .node kind parts => by
    rw [shape_node, tokens_node, tokens_node, length_tokensAll_shapeAll parts]
  | .leaf t => by simp

theorem length_tokensAll_shapeAll : ∀ ts : List Tree,
    (tokensAll (shapeAll ts)).length = (tokensAll ts).length
  | [] => by simp
  | t :: ts => by simp [length_tokens_shape t, length_tokensAll_shapeAll ts]

end

/-- A tree is known by its shape and its tokens. -/
theorem eq_of_shape {t u : Tree} (hshape : t.shape = u.shape) (htokens : t.tokens = u.tokens) :
    t = u := by
  induction t using Tree.induct generalizing u with
  | leaf token =>
    cases u with
    | node kind parts => simp at hshape
    | leaf token' => simpa using htokens
  | node kind parts ih =>
    cases u with
    | leaf token => simp at hshape
    | node kind' parts' =>
      rw [shape_node, shape_node, node.injEq] at hshape
      obtain ⟨rfl, hshape⟩ := hshape
      rw [tokens_node, tokens_node] at htokens
      congr 1
      clear kind
      induction parts generalizing parts' with
      | nil =>
        cases parts' with
        | nil => rfl
        | cons u us => simp at hshape
      | cons t ts ih' =>
        cases parts' with
        | nil => simp at hshape
        | cons u us =>
          rw [shapeAll_cons, shapeAll_cons, List.cons.injEq] at hshape
          rw [tokensAll_cons, tokensAll_cons] at htokens
          have hlength : t.tokens.length = u.tokens.length := by
            rw [← length_tokens_shape t, ← length_tokens_shape u, hshape.1]
          obtain ⟨hfirst, hrest⟩ := List.append_inj htokens hlength
          rw [ih t List.mem_cons_self hshape.1 hfirst,
            ih' (fun v hv => ih v (List.mem_cons_of_mem _ hv)) us hshape.2 hrest]

/- The first token keeps its place. -/
mutual

theorem shape_mapFirst (f : Token → Token) : ∀ t : Tree, (t.mapFirst f).shape = t.shape
  | .node kind parts => by rw [mapFirst, shape_node, shape_node, shapeAll_mapFirstOf f parts]
  | .leaf t => by rw [mapFirst, shape_leaf, shape_leaf]

theorem shapeAll_mapFirstOf (f : Token → Token) : ∀ ts : List Tree,
    shapeAll (mapFirstOf f ts) = shapeAll ts
  | [] => by rw [mapFirstOf]
  | t :: ts => by
    rw [mapFirstOf]
    split
    · rw [shapeAll_cons, shapeAll_cons, shape_mapFirst f t]
    · rw [shapeAll_cons, shapeAll_cons, shapeAll_mapFirstOf f ts]

end

/- The last token keeps its place. -/
mutual

theorem shape_mapLast (f : Token → Token) : ∀ t : Tree, (t.mapLast f).shape = t.shape
  | .node kind parts => by rw [mapLast, shape_node, shape_node, shapeAll_mapLastOf f parts]
  | .leaf t => by rw [mapLast, shape_leaf, shape_leaf]

theorem shapeAll_mapLastOf (f : Token → Token) : ∀ ts : List Tree,
    shapeAll (mapLastOf f ts) = shapeAll ts
  | [] => by rw [mapLastOf]
  | t :: ts => by
    rw [mapLastOf]
    split
    · rw [shapeAll_cons, shapeAll_cons, shapeAll_mapLastOf f ts]
    · split
      · rw [shapeAll_cons, shapeAll_cons, shape_mapLast f t]
      · rfl

end

theorem shape_withOuterTrivia (front back : List Trivia) (t : Tree) :
    (t.withOuterTrivia front back).shape = t.shape := by
  rw [withOuterTrivia, shape_mapLast, shape_mapFirst]

end Tree

/-! ### Trivia taken away and given back -/

/-- Tokens get back the trivia that was around them. -/
theorem Token.surround_surround (front back : List Trivia) (ts : List Token) :
    surround (frontTrivia ts) (backTrivia ts) (surround front back ts) = ts := by
  by_cases hne : ts = []
  · subst hne
    rfl
  obtain ⟨t, rfl⟩ | ⟨first, mid, last, rfl⟩ := eq_singleton_or_ends hne
  · rw [surround_singleton, surround_singleton]
    rfl
  · rw [surround_cons_append, surround_cons_append]
    simp [frontTrivia, backTrivia, List.getLast?_cons]

namespace Tree

theorem withOuterTrivia_withoutOuterTrivia (t : Tree) :
    t.withoutOuterTrivia.withOuterTrivia t.leading t.trailing = t := by
  apply eq_of_shape
  · rw [shape_withOuterTrivia, withoutOuterTrivia, shape_withOuterTrivia]
  · rw [tokens_withOuterTrivia, withoutOuterTrivia, tokens_withOuterTrivia, leading_eq, trailing_eq,
      Token.surround_surround]

theorem leading_withoutOuterTrivia (t : Tree) : t.withoutOuterTrivia.leading = [] := by
  rw [leading_eq, withoutOuterTrivia, tokens_withOuterTrivia]
  by_cases hne : t.tokens = []
  · rw [hne]
    rfl
  · exact Token.frontTrivia_surround [] [] hne

theorem trailing_withoutOuterTrivia (t : Tree) : t.withoutOuterTrivia.trailing = [] := by
  rw [trailing_eq, withoutOuterTrivia, tokens_withOuterTrivia]
  by_cases hne : t.tokens = []
  · rw [hne]
    rfl
  · exact Token.backTrivia_surround [] [] hne

/-- What was replaced can be put back in its place. -/
theorem Holds.replaceAt_back {t t' m new : Tree} {path : List Nat} {pre post : List Token}
    (h : Holds t path m pre post) (hnew : ∃ kind parts, new = .node kind parts)
    (ht' : Tree.replaceAt new path t = some t') : Tree.replaceAt m path t' = some t := by
  induction h generalizing t' with
  | here =>
    obtain ⟨kind, parts, rfl⟩ := hnew
    rw [Tree.replaceAt] at ht'
    cases ht'
    rw [Tree.replaceAt]
  | @inside kind before after u m path pre post h ih =>
    rw [Tree.replaceAt, changeAt_append, Option.map_map, Option.map_eq_some_iff] at ht'
    obtain ⟨u', hu', rfl⟩ := ht'
    rw [Function.comp_apply, Tree.replaceAt, changeAt_append, ih hu']
    rfl

end Tree

namespace Node

/-- A tree in braces, each with a blank inside, and with trivia around them. -/
def braced (front back : List Trivia) (inner : Tree) : List Tree :=
  [.leaf ⟨.punct, "\x7b", front, [.space]⟩, inner, .leaf ⟨.punct, "\x7d", [.space], back⟩]

theorem wrapped_eq (s : Node) :
    s.wrapped = .node .block (braced s.leading s.trailing s.tree.withoutOuterTrivia) := rfl

section braced

variable {front back : List Trivia} {kind : NodeKind} {inner : List Tree} {start : Nat}
  {path : List Nat}

theorem singleStatement?_braced (h : kind.isStatement = true) :
    (Node.mk .block (braced front back (.node kind inner)) start path).singleStatement? =
      some ⟨kind, inner, start + (Token.mk .punct "\x7b" front [.space]).width, path ++ [1]⟩ := by
  show (if kind.isStatement then some _ else none) = _
  rw [if_pos h]

theorem innerTrivia_braced (s : Node) :
    (Node.mk .block (braced front back (.node kind inner)) start path).innerTrivia s =
      [.space] ++ s.leading ++ s.trailing ++ [.space] := rfl

theorem leading_braced (t : Tree) :
    (Node.mk .block (braced front back t) start path).leading = front := by
  rw [leading, Tree.leading_eq, tree_mk, Tree.tokens_node]
  rfl

theorem trailing_braced (t : Tree) :
    (Node.mk .block (braced front back t) start path).trailing = back := by
  rw [trailing, Tree.trailing_eq, tree_mk, Tree.tokens_node]
  simp [braced, Token.backTrivia, List.getLast?_cons]

/-- A block with a statement that has no trivia around it gives the statement the trivia of its
braces. -/
theorem unwrapped_braced (h : kind.isStatement = true)
    (hleading : (Tree.node kind inner).leading = []) (htrailing : (Tree.node kind inner).trailing = []) :
    (Node.mk .block (braced front back (.node kind inner)) start path).unwrapped =
      .ok ((Tree.node kind inner).withOuterTrivia front back) := by
  rw [unwrapped, if_pos rfl, singleStatement?_braced h, leading_braced, trailing_braced]
  simp only [innerTrivia_braced, leading, trailing, tree_mk, hleading, htrailing]
  rfl

end braced

/-- A block that was put around a statement gives it back with its trivia. -/
theorem unwrapped_of_wrapped {s b : Node} (hs : s.kind.isStatement = true)
    (hb : b.tree = s.wrapped) : b.unwrapped = .ok s.tree := by
  obtain ⟨inner, hinner⟩ : ∃ inner, s.tree.withoutOuterTrivia = .node s.kind inner :=
    ⟨_, by rw [Tree.withoutOuterTrivia, Tree.withOuterTrivia, tree, Tree.mapFirst, Tree.mapLast]⟩
  have hleading := s.tree.leading_withoutOuterTrivia
  have htrailing := s.tree.trailing_withoutOuterTrivia
  have hback := s.tree.withOuterTrivia_withoutOuterTrivia
  obtain ⟨kind, parts, start, path⟩ := b
  rw [tree_mk, wrapped_eq, Tree.node.injEq] at hb
  obtain ⟨rfl, rfl⟩ := hb
  rw [hinner] at hleading htrailing hback ⊢
  rw [unwrapped_braced hs hleading htrailing]
  exact congrArg Except.ok hback

end Node

namespace SourceFile

variable {f g : SourceFile} {s : Node}

/-- A file is known by its path, its tree and its problems. -/
theorem eq_of_root_tree (hpath : g.path = f.path) (herrors : g.errors = f.errors)
    (htree : g.root.tree = f.root.tree) : g = f := by
  obtain ⟨path, kind, parts, errors⟩ := f
  obtain ⟨path', kind', parts', errors'⟩ := g
  rw [root, root, Node.tree_mk, Node.tree_mk, Tree.node.injEq] at htree
  obtain ⟨rfl, rfl⟩ := htree
  obtain rfl : path' = path := hpath
  obtain rfl : errors' = errors := herrors
  rfl

/-- A statement can be put in a block, and taking the block at its place away gives back the very
file: all kinds, tokens and trivia are as they were. -/
theorem unwrap_undoes_wrap (hs : s ∈ f.nodes) (hstatement : s.kind.isStatement = true)
    (hblock : s.kind ≠ .block) :
    ∃ g, f.wrap s = .ok g ∧ ∃ b ∈ g.nodes, b.path = s.path ∧ b.start = s.start ∧ b.kind = .block ∧
      (∀ b' ∈ g.nodes, b'.path = s.path → b' = b) ∧ g.unwrap b = .ok f := by
  obtain ⟨pre, post, hstands⟩ := stands_of_mem_nodes hs
  have hwrapped : ∃ kind parts, s.wrapped = .node kind parts := ⟨_, _, rfl⟩
  obtain ⟨g, hg, hreplaced, hholds⟩ := hstands.exists_replace hwrapped
  let b : Node :=
    ⟨.block, Node.braced s.leading s.trailing s.tree.withoutOuterTrivia, s.start, s.path⟩
  have hb : g.Stands b pre post := ⟨hholds, hstands.start⟩
  have haccepts : Fix.addBraces.accepts s = true := by simp [Fix.accepts, hstatement, hblock]
  refine ⟨g, ?_, b, hb.mem_nodes, rfl, rfl, rfl, ?_, ?_⟩
  · rw [wrap, if_pos haccepts, hg]
  · intro b' hb' hpath
    obtain ⟨_, _, hb'⟩ := stands_of_mem_nodes hb'
    exact hb'.unique hb hpath
  · have hback : Tree.replaceAt s.tree s.path g.root.tree = some f.root.tree :=
      hstands.holds.replaceAt_back ⟨_, _, rfl⟩ hreplaced
    have hnode : ∃ kind parts, s.tree = .node kind parts := ⟨_, _, rfl⟩
    obtain ⟨f', hf', hreplaced', -⟩ := hb.exists_replace hnode
    have htree : f'.root.tree = f.root.tree :=
      Option.some.inj (hreplaced'.symm.trans hback)
    obtain rfl : f' = f :=
      eq_of_root_tree ((of_replace hf').1.trans (of_replace hg).1)
        ((of_replace hf').2.trans (of_replace hg).2) htree
    show (do g.replace b (← b.unwrapped)) = .ok f'
    rw [Node.unwrapped_of_wrapped hstatement rfl]
    exact hf'

/-- A statement of a single token, behind a comment and a directive, with a comment at its end. -/
theorem unwrap_undoes_wrap_directive :
    let token : Token := ⟨.punct, ";", [⟨.blockComment, "/*a*/"⟩, ⟨.directive, "#endif\n"⟩],
      [⟨.lineComment, "//b"⟩]⟩
    let s : Node := ⟨.emptyStatement, [.leaf token], 0, [0]⟩
    let f : SourceFile := ⟨"t.cs", .compilationUnit, [s.tree, .leaf (.endOfFile [])], []⟩
    (s ∈ f.nodes ∧ s.kind.isStatement = true ∧ s.kind ≠ .block) ∧
    ∃ g, f.wrap s = .ok g ∧ g.text = "/*a*/#endif\n\x7b ; \x7d//b" ∧
      ∃ b ∈ g.nodes, b.path = [0] ∧ b.kind = .block ∧ g.unwrap b = .ok f := by
  intro token s f
  have hmem : s ∈ f.nodes := List.mem_of_getElem? (show f.nodes[1]? = some s from rfl)
  have hkinds : s.kind.isStatement = true ∧ s.kind ≠ .block := by decide
  have htext : (f.wrap s).toOption.map text = some "/*a*/#endif\n\x7b ; \x7d//b" := by
    decide +kernel
  obtain ⟨g, hg, b, hb, hpath, -, hkind, -, hback⟩ := unwrap_undoes_wrap hmem hkinds.1 hkinds.2
  rw [hg] at htext
  exact ⟨⟨hmem, hkinds⟩, g, hg, Option.some.inj htext, b, hb, hpath, hkind, hback⟩

end SourceFile

end PluginLint
