import Mathlib.Data.List.Perm.Basic
import PluginLint.Proofs.Edits.BraceRules

/-!
# What is lost with a pair of braces

A statement that takes the place of its block keeps the trivia inside it and gets the trivia around
the block. All trivia between the braces and the statement goes. Comments there are a reason to
refuse the change, so that white space is all that is lost, save for lines with a directive: these
go with the braces.
-/
namespace PluginLint

namespace Token

/-- All trivia of a run of tokens, in order. -/
def trivia (ts : List Token) : List Trivia := ts.flatMap fun t => t.leading ++ t.trailing

/-- The trivia between the first and the last of a run of tokens. -/
def innerTrivia : List Token → List Trivia
  | t :: u :: rest => t.trailing ++ u.leading ++ innerTrivia (u :: rest)
  | _ => []

@[simp] theorem trivia_append (ts us : List Token) : trivia (ts ++ us) = trivia ts ++ trivia us := by
  simp [trivia]

theorem backTrivia_cons_cons (t u : Token) (ts : List Token) :
    backTrivia (t :: u :: ts) = backTrivia (u :: ts) := by
  simp [backTrivia, List.getLast?_cons_cons]

/-- The trivia of a run of tokens is that around it with that inside. -/
theorem trivia_cons (t : Token) (ts : List Token) :
    trivia (t :: ts) = t.leading ++ innerTrivia (t :: ts) ++ backTrivia (t :: ts) := by
  induction ts generalizing t with
  | nil => simp [trivia, innerTrivia, backTrivia]
  | cons u ts ih =>
    have hrest : trivia (t :: u :: ts) = t.leading ++ t.trailing ++ trivia (u :: ts) := rfl
    rw [hrest, ih u, innerTrivia, backTrivia_cons_cons]
    simp [List.append_assoc]

theorem trivia_eq {ts : List Token} (h : ts ≠ []) :
    trivia ts = frontTrivia ts ++ innerTrivia ts ++ backTrivia ts := by
  obtain ⟨t, ts, rfl⟩ := List.exists_cons_of_ne_nil h
  rw [trivia_cons]
  rfl

/-- A token divides the trivia inside a run of tokens. -/
theorem innerTrivia_append_cons (ts : List Token) (t : Token) (us : List Token) :
    innerTrivia (ts ++ t :: us) = innerTrivia (ts ++ [t]) ++ innerTrivia (t :: us) := by
  induction ts with
  | nil => simp [innerTrivia]
  | cons a ts ih =>
    cases ts with
    | nil => simp [innerTrivia]
    | cons b ts =>
      simp only [List.cons_append, innerTrivia] at ih ⊢
      rw [ih]
      simp [List.append_assoc]

/-- A run of tokens inside another one divides its inner trivia in three. -/
theorem innerTrivia_append (before after : List Token) {ts : List Token} (h : ts ≠ []) :
    innerTrivia (before ++ (ts ++ after)) = innerTrivia (before ++ ts.head?.toList) ++
      innerTrivia ts ++ innerTrivia (ts.getLast?.toList ++ after) := by
  obtain ⟨t, rfl⟩ | ⟨first, mid, last, rfl⟩ := eq_singleton_or_ends h
  · have hone : innerTrivia [t] = [] := rfl
    simpa [hone] using innerTrivia_append_cons before t after
  · have hlast : (first :: (mid ++ [last])).getLast? = some last := by
      rw [← List.cons_append, List.getLast?_concat]
    have hfront := innerTrivia_append_cons before first (mid ++ last :: after)
    have hback := innerTrivia_append_cons (first :: mid) last after
    have hshape : before ++ (first :: (mid ++ [last]) ++ after) =
        before ++ first :: (mid ++ last :: after) := by simp
    rw [hshape, hfront, hlast]
    rw [List.cons_append] at hback
    simp [hback, List.append_assoc]

theorem innerTrivia_surround (front back : List Trivia) (ts : List Token) :
    innerTrivia (surround front back ts) = innerTrivia ts := by
  by_cases h : ts = []
  · rw [h]
    rfl
  obtain ⟨t, rfl⟩ | ⟨first, mid, last, rfl⟩ := eq_singleton_or_ends h
  · rfl
  rw [surround_cons_append]
  -- Only the outermost trivia has changed, and the inner trivia does not have it.
  have hback : ∀ (t : Token) (ts : List Token),
      innerTrivia (t :: (ts ++ [{ last with trailing := back }])) =
        innerTrivia (t :: (ts ++ [last])) := by
    intro t ts
    induction ts generalizing t with
    | nil => rfl
    | cons u ts ih => simp only [List.cons_append, innerTrivia, ih]
  have hfront : ∀ ts : List Token, innerTrivia ({ first with leading := front } :: ts) =
      innerTrivia (first :: ts) := by
    intro ts
    cases ts <;> rfl
  rw [hfront, hback]

end Token

namespace Node

/-- The trivia of a block that does not stay with its statement: what is between the tokens of the
block, except inside the statement. A statement without tokens keeps nothing. -/
def shedTrivia (block : Node) : List Trivia :=
  let before := Tree.tokensAll (block.parts.takeWhile fun t => !t.isNode)
  match block.parts.dropWhile fun t => !t.isNode with
  | [] => []
  | s :: after =>
    if s.tokens = [] then Token.trivia block.tree.tokens
    else Token.innerTrivia (before ++ s.firstToken?.toList) ++
      Token.innerTrivia (s.lastToken?.toList ++ Tree.tokensAll after)

/-- The single statement of a block stands between tokens. -/
theorem parts_of_singleStatement? {block s : Node} (h : block.singleStatement? = some s) :
    ∃ before after, block.parts = before ++ s.tree :: after ∧
      (∀ t ∈ before, t.isNode = false) ∧ ∀ t ∈ after, t.isNode = false := by
  obtain ⟨-, hc, -⟩ := childNodes_of_singleStatement? h
  have hnodes := map_tree_childNodes block
  rw [hc, List.map_singleton] at hnodes
  obtain ⟨before, after, hparts, hbefore, -, hafter⟩ := List.filter_eq_cons_iff.1 hnodes.symm
  refine ⟨before, after, hparts, fun t ht => ?_, fun t ht => ?_⟩
  · simpa using hbefore t ht
  · simpa using List.filter_eq_nil_iff.1 hafter t ht

/-- The parts of a block are divided at the first node. -/
theorem divide_parts {before : List Tree} (s : Node) (after : List Tree)
    (hbefore : ∀ t ∈ before, t.isNode = false) :
    ((before ++ s.tree :: after).takeWhile fun t => !t.isNode) = before ∧
      ((before ++ s.tree :: after).dropWhile fun t => !t.isNode) = s.tree :: after := by
  have hall : ∀ t ∈ before, (!t.isNode) = true := fun t ht => by simp [hbefore t ht]
  rw [List.takeWhile_append_of_pos hall, List.dropWhile_append_of_pos hall]
  simp [tree, Tree.isNode]

theorem shedTrivia_eq {block s : Node} {before after : List Tree}
    (hparts : block.parts = before ++ s.tree :: after)
    (hbefore : ∀ t ∈ before, t.isNode = false) :
    block.shedTrivia = if s.tree.tokens = [] then Token.trivia block.tree.tokens
      else Token.innerTrivia (Tree.tokensAll before ++ s.tree.tokens.head?.toList) ++
        Token.innerTrivia (s.tree.tokens.getLast?.toList ++ Tree.tokensAll after) := by
  obtain ⟨htake, hdrop⟩ := divide_parts s after hbefore
  rw [shedTrivia, hparts, htake, hdrop]
  simp only [Tree.firstToken?_eq, Tree.lastToken?_eq]

/-- The trivia of a block is shed or stays with its statement, which gets the trivia around the
block. -/
theorem perm_shedTrivia {block s : Node} (h : block.singleStatement? = some s) :
    (Token.trivia block.tree.tokens).Perm
      (Token.trivia (s.tree.withOuterTrivia block.leading block.trailing).tokens ++
        block.shedTrivia) := by
  obtain ⟨before, after, hparts, hbefore, -⟩ := parts_of_singleStatement? h
  rw [Tree.tokens_withOuterTrivia]
  rw [shedTrivia_eq hparts hbefore]
  by_cases hs : s.tree.tokens = []
  · rw [if_pos hs, hs]
    exact .refl _
  · have htokens : block.tree.tokens =
        Tree.tokensAll before ++ (s.tree.tokens ++ Tree.tokensAll after) := by
      rw [tree, hparts]
      simp
    have hne : block.tree.tokens ≠ [] := by simp [htokens, hs]
    have hblock := Token.trivia_eq hne
    have hinner : Token.innerTrivia block.tree.tokens = _ :=
      htokens ▸ Token.innerTrivia_append (Tree.tokensAll before) (Tree.tokensAll after) hs
    have hstatement :=
      Token.trivia_eq (Token.surround_ne_nil block.leading block.trailing hs)
    rw [Token.frontTrivia_surround _ _ hs, Token.backTrivia_surround _ _ hs,
      Token.innerTrivia_surround, leading, trailing, Tree.leading_eq, Tree.trailing_eq] at hstatement
    rw [if_neg hs, leading, trailing, Tree.leading_eq, Tree.trailing_eq, hstatement, hblock, hinner,
      List.perm_iff_count]
    intro t
    simp only [List.count_append]
    omega

/-- What a block as the parser makes it sheds was looked through for comments. -/
theorem mem_innerTrivia_of_mem_shedTrivia {block s : Node} (h : block.singleStatement? = some s)
    (hsolid : block.tree.Solid) {t : Trivia} (ht : t ∈ block.shedTrivia) :
    t ∈ block.innerTrivia s := by
  obtain ⟨hk, hc, -⟩ := childNodes_of_singleStatement? h
  have hstatement : s.tree.Solid := hsolid.of_mem (tree_of_mem_childNodes (by simp [hc]))
  have hs := Tree.tokens_ne_nil_of_formed hstatement.formed
  obtain ⟨opening, inner, closing, hparts, hopening, hinner, hclosing⟩ :=
    (Tree.every_node.1 hsolid.formed).1.braced hk
  -- The nodes between the braces are the single statement.
  have hnodes := map_tree_childNodes block
  have hkept : inner.filter Tree.isNode = inner := List.filter_eq_self.2 hinner
  have hleaves : closing.filter Tree.isNode = [] := by
    rcases hclosing with rfl | ⟨brace, rfl, -⟩ <;> rfl
  rw [hc, hparts, List.filter_cons_of_neg (by simp [Tree.isNode]), List.filter_append, hkept, hleaves,
    List.append_nil, List.map_singleton] at hnodes
  subst hnodes
  have hparts' : block.parts = [.leaf opening] ++ s.tree :: closing := hparts
  have hshed := shedTrivia_eq hparts' (by simp [Tree.isNode])
  have hleading : s.leading = Token.frontTrivia s.tree.tokens := Tree.leading_eq _
  have htrailing : s.trailing = Token.backTrivia s.tree.tokens := Tree.trailing_eq _
  obtain ⟨first, hfirst⟩ := Option.isSome_iff_exists.1 (List.isSome_head?.2 hs)
  obtain ⟨last, hlast⟩ := Option.isSome_iff_exists.1 (List.getLast?_isSome.2 hs)
  have hplaced : block.token? "\x7b" = some ⟨opening, block.start⟩ := by
    simp [token?, childTokens, elements, place, hparts, Element.token?, PlacedToken.text, hopening]
  rw [hshed, if_neg hs] at ht
  rw [innerTrivia, hplaced, hleading, htrailing, Token.frontTrivia, Token.backTrivia, hfirst, hlast]
  rcases hclosing with rfl | ⟨brace, rfl, hbrace⟩
  · simp [Token.innerTrivia, hfirst, hlast] at ht
    simp only [Option.map_some, Option.getD_some, List.mem_append]
    tauto
  · have hclose : ∃ start, block.token? "\x7d" = some ⟨brace, start⟩ := by
      simp [token?, childTokens, elements, place, hparts, Element.token?, PlacedToken.text,
        hopening, hbrace, tree]
    obtain ⟨start, hclose⟩ := hclose
    simp [Token.innerTrivia, hfirst, hlast] at ht
    simp only [hclose, Option.map_some, Option.getD_some, List.mem_append]
    tauto

end Node

namespace SourceFile

/-- All trivia of a file, in order. -/
def trivia (f : SourceFile) : List Trivia := Token.trivia f.root.tree.tokens

/-- A block that is unwrapped gives way to its single statement, and nothing else changes. -/
theorem exists_of_unwrap {f g : SourceFile} {block : Node} (hb : block ∈ f.nodes)
    (hg : f.unwrap block = .ok g) :
    ∃ s pre post, block.singleStatement? = some s ∧ f.Stands block pre post ∧
      (block.innerTrivia s).any Trivia.isComment = false ∧
      g.root.tree.tokens = pre ++
        ((s.tree.withOuterTrivia block.leading block.trailing).tokens ++ post) := by
  obtain ⟨pre, post, hstands⟩ := stands_of_mem_nodes hb
  cases hnew : block.unwrapped with
  | error e => simp [unwrap, hnew, bind, Except.bind] at hg
  | ok new =>
    have hreplace : f.replace block new = .ok g := by
      simpa [unwrap, hnew, bind, Except.bind] using hg
    obtain ⟨s, hs, hcomments, rfl⟩ := Node.unwrapped_cases hnew
    have hnode : ∃ kind parts, s.tree.withOuterTrivia block.leading block.trailing =
        .node kind parts := ⟨_, _, rfl⟩
    obtain ⟨g', hg', -, hholds⟩ := hstands.exists_replace hnode
    obtain rfl : g = g' := Except.ok.inj (hreplace.symm.trans hg')
    exact ⟨s, pre, post, hs, hstands, hcomments, hholds.tokens_eq⟩

/-- In every tree the trivia that goes missing when a block is unwrapped is what the block sheds. In
a parsed file it is all white space, unless a directive is among it. -/
theorem unwrap_loses_blanks_iff {f g : SourceFile} {block : Node} (hb : block ∈ f.nodes)
    (hg : f.unwrap block = .ok g) :
    (f.trivia.diff g.trivia).Perm block.shedTrivia ∧
      ∀ path source, parse path source = .ok f →
        ((∀ t ∈ f.trivia.diff g.trivia, t.kind = .whitespace ∨ t.kind = .endOfLine) ↔
          ∀ t ∈ block.shedTrivia, t.kind ≠ .directive) := by
  obtain ⟨s, pre, post, hs, hstands, hcomments, htokens⟩ := exists_of_unwrap hb hg
  have hmoved : f.trivia.Perm (g.trivia ++ block.shedTrivia) := by
    rw [trivia, trivia, hstands.holds.tokens_eq, htokens, Token.trivia_append, Token.trivia_append,
      Token.trivia_append, Token.trivia_append, List.perm_iff_count]
    intro t
    have hcount := List.perm_iff_count.1 (Node.perm_shedTrivia hs) t
    simp only [List.count_append] at hcount ⊢
    omega
  have hlost : (f.trivia.diff g.trivia).Perm block.shedTrivia := by
    have hall : (g.trivia ++ f.trivia.diff g.trivia).Perm f.trivia := by
      refine List.subperm_append_diff_self_of_count_le fun t _ => ?_
      have hcount := List.perm_iff_count.1 hmoved t
      rw [List.count_append] at hcount
      omega
    exact (List.perm_append_left_iff _).1 (hall.trans hmoved)
  refine ⟨hlost, fun path source hf => ?_⟩
  obtain ⟨tokens, -, -, hparsed⟩ := exists_parsed hf
  have hkind := (Node.childNodes_of_singleStatement? hs).1
  have hsolid := hparsed.solid hstands (by rw [hkind]; decide)
  -- No comment is shed, so a piece is white space or a directive.
  have hshed : ∀ t ∈ block.shedTrivia, t.kind.isComment = false := by
    intro t ht
    have hinner := Node.mem_innerTrivia_of_mem_shedTrivia hs hsolid ht
    simpa [Trivia.isComment] using List.any_eq_false.1 hcomments t hinner
  constructor
  · intro hblank t ht hdirective
    rcases hblank t (hlost.mem_iff.2 ht) with h | h <;> rw [hdirective] at h <;> cases h
  · intro hnone t ht
    have hmem := hlost.mem_iff.1 ht
    have hcomment := hshed t hmem
    have hdirective := hnone t hmem
    cases hk : t.kind <;> simp_all [TriviaKind.isComment]

/-- A block over three lines is unwrapped, and two line breaks and the blanks of an indentation are
lost. -/
theorem unwrap_loses_blanks_iff_lines :
    ∃ f block g, parse "C.cs" "class C\x7bvoid M()\x7bif(a)\x7b\n  return;\n\x7d\x7d\x7d" = .ok f ∧
      block ∈ f.nodes ∧ f.unwrap block = .ok g ∧ (f.trivia.diff g.trivia).length = 3 ∧
      ∀ t ∈ f.trivia.diff g.trivia, t.kind = .whitespace ∨ t.kind = .endOfLine := by
  have hseen : (parse "C.cs"
      "class C\x7bvoid M()\x7bif(a)\x7b\n  return;\n\x7d\x7d\x7d").toOption.bind
        (fun f => f.nodes[8]?.map fun block => ((f.unwrap block).toOption.isSome,
          block.shedTrivia.map Trivia.kind)) =
      some (true, [.endOfLine, .whitespace, .endOfLine]) := by
    rw [parse_ofList]
    decide +kernel
  obtain ⟨f, hf, hseen⟩ := Option.bind_eq_some_iff.1 hseen
  have hf := eq_ok_of_toOption hf
  simp only [Option.map_eq_some_iff, Prod.mk.injEq] at hseen
  obtain ⟨block, hblock, hsome, hkinds⟩ := hseen
  obtain ⟨g, hg⟩ := Option.isSome_iff_exists.1 hsome
  have hg := eq_ok_of_toOption hg
  have hmem : block ∈ f.nodes := List.mem_of_getElem? hblock
  obtain ⟨hlost, hiff⟩ := unwrap_loses_blanks_iff hmem hg
  refine ⟨f, block, g, hf, hmem, hg, ?_, (hiff _ _ hf).2 fun t ht hdirective => ?_⟩
  · rw [hlost.length_eq, ← List.length_map (f := Trivia.kind), hkinds]
    rfl
  · have hkind : t.kind ∈ block.shedTrivia.map Trivia.kind := List.mem_map_of_mem ht
    rw [hkinds, hdirective] at hkind
    exact absurd hkind (by decide)

/-- A line that opens a region stands between a brace and the statement, and is lost with the
brace. -/
theorem unwrap_deletes_directive :
    ∃ f block g,
      parse "C.cs" "class C\x7bvoid M()\x7bif(a)\x7b\n#region R\nreturn; \x7d\x7d\x7d" = .ok f ∧
      f.errors = [] ∧ block ∈ f.nodes ∧ block.kind = .block ∧ f.unwrap block = .ok g ∧
      g.text = "class C\x7bvoid M()\x7bif(a)return;\x7d\x7d" ∧
      ⟨.directive, "#region R"⟩ ∈ f.trivia.diff g.trivia := by
  have hseen : (parse "C.cs"
      "class C\x7bvoid M()\x7bif(a)\x7b\n#region R\nreturn; \x7d\x7d\x7d").toOption.bind
        (fun f => f.nodes[8]?.bind fun block => (f.unwrap block).toOption.map fun g =>
          (f.errors.isEmpty, block.kind, g.text, f.trivia.diff g.trivia)) =
      some (true, .block, "class C\x7bvoid M()\x7bif(a)return;\x7d\x7d",
        [⟨.endOfLine, "\n"⟩, ⟨.directive, "#region R"⟩, ⟨.endOfLine, "\n"⟩, .space]) := by
    rw [parse_ofList]
    decide +kernel
  obtain ⟨f, hf, hseen⟩ := Option.bind_eq_some_iff.1 hseen
  obtain ⟨block, hblock, hseen⟩ := Option.bind_eq_some_iff.1 hseen
  obtain ⟨g, hg, hseen⟩ := Option.map_eq_some_iff.1 hseen
  simp only [Prod.mk.injEq, List.isEmpty_iff] at hseen
  obtain ⟨herrors, hkind, htext, hlost⟩ := hseen
  refine ⟨f, block, g, eq_ok_of_toOption hf, herrors, List.mem_of_getElem? hblock, hkind,
    eq_ok_of_toOption hg, htext, ?_⟩
  rw [hlost]
  simp

end SourceFile

end PluginLint
