import PluginLint.Proofs.Edits.Splicing
import PluginLint.Proofs.Trees.Measured
import PluginLint.Proofs.Trees.Positions
import PluginLint.Proofs.Trees.Updates

/-!
# What a replacement leaves as it was

The text of a file changes at the span of the replaced node only. What stands neither at, below nor
around the node stands where it was, at the same path; a node around it keeps its kind, its start and
all other parts, and is wider by as much as the new node is.
-/
namespace PluginLint

namespace Tree

/-- What stands at a path: a node, or a token at the end of it. -/
def at? : List Nat → Tree → Option Tree
  | [], t => some t
  | i :: path, .node _ parts => parts[i]?.bind (at? path)
  | _ :: _, .leaf _ => none

@[simp] theorem at?_nil (t : Tree) : at? [] t = some t := by rw [at?]

@[simp] theorem at?_cons (i : Nat) (path : List Nat) (kind : NodeKind) (parts : List Tree) :
    at? (i :: path) (.node kind parts) = parts[i]?.bind (at? path) := by rw [at?]

variable {t t' m new : Tree} {path : List Nat} {pre post : List Token}

theorem Holds.at?_eq (h : Holds t path m pre post) : at? path t = some m := by
  induction h with
  | here => exact at?_nil _
  | inside h ih => simp [ih]

/-- What stands at none of the paths to the replaced node and from it stays as it was. -/
theorem Holds.at?_replaceAt (h : Holds t path m pre post)
    (ht' : Tree.replaceAt new path t = some t') {q : List Nat} (hbelow : ¬path <+: q)
    (habove : ¬q <+: path) : at? q t' = at? q t := by
  induction h generalizing t' q with
  | here => exact absurd List.nil_prefix hbelow
  | @inside kind before after u m path pre post h ih =>
    rw [Tree.replaceAt, changeAt_append, Option.map_map, Option.map_eq_some_iff] at ht'
    obtain ⟨u', hu', rfl⟩ := ht'
    cases q with
    | nil => exact absurd List.nil_prefix habove
    | cons j q =>
      simp only [Function.comp_apply, at?_cons]
      by_cases hj : j = before.length
      · subst hj
        have hinner : at? q u' = at? q u := by
          apply ih hu'
          · exact fun hq => hbelow (List.cons_prefix_cons.2 ⟨rfl, hq⟩)
          · exact fun hq => habove (List.cons_prefix_cons.2 ⟨rfl, hq⟩)
        simp [hinner]
      · congr 1
        rw [List.getElem?_append, List.getElem?_append]
        split
        · rfl
        · obtain ⟨k, hk⟩ : ∃ k, j - before.length = k + 1 :=
            ⟨j - before.length - 1, by omega⟩
          rw [hk, List.getElem?_cons_succ, List.getElem?_cons_succ]

/-- A node around the replaced one has another one in its place, at the same path. -/
theorem Holds.replaceAt_above {q : List Nat} (h : Holds t path m pre post) {kind : NodeKind}
    {parts : List Tree} (ht' : Tree.replaceAt (.node kind parts) (path ++ q) t = some t') :
    ∃ m', Tree.replaceAt (.node kind parts) q m = some m' ∧ Holds t' path m' pre post := by
  induction h generalizing t' with
  | here =>
    rw [List.nil_append] at ht'
    cases q with
    | nil =>
      rw [Tree.replaceAt] at ht'
      cases ht'
      exact ⟨_, by rw [Tree.replaceAt], .here⟩
    | cons i q =>
      have hnode := ht'
      rw [Tree.replaceAt, Option.map_eq_some_iff] at hnode
      obtain ⟨inner, -, rfl⟩ := hnode
      exact ⟨_, ht', .here⟩
  | @inside outer before after u m path pre post h ih =>
    rw [List.cons_append, Tree.replaceAt, changeAt_append, Option.map_map,
      Option.map_eq_some_iff] at ht'
    obtain ⟨u', hu', rfl⟩ := ht'
    obtain ⟨m', hm', hholds⟩ := ih hu'
    exact ⟨m', hm', hholds.inside⟩

/-- A node keeps its kind and the number of its parts if one further down is replaced. -/
theorem length_parts_of_replaceAt {kind : NodeKind} {parts : List Tree} {i : Nat} {q : List Nat}
    (h : Tree.replaceAt new (i :: q) (.node kind parts) = some t') :
    ∃ parts', t' = .node kind parts' ∧ parts'.length = parts.length := by
  rw [Tree.replaceAt, Option.map_eq_some_iff] at h
  obtain ⟨parts', hparts, rfl⟩ := h
  refine ⟨parts', rfl, ?_⟩
  generalize Tree.replaceAt new q = change at hparts
  induction parts generalizing i parts' with
  | nil => cases i <;> simp [changeAt] at hparts
  | cons u us ih =>
    cases i with
    | zero =>
      rw [changeAt, Option.map_eq_some_iff] at hparts
      obtain ⟨u', -, rfl⟩ := hparts
      rfl
    | succ i =>
      rw [changeAt, Option.map_eq_some_iff] at hparts
      obtain ⟨us', hus, rfl⟩ := hparts
      rw [List.length_cons, List.length_cons, ih us' hus]

end Tree

namespace SourceFile

variable {f g : SourceFile} {n : Node} {pre post : List Token}

/-- A replacement touches neither the path nor the problems of a file. -/
theorem of_replace {new : Tree} (h : f.replace n new = .ok g) :
    g.path = f.path ∧ g.errors = f.errors := by
  unfold replace at h
  split at h
  · split at h
    · rename_i g' hg
      cases h
      unfold replaceAt at hg
      split at hg
      · cases hg
        exact ⟨rfl, rfl⟩
      · cases hg
    · cases h
  · cases h

/-- The text around a node stays when the node is replaced. -/
theorem Stands.splice_replace (hn : f.Stands n pre post) {kind : NodeKind} {parts : List Tree}
    (hg : Tree.Holds g.root.tree n.path (.node kind parts) pre post) :
    Text.splice? f.text [(n.fullSpan, Tree.renderAll parts)] = some g.text := by
  have hf : f.text.toList = (Token.renderAll pre).toList ++
      (n.fullText.toList ++ (Token.renderAll post).toList) := by
    rw [hn.text_around]
    simp
  have hg' : g.Stands ⟨kind, parts, n.start, n.path⟩ pre post := ⟨hg, hn.start⟩
  have hfull : (Node.mk kind parts n.start n.path).fullText = Tree.renderAll parts := by
    rw [Node.fullText, Tree.render, Node.tree_mk, Tree.tokens_node]
    rfl
  have hspan : n.fullSpan = .ofLength (0 + Text.byteLength (Token.renderAll pre).toList)
      (Text.byteLength n.fullText.toList) := by
    rw [Text.byteLength_toList, Text.byteLength_toList, Token.utf8ByteSize_renderAll, Nat.zero_add,
      Node.fullText, Tree.render, Token.utf8ByteSize_renderAll, ← Tree.width_eq, ← hn.start]
    rfl
  have hsplice := Text.spliceFrom?_append 0 (Token.renderAll pre).toList
    (Text.spliceFrom?_cons n.fullText.toList (Tree.renderAll parts)
      (show Text.spliceFrom? _ (Token.renderAll post).toList [] = some _ from rfl))
  rw [Text.splice?, hf, hspan, hsplice, hg'.text_around, hfull]
  simp [String.append_assoc]

/-- A node around the replaced one keeps its kind, its start and the number of its parts, and is wider
by as much as the new node is. -/
theorem Stands.around_replaced {m : Node} {new : Tree} {i : Nat} {q : List Nat}
    {mpre mpost : List Token} (hm : f.Stands m mpre mpost) (hn : f.Stands n pre post)
    (hpath : n.path = m.path ++ i :: q) (hnew : ∃ kind parts, new = .node kind parts)
    (hg : Tree.replaceAt new n.path f.root.tree = some g.root.tree) :
    ∃ m' ∈ g.nodes, m'.path = m.path ∧ m'.start = m.start ∧ m'.kind = m.kind ∧
      m'.parts.length = m.parts.length ∧ m'.width + n.width = m.width + new.width := by
  obtain ⟨kind, parts, rfl⟩ := hnew
  rw [hpath] at hg
  obtain ⟨t', ht', hholds⟩ := hm.holds.replaceAt_above hg
  obtain ⟨parts', rfl, hlength⟩ := Tree.length_parts_of_replaceAt ht'
  have hm' : g.Stands ⟨m.kind, parts', m.start, m.path⟩ mpre mpost := ⟨hholds, hm.start⟩
  -- Both widths are that of the node below with what stands around it.
  obtain ⟨inPre, inPost, hin, -, -⟩ := hm.holds.exists_of_append (hpath ▸ hn.holds)
  have hold := congrArg Token.widthAll hin.tokens_eq
  have hnew := congrArg Token.widthAll (hin.replaceAt ht').tokens_eq
  simp only [Token.widthAll_append, ← Tree.width_eq] at hold hnew
  refine ⟨_, hm'.mem_nodes, rfl, rfl, rfl, hlength, ?_⟩
  simp only [Node.width, Node.tree, Tree.width_node] at hold hnew ⊢
  omega

/-- No other node stands at the path of a node. -/
theorem find?_nodes_path (hn : n ∈ f.nodes) :
    f.nodes.find? (fun m => m.start == n.start && m.path == n.path) = some n := by
  cases hfind : f.nodes.find? (fun m => m.start == n.start && m.path == n.path) with
  | none =>
    have hself := List.find?_eq_none.1 hfind n hn
    simp at hself
  | some m =>
    have hm := List.find?_some hfind
    rw [Bool.and_eq_true, beq_iff_eq, beq_iff_eq] at hm
    obtain ⟨_, _, hmstands⟩ := stands_of_mem_nodes (List.mem_of_find?_eq_some hfind)
    obtain ⟨_, _, hnstands⟩ := stands_of_mem_nodes hn
    rw [hmstands.unique hnstands hm.2]

/-- The tree of a file, with its widths remembered, after the node that starts where `n` does and is the
very one has been looked for and replaced. The very node stands at the paths of `here`. -/
def exchange? (f : SourceFile) (here : List Nat → Bool) (n : Node) (new : Tree) : Option Measured :=
  Measured.exchange? here n.fullSpan (.ofTree new) [] 0 (.ofTree f.root.tree)

/-- The search replaces the first node that starts where `n` does and is the very one. That need not
stand where `n` does, if a tree is shared; but it is the same tree at the same bytes. -/
theorem exchange?_of_first {m : Node} {here : List Nat → Bool}
    (hfirst : f.nodes.find? (fun m => m.start == n.start && here m.path) = some m)
    (htree : m.tree = n.tree) (kind : NodeKind) (parts : List Tree) :
    ∃ g, f.replace m (.node kind parts) = .ok g ∧
      Text.splice? f.text [(n.fullSpan, Tree.renderAll parts)] = some g.text ∧
      f.exchange? here n (.node kind parts) = some (.ofTree g.root.tree) := by
  have hstart : m.start = n.start := by
    have hpicked := List.find?_some hfirst
    exact beq_iff_eq.1 (Bool.and_eq_true_iff.1 hpicked).1
  have hspan : m.fullSpan = n.fullSpan := by
    rw [Node.tree, Node.tree, Tree.node.injEq] at htree
    rw [Node.fullSpan, Node.fullSpan, Node.width, Node.width, hstart, htree.2]
  obtain ⟨pre, post, hstands⟩ := stands_of_mem_nodes (List.mem_of_find?_eq_some hfirst)
  obtain ⟨g, hg, hreplaced, hholds⟩ := hstands.exists_replace ⟨kind, parts, rfl⟩
  obtain ⟨q, t', hpath, ht', hfound⟩ : ∃ q t', m.path = [] ++ q ∧
      Tree.replaceAt (.node kind parts) q f.root.tree = some t' ∧
      f.exchange? here n (.node kind parts) = some (.ofTree t') :=
    Measured.exchange?_of_first hspan hfirst
  obtain rfl : m.path = q := hpath
  rw [hreplaced, Option.some.injEq] at ht'
  refine ⟨g, hg, hspan ▸ hstands.splice_replace hholds, ?_⟩
  rw [ht']
  exact hfound

/-- A node of a file can be replaced. The text is that of the file with the bytes of the node, trivia
included, replaced by the text of the new one; path and problems stay. The new text reads at the span
of each node what the node says. The new node stands at the path of the old one; what does not stand
at, below or around the old one stays as it was, at its path, and the nodes around it are wider by the
difference. The search for the node, which its path tells from all others, finds the same place, and
then all widths are remembered right. Where a tree is shared and another place with the node's start
comes first, the search replaces the node there, which is the same tree, and the text is the same. -/
theorem replace_splices (hn : n ∈ f.nodes) (kind : NodeKind) (parts : List Tree) :
    ∃ g, f.replace n (.node kind parts) = .ok g ∧
      Text.splice? f.text [(n.fullSpan, Tree.renderAll parts)] = some g.text ∧
      (g.path = f.path ∧ g.errors = f.errors) ∧
      (∀ m ∈ g.nodes,
        Text.slice? g.text m.fullSpan.start m.fullSpan.stop = some m.fullText) ∧
      Tree.at? n.path g.root.tree = some (.node kind parts) ∧
      (∀ path, ¬n.path <+: path → ¬path <+: n.path →
        Tree.at? path g.root.tree = Tree.at? path f.root.tree) ∧
      (∀ m ∈ f.nodes, m.path <+: n.path → m.path ≠ n.path →
        ∃ m' ∈ g.nodes, m'.path = m.path ∧ m'.start = m.start ∧ m'.kind = m.kind ∧
          m'.parts.length = m.parts.length ∧ m'.width + n.width = m.width + Tree.widthAll parts) ∧
      f.nodes.find? (fun m => m.start == n.start && m.path == n.path) = some n ∧
      (∀ here : List Nat → Bool,
        f.nodes.find? (fun m => m.start == n.start && here m.path) = some n →
        f.exchange? here n (.node kind parts) = some (.ofTree g.root.tree)) ∧
      ∀ (here : List Nat → Bool) (m : Node),
        f.nodes.find? (fun m => m.start == n.start && here m.path) = some m → m.tree = n.tree →
        ∃ g', f.replace m (.node kind parts) = .ok g' ∧ g'.text = g.text ∧
          f.exchange? here n (.node kind parts) = some (.ofTree g'.root.tree) := by
  obtain ⟨pre, post, hstands⟩ := stands_of_mem_nodes hn
  obtain ⟨g, hg, hreplaced, hholds⟩ := hstands.exists_replace ⟨kind, parts, rfl⟩
  have hsplice := hstands.splice_replace hholds
  refine ⟨g, hg, hsplice, of_replace hg, ?_, hholds.at?_eq, ?_, ?_, find?_nodes_path hn, ?_, ?_⟩
  · intro m hm
    obtain ⟨mpre, mpost, hm⟩ := stands_of_mem_nodes hm
    exact hm.slice_fullSpan
  · intro path hbelow habove
    exact hstands.holds.at?_replaceAt hreplaced hbelow habove
  · intro m hm habove hne
    obtain ⟨mpre, mpost, hm⟩ := stands_of_mem_nodes hm
    obtain ⟨q, hq⟩ := habove
    cases q with
    | nil => exact absurd (by simpa using hq) hne
    | cons i q =>
      have haround := hm.around_replaced hstands hq.symm ⟨kind, parts, rfl⟩ hreplaced
      simpa using haround
  · intro here hfirst
    obtain ⟨g', hg', -, hfound⟩ := exchange?_of_first hfirst rfl kind parts
    obtain rfl : g = g' := Except.ok.inj (hg.symm.trans hg')
    exact hfound
  · intro here m hfirst htree
    obtain ⟨g', hg', hsplice', hfound⟩ := exchange?_of_first hfirst htree kind parts
    exact ⟨g', hg', Option.some.inj (hsplice'.symm.trans hsplice), hfound⟩

/-- A name is replaced by a wider one, with an empty node in front of it that starts at the same byte,
inside a call of the same span. -/
theorem replace_splices_name :
    let name : Node := ⟨.identifierName, [.leaf ⟨.identifier, "é", [], []⟩], 1, [0, 2]⟩
    let new : List Tree := [.leaf ⟨.identifier, "ab", [], [.space]⟩, .leaf ⟨.punct, "<", [], []⟩]
    let call : Tree := .node .invocationExpression [.leaf ⟨.punct, "(", [], []⟩,
      .node .argumentList [], name.tree]
    let f : SourceFile := ⟨"t.cs", .compilationUnit, [call, .leaf (.endOfFile [])], [⟨1, "expected"⟩]⟩
    (name ∈ f.nodes ∧ f.text = "(é") ∧
    ∃ g, f.replace name (.node .genericName new) = .ok g ∧ g.text = "(ab <" ∧ g.errors = f.errors ∧
      Tree.at? [0, 1] g.root.tree = some (.node .argumentList []) ∧
      f.exchange? (· == [0, 2]) name (.node .genericName new) = some (.ofTree g.root.tree) := by
  intro name new call f
  have hmem : name ∈ f.nodes :=
    List.mem_of_getElem? (show f.nodes[3]? = some name from rfl)
  obtain ⟨g, hg, htext, hsame, -, -, hframe, -, hfirst, hexchange, -⟩ :=
    replace_splices hmem .genericName new
  have hsplice : Text.splice? f.text [(name.fullSpan, Tree.renderAll new)] = some "(ab <" := by
    decide +kernel
  refine ⟨⟨hmem, by decide +kernel⟩, g, hg, ?_, hsame.2, ?_, hexchange _ hfirst⟩
  · rw [hsplice] at htext
    exact (Option.some.inj htext).symm
  · rw [hframe [0, 1] (by decide) (by decide)]
    rfl

end SourceFile

end PluginLint
