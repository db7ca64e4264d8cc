import PluginLint.Proofs.Edits.Splicing

/-!
# Edited files are as whole as parsed ones

What the parser promises of the parts of a node depends on the texts of its tokens and the kinds of
its nodes. A fix puts a statement in the place of a statement and moves trivia about, so it keeps
these promises, and a batch of fixes keeps them as well. All that is known of a parsed file is then
known of a file after any number of batches.
-/
namespace PluginLint

theorem exists_append_of_forall₂ {α β : Type} {R : α → β → Prop} {as as' : List α} {bs : List β}
    (h : List.Forall₂ R (as ++ as') bs) :
    ∃ cs cs', bs = cs ++ cs' ∧ List.Forall₂ R as cs ∧ List.Forall₂ R as' cs' :=
  ⟨bs.take as.length, bs.drop as.length, (List.take_append_drop _ _).symm,
    (List.forall₂_take_append bs as as' h.flip).flip, (List.forall₂_drop_append bs as as' h.flip).flip⟩

namespace Tree

/-! ### Parts that may stand for each other -/

/-- A part that may stand for another one: a token with the same text, or a node of the same kind.
Statements may stand for each other. -/
inductive Like : Tree → Tree → Prop
  | leaf {t u : Token} (h : u.text = t.text) : Like (.leaf t) (.leaf u)
  | node {kind kind' : NodeKind} {parts parts' : List Tree}
    (h : kind' = kind ∨ (kind.isStatement = true ∧ kind'.isStatement = true)) :
    Like (.node kind parts) (.node kind' parts')

theorem Like.refl (t : Tree) : Like t t := by
  cases t with
  | node kind parts => exact .node (.inl rfl)
  | leaf token => exact .leaf rfl

theorem forall₂_like_refl (ts : List Tree) : List.Forall₂ Like ts ts :=
  List.forall₂_same.2 fun t _ => .refl t

/-- One part gives way to another one. -/
theorem forall₂_like_exchange (before after : List Tree) {t u : Tree} (h : Like t u) :
    List.Forall₂ Like (before ++ t :: after) (before ++ u :: after) :=
  List.rel_append (forall₂_like_refl before) (.cons h (forall₂_like_refl after))

theorem Like.isNode_eq {t u : Tree} (h : Like t u) : u.isNode = t.isNode := by
  cases h <;> rfl

theorem isNode_of_like {ts us : List Tree} (h : List.Forall₂ Like ts us)
    (hts : ∀ t ∈ ts, t.isNode = true) : ∀ u ∈ us, u.isNode = true := by
  induction h with
  | nil => simp
  | cons htu _ ih =>
    rw [List.forall_mem_cons] at hts ⊢
    exact ⟨htu.isNode_eq.trans hts.1, ih hts.2⟩

theorem HasKind.like_isInner {t u : Tree} (h : Like t u) (ht : t.HasKind NodeKind.IsInner) :
    u.HasKind NodeKind.IsInner := by
  cases h with
  | leaf => exact ht
  | node hkinds =>
    rcases hkinds with rfl | ⟨hkind, -⟩
    · exact ht
    · rw [HasKind, NodeKind.IsInner, hkind] at ht
      cases ht

theorem HasKind.like_isStatement {t u : Tree} (h : Like t u)
    (ht : t.HasKind NodeKind.IsStatement) : u.HasKind NodeKind.IsStatement := by
  cases h with
  | leaf => exact ht
  | node hkinds =>
    rcases hkinds with rfl | ⟨-, hkind⟩
    · exact ht
    · exact hkind

/-- What holds of a token and a list behind it. -/
theorem like_leaf_cons {t : Token} {ts us : List Tree}
    (h : List.Forall₂ Like (.leaf t :: ts) us) :
    ∃ u us', us = .leaf u :: us' ∧ u.text = t.text ∧ List.Forall₂ Like ts us' := by
  cases h with
  | cons htu hrest =>
    cases htu with
    | leaf htext => exact ⟨_, _, rfl, htext, hrest⟩

/-- What holds of a list and the token behind it. -/
theorem like_append_leaf {ts us : List Tree} {t : Token}
    (h : List.Forall₂ Like (ts ++ [.leaf t]) us) :
    ∃ vs u, us = vs ++ [.leaf u] ∧ u.text = t.text ∧ List.Forall₂ Like ts vs := by
  obtain ⟨vs, vs', rfl, hvs, hvs'⟩ := exists_append_of_forall₂ h
  obtain ⟨u, us', rfl, htext, hnil⟩ := like_leaf_cons hvs'
  cases hnil
  exact ⟨vs, u, rfl, htext, hvs⟩

end Tree

open PluginLint.Tree

/-- What the parser promises of every node is kept by parts that stand for others. -/
theorem Formed.like {kind : NodeKind} {parts parts' : List Tree} (h : Formed kind parts)
    (hlike : List.Forall₂ Like parts parts') : Formed kind parts' where
  nonempty := by
    rintro rfl
    cases hlike
    exact h.nonempty rfl
  headed hk := by
    obtain ⟨t, rest, rfl⟩ := h.headed hk
    obtain ⟨u, us, rfl, -, -⟩ := like_leaf_cons hlike
    exact ⟨u, us, rfl⟩
  braced hk := by
    obtain ⟨opening, inner, closing, rfl, hopening, hinner, hclosing⟩ := h.braced hk
    obtain ⟨u, us, rfl, hu, hrest⟩ := like_leaf_cons hlike
    obtain ⟨vs, vs', rfl, hvs, hvs'⟩ := exists_append_of_forall₂ hrest
    refine ⟨u, vs, vs', rfl, hu.trans hopening, isNode_of_like hvs hinner, ?_⟩
    rcases hclosing with rfl | ⟨brace, rfl, hbrace⟩
    · cases hvs'
      exact .inl rfl
    · obtain ⟨w, ws, rfl, hw, hnil⟩ := like_leaf_cons hvs'
      cases hnil
      exact .inr ⟨w, rfl, hw.trans hbrace⟩
  named hk := by
    obtain ⟨t, rfl⟩ := h.named hk
    obtain ⟨u, us, rfl, -, hnil⟩ := like_leaf_cons hlike
    cases hnil
    exact ⟨u, rfl⟩
  opened hk first inner hhead := by
    cases hlike with
    | nil => cases hhead
    | cons htu hrest =>
      cases hhead
      cases htu with
      | node hkinds =>
        have hattributes := h.opened hk _ _ rfl
        rcases hkinds with rfl | ⟨hkind, -⟩
        · exact hattributes
        · rw [hattributes] at hkind
          cases hkind

/-- The same for what is promised of a file without problems. -/
theorem Complete.like {kind : NodeKind} {parts parts' : List Tree} (h : Complete kind parts)
    (hlike : List.Forall₂ Like parts parts') : Complete kind parts' where
  ifBody hk := by
    obtain ⟨word, opening, condition, closing, body, rest, rfl, htext, hcondition, hbody⟩ :=
      h.ifBody hk
    obtain ⟨word', us, rfl, -, hword⟩ := like_leaf_cons hlike
    obtain ⟨opening', us, rfl, -, hopening⟩ := like_leaf_cons hword
    cases hopening with
    | cons hcond hclosing =>
      obtain ⟨closing', us, rfl, htext', hbodies⟩ := like_leaf_cons hclosing
      cases hbodies with
      | cons hb hrest =>
        exact ⟨word', opening', _, closing', _, _, rfl, htext'.trans htext,
          hcondition.like_isInner hcond, hbody.like_isStatement hb⟩
  elseBody hk := by
    obtain ⟨word, body, rfl, htext, hbody⟩ := h.elseBody hk
    obtain ⟨word', us, rfl, htext', hlike⟩ := like_leaf_cons hlike
    cases hlike with
    | cons hb hnil =>
      cases hnil
      exact ⟨word', _, rfl, htext'.trans htext, hbody.like_isStatement hb⟩
  braces hk := by
    obtain ⟨opening, inner, closing, rfl, hopening, hclosing, hinner⟩ := h.braces hk
    obtain ⟨u, us, rfl, hu, hrest⟩ := like_leaf_cons hlike
    obtain ⟨vs, w, rfl, hw, hvs⟩ := like_append_leaf hrest
    exact ⟨u, vs, w, rfl, hu.trans hopening, hw.trans hclosing, isNode_of_like hvs hinner⟩
  jump hk := by
    obtain ⟨word, inner, semicolon, rfl, hword, hsemicolon⟩ := h.jump hk
    obtain ⟨u, us, rfl, hu, hrest⟩ := like_leaf_cons hlike
    obtain ⟨vs, w, rfl, hw, -⟩ := like_append_leaf hrest
    exact ⟨u, vs, w, rfl, hu ▸ hword, hw.trans hsemicolon⟩

/-- A property of nodes that is kept by parts that stand for others. -/
def Lasting (S : NodeKind → List Tree → Prop) : Prop :=
  ∀ kind parts parts', S kind parts → List.Forall₂ Like parts parts' → S kind parts'

theorem lasting_formed : Lasting Formed := fun _ _ _ h => h.like

theorem lasting_complete : Lasting Complete := fun _ _ _ h => h.like

namespace Tree

variable {S : NodeKind → List Tree → Prop}

/-! ### Other trivia -/

theorem like_mapFirst {f : Token → Token} (hf : ∀ t, (f t).text = t.text) (t : Tree) :
    Like t (t.mapFirst f) := by
  cases t with
  | node kind parts => exact .node (.inl rfl)
  | leaf token => exact .leaf (hf token)

theorem like_mapLast {f : Token → Token} (hf : ∀ t, (f t).text = t.text) (t : Tree) :
    Like t (t.mapLast f) := by
  cases t with
  | node kind parts => exact .node (.inl rfl)
  | leaf token => exact .leaf (hf token)

/-- The changed first token of a list belongs to one of its parts. -/
theorem mapFirstOf_cases (f : Token → Token) (ts : List Tree) :
    mapFirstOf f ts = ts ∨
      ∃ before t after, ts = before ++ t :: after ∧ mapFirstOf f ts = before ++ t.mapFirst f :: after := by
  induction ts with
  | nil => exact .inl (by rw [mapFirstOf])
  | cons t ts ih =>
    rw [mapFirstOf]
    split
    · exact .inr ⟨[], t, ts, rfl, rfl⟩
    · rcases ih with ih | ⟨before, u, after, hts, hmap⟩
      · exact .inl (by rw [ih])
      · exact .inr ⟨t :: before, u, after, by rw [hts]; rfl, by rw [hmap]; rfl⟩

theorem mapLastOf_cases (f : Token → Token) (ts : List Tree) :
    mapLastOf f ts = ts ∨
      ∃ before t after, ts = before ++ t :: after ∧ mapLastOf f ts = before ++ t.mapLast f :: after := by
  induction ts with
  | nil => exact .inl (by rw [mapLastOf])
  | cons t ts ih =>
    rw [mapLastOf]
    split
    · rcases ih with ih | ⟨before, u, after, hts, hmap⟩
      · exact .inl (by rw [ih])
      · exact .inr ⟨t :: before, u, after, by rw [hts]; rfl, by rw [hmap]; rfl⟩
    · split
      · exact .inr ⟨[], t, ts, rfl, rfl⟩
      · exact .inl rfl

/-- One part of a node gives way to another one with the property. -/
theorem every_exchange (hS : Lasting S) {kind : NodeKind} {before after : List Tree} {t u : Tree}
    (h : (node kind (before ++ t :: after)).Every S) (hlike : Like t u) (hu : u.Every S) :
    (node kind (before ++ u :: after)).Every S := by
  rw [every_node, everyAll_append, everyAll_cons] at h ⊢
  exact ⟨hS _ _ _ h.1 (forall₂_like_exchange before after hlike), h.2.1, hu, h.2.2.2⟩

theorem every_mapFirst (hS : Lasting S) {f : Token → Token} (hf : ∀ t, (f t).text = t.text)
    {t : Tree} (h : t.Every S) : (t.mapFirst f).Every S := by
  induction t using Tree.induct with
  | leaf token =>
    rw [mapFirst]
    exact every_leaf
  | node kind parts ih =>
    rw [mapFirst]
    rcases mapFirstOf_cases f parts with hsame | ⟨before, t, after, rfl, hmap⟩
    · rwa [hsame]
    · rw [hmap]
      have ht : t.Every S := every_of_mem (every_node.1 h).2 (by simp)
      exact every_exchange hS h (like_mapFirst hf t) (ih t (by simp) ht)

theorem every_mapLast (hS : Lasting S) {f : Token → Token} (hf : ∀ t, (f t).text = t.text)
    {t : Tree} (h : t.Every S) : (t.mapLast f).Every S := by
  induction t using Tree.induct with
  | leaf token =>
    rw [mapLast]
    exact every_leaf
  | node kind parts ih =>
    rw [mapLast]
    rcases mapLastOf_cases f parts with hsame | ⟨before, t, after, rfl, hmap⟩
    · rwa [hsame]
    · rw [hmap]
      have ht : t.Every S := every_of_mem (every_node.1 h).2 (by simp)
      exact every_exchange hS h (like_mapLast hf t) (ih t (by simp) ht)

theorem every_withOuterTrivia (hS : Lasting S) (front back : List Trivia) {t : Tree}
    (h : t.Every S) : (t.withOuterTrivia front back).Every S := by
  unfold withOuterTrivia
  refine every_mapLast hS ?_ (every_mapFirst hS ?_ h)
  · exact fun _ => rfl
  · exact fun _ => rfl

/-! ### Another node in place -/

/-- A node gives way to another one that may stand for it, and the tree keeps the property. -/
theorem Holds.every_replaceAt (hS : Lasting S) {t t' m new : Tree} {path : List Nat}
    {pre post : List Token} (h : Holds t path m pre post) (ht : t.Every S) (hnew : new.Every S)
    (hlike : Like m new) (ht' : Tree.replaceAt new path t = some t') :
    t'.Every S ∧ Like t t' := by
  induction h generalizing t' with
  | here =>
    rw [Tree.replaceAt] at ht'
    cases ht'
    exact ⟨hnew, hlike⟩
  | @inside kind before after u m path pre post h ih =>
    rw [Tree.replaceAt, changeAt_append] at ht'
    simp only [Option.map_map, Option.map_eq_some_iff, Function.comp_apply] at ht'
    obtain ⟨u', hu', rfl⟩ := ht'
    obtain ⟨hevery, hu⟩ := ih (every_of_mem (every_node.1 ht).2 (by simp)) hlike hu'
    exact ⟨every_exchange hS ht hu hevery, .node (.inl rfl)⟩

end Tree

/-- Other trivia leaves the kinds and texts of tokens alone. -/
theorem Token.exists_of_mem_surround {front back : List Trivia} {ts : List Token} {t : Token}
    (h : t ∈ surround front back ts) : ∃ u ∈ ts, t.kind = u.kind ∧ t.text = u.text := by
  by_cases hne : ts = []
  · subst hne
    cases h
  obtain ⟨u, rfl⟩ | ⟨first, mid, last, rfl⟩ := eq_singleton_or_ends hne
  · rw [surround_singleton, List.mem_singleton] at h
    exact ⟨u, by simp, by rw [h], by rw [h]⟩
  · rw [surround_cons_append, List.mem_cons, List.mem_append, List.mem_singleton] at h
    rcases h with rfl | h | rfl
    · exact ⟨first, by simp, rfl, rfl⟩
    · exact ⟨t, by simp [h], rfl, rfl⟩
    · exact ⟨last, by simp, rfl, rfl⟩

namespace Node

/-! ### What a fix puts in place -/

theorem isStatement_of_accepts {fix : Fix} {n : Node} (h : fix.accepts n = true) :
    n.kind.isStatement = true := by
  cases fix with
  | addBraces =>
    simp only [Fix.accepts, Bool.and_eq_true] at h
    exact h.1
  | removeBraces =>
    simp only [Fix.accepts, beq_iff_eq] at h
    rw [h]
    rfl

/-- What a fix puts in place is a statement. -/
theorem like_replacement {fix : Fix} {n : Node} {new : Tree} (hfix : fix.accepts n = true)
    (h : SourceFile.replacement fix n = .ok new) : Like n.tree new := by
  have hn := isStatement_of_accepts hfix
  cases fix with
  | addBraces =>
    cases h
    exact .node (.inr ⟨hn, rfl⟩)
  | removeBraces =>
    obtain ⟨s, hs, -, rfl⟩ := unwrapped_cases h
    exact .node (.inr ⟨hn, (childNodes_of_singleStatement? hs).2.2⟩)

/-- What a fix puts in place has every lasting property of the node that braces around a statement
have. -/
theorem every_replacement {S : NodeKind → List Tree → Prop} (hS : Lasting S)
    (hblock : ∀ opening closing s, opening.text = "\x7b" → closing.text = "\x7d" → s.isNode = true →
      S .block [.leaf opening, s, .leaf closing])
    {fix : Fix} {n : Node} {new : Tree} (hn : n.tree.Every S)
    (h : SourceFile.replacement fix n = .ok new) : new.Every S := by
  cases fix with
  | addBraces =>
    cases h
    have hinner : n.tree.withoutOuterTrivia.Every S := every_withOuterTrivia hS [] [] hn
    rw [wrapped, every_node]
    exact ⟨hblock _ _ _ rfl rfl rfl, by simp [hinner]⟩
  | removeBraces =>
    obtain ⟨s, hs, -, rfl⟩ := unwrapped_cases h
    obtain ⟨-, hc, -⟩ := childNodes_of_singleStatement? hs
    have hmem : s.tree ∈ n.parts := tree_of_mem_childNodes (by simp [hc])
    exact every_withOuterTrivia hS _ _ (every_of_mem (every_node.1 hn).2 hmem)

theorem formed_braces {opening closing : Token} {s : Tree} (hopening : opening.text = "\x7b")
    (hclosing : closing.text = "\x7d") (hs : s.isNode = true) :
    Formed .block [.leaf opening, s, .leaf closing] where
  nonempty := List.cons_ne_nil _ _
  headed _ := ⟨opening, _, rfl⟩
  braced _ := ⟨opening, [s], [.leaf closing], rfl, hopening, by simpa using hs,
    .inr ⟨closing, rfl, hclosing⟩⟩
  named h := by cases h
  opened h := by cases h

theorem complete_braces {opening closing : Token} {s : Tree} (hopening : opening.text = "\x7b")
    (hclosing : closing.text = "\x7d") (hs : s.isNode = true) :
    Complete .block [.leaf opening, s, .leaf closing] where
  ifBody h := by cases h
  elseBody h := by cases h
  braces _ := ⟨opening, [s], closing, rfl, hopening, hclosing, by simpa using hs⟩
  jump h := by cases h

/-- A fix adds no token but braces. -/
theorem exists_of_mem_replacement {fix : Fix} {n : Node} {new : Tree} {t : Token}
    (h : SourceFile.replacement fix n = .ok new) (ht : t ∈ new.tokens) :
    (t.kind = .punct ∧ (t.text = "\x7b" ∨ t.text = "\x7d")) ∨
      ∃ u ∈ n.tree.tokens, t.kind = u.kind ∧ t.text = u.text := by
  cases fix with
  | addBraces =>
    cases h
    rw [tokens_wrapped, List.mem_cons, List.mem_append, List.mem_singleton] at ht
    rcases ht with rfl | ht | rfl
    · exact .inl ⟨rfl, .inl rfl⟩
    · exact .inr (Token.exists_of_mem_surround ht)
    · exact .inl ⟨rfl, .inr rfl⟩
  | removeBraces =>
    obtain ⟨s, hs, -, rfl⟩ := unwrapped_cases h
    obtain ⟨-, hc, -⟩ := childNodes_of_singleStatement? hs
    rw [tokens_withOuterTrivia] at ht
    obtain ⟨u, hu, hkind, htext⟩ := Token.exists_of_mem_surround ht
    obtain ⟨before, after, hparts⟩ :=
      List.append_of_mem (tree_of_mem_childNodes (n := n) (c := s) (by simp [hc]))
    refine .inr ⟨u, ?_, hkind, htext⟩
    rw [tree, hparts]
    simp [hu]

end Node

namespace SourceFile

open Grammar (Retagged)

/-- A file with the shape of a parsed one. -/
def Whole (f : SourceFile) : Prop := ∃ tokens, Parsed tokens f

theorem whole_of_parse {path source : String} {f : SourceFile} (h : parse path source = .ok f) :
    f.Whole := by
  obtain ⟨tokens, -, -, hparsed⟩ := exists_parsed h
  exact ⟨tokens, hparsed⟩

/-- A node that stands below the root stands in one of the parts in front of the end. -/
theorem Parsed.cases_stands {tokens : List Token} {f : SourceFile} (hf : Parsed tokens f) {n : Node}
    {pre post : List Token} (h : f.Stands n pre post) (hk : n.kind ≠ .compilationUnit) :
    ∃ before t after leading path inPre inPost,
      f.parts = before ++ t :: (after ++ [.leaf (.endOfFile leading)]) ∧
      (∀ u ∈ Tree.tokensAll (before ++ t :: after), u.isEnd = false ∧ u.text ≠ "") ∧
      n.path = before.length :: path ∧ Tree.Holds t path n.tree inPre inPost := by
  obtain ⟨items, leading, hparts, htexts⟩ := hf.last
  have hholds := h.holds
  have hroot : f.root.tree = .node .compilationUnit (items ++ [.leaf (.endOfFile leading)]) := by
    rw [← hf.kind, ← hparts]
    rfl
  rw [hroot] at hholds
  generalize hm : n.tree = m at hholds ⊢
  generalize hp : n.path = path at hholds ⊢
  generalize ht : Tree.node .compilationUnit (items ++ [.leaf (.endOfFile leading)]) = t at hholds
  cases hholds with
  | here =>
    rw [Node.tree, ← ht, Tree.node.injEq] at hm
    exact absurd hm.1 hk
  | @inside kind before after u m path inPre inPost hin =>
    rw [Tree.node.injEq] at ht
    -- The node is not in the end of the file, which is a token.
    obtain ⟨rest, hafter⟩ : ∃ rest, after = rest ++ [.leaf (.endOfFile leading)] := by
      rcases List.eq_nil_or_concat' after with rfl | ⟨rest, last, rfl⟩
      · have hlast := (List.append_inj' ht.2 rfl).2
        obtain ⟨_, _, hu⟩ := hin.exists_outer
        rw [hu] at hlast
        cases hlast
      · have hsplit : items ++ [.leaf (.endOfFile leading)] = (before ++ u :: rest) ++ [last] := by
          rw [ht.2]
          simp
        have hlast := (List.append_inj' hsplit rfl).2
        rw [List.cons.injEq] at hlast
        exact ⟨rest, by rw [hlast.1]⟩
    have hitems : items = before ++ u :: rest := by
      have hsplit : items ++ [.leaf (.endOfFile leading)] =
          (before ++ u :: rest) ++ [.leaf (.endOfFile leading)] := by
        rw [ht.2, hafter]
        simp
      exact (List.append_inj' hsplit rfl).1
    refine ⟨before, u, rest, leading, path, inPre, inPost, ?_, hitems ▸ htexts, rfl, hin⟩
    rw [hparts, hitems]
    simp

/-- A fix at a node keeps a file whole. -/
theorem Parsed.replace {tokens : List Token} {f g : SourceFile} (hf : Parsed tokens f) {fix : Fix}
    {n : Node} {pre post : List Token} (hn : f.Stands n pre post) (hfix : fix.accepts n = true)
    {new : Tree} (hnew : replacement fix n = .ok new) (hg : f.replace n new = .ok g) :
    g.Whole ∧ g.path = f.path ∧ g.errors = f.errors := by
  obtain ⟨before, t, after, leading, path, inPre, inPost, hparts, htexts, hpath, hin⟩ :=
    hf.cases_stands hn (Fix.kind_ne_of_accepts hfix)
  have hlike := Node.like_replacement hfix hnew
  have hnode := (Node.exchange_replacement
    (hf.solid hn (Fix.kind_ne_of_accepts hfix)) hnew).node
  obtain ⟨kind, parts, rfl⟩ := hnode
  obtain ⟨t', ht', hholds'⟩ := hin.exists_replaceAt kind parts
  -- The part that holds the node is all that changes.
  have hgparts : g = { f with parts := before ++ t' :: (after ++ [.leaf (.endOfFile leading)]) } := by
    have hreplaced : Tree.replaceAt (.node kind parts) n.path f.root.tree =
        some (.node f.kind (before ++ t' :: (after ++ [.leaf (.endOfFile leading)]))) := by
      rw [hpath, root, Node.tree_mk, hparts, Tree.replaceAt, Tree.changeAt_append, ht']
      rfl
    simp only [SourceFile.replace, SourceFile.replaceAt, hreplaced, Except.ok.injEq] at hg
    exact hg.symm
  have htokens := hin.tokens_eq
  have htokens' := hholds'.tokens_eq
  have hevery : ∀ {S : NodeKind → List Tree → Prop}, Lasting S →
      (∀ opening closing s, opening.text = "\x7b" → closing.text = "\x7d" → s.isNode = true →
        S .block [.leaf opening, s, .leaf closing]) →
      Tree.EveryAll S f.parts → Tree.EveryAll S g.parts := by
    intro S hS hblock hall
    rw [hgparts]
    rw [hparts, Tree.everyAll_append, Tree.everyAll_cons] at hall
    have hold := hall.2.1
    have hinner := Node.every_replacement hS hblock (hin.every hold) hnew
    have hthis := (hin.every_replaceAt hS hold hinner hlike ht').1
    rw [Tree.everyAll_append, Tree.everyAll_cons]
    exact ⟨hall.1, hthis, hall.2.2⟩
  refine ⟨⟨Tree.tokensAll g.parts, ?_, ?_, ?_, ?_, ?_⟩, by rw [hgparts], by rw [hgparts]⟩
  · rw [hgparts]
    exact hf.kind
  · exact List.forall₂_same.2 fun _ _ => .inl rfl
  · refine ⟨before ++ t' :: after, leading, by rw [hgparts]; simp, fun u hu => ?_⟩
    have hold : ∀ w ∈ n.tree.tokens, w.isEnd = false ∧ w.text ≠ "" := fun w hw =>
      htexts w (by simp [htokens, hw])
    rw [Tree.tokensAll_append, Tree.tokensAll_cons, htokens'] at hu
    simp only [List.mem_append] at hu
    rcases hu with hu | (hu | hu | hu) | hu
    · exact htexts u (by simp [hu])
    · exact htexts u (by simp [htokens, hu])
    · rcases Node.exists_of_mem_replacement hnew hu with ⟨hkind, htext⟩ | ⟨w, hw, hkind, htext⟩
      · refine ⟨by simp [Token.isEnd, hkind], ?_⟩
        rcases htext with htext | htext <;> rw [htext] <;> decide
      · have := hold w hw
        rw [Token.isEnd] at this ⊢
        rwa [hkind, htext]
    · exact htexts u (by simp [htokens, hu])
    · exact htexts u (by simp [hu])
  · exact hevery lasting_formed (fun _ _ _ => Node.formed_braces) hf.formed
  · intro he
    have he' : f.errors = [] := by
      rw [hgparts] at he
      exact he
    exact hevery lasting_complete (fun _ _ _ => Node.complete_braces) (hf.complete he')

end SourceFile

namespace Batch

open SourceFile

/-- Making the edits of a batch keeps the file whole. -/
theorem Midway.whole {tokens : List Token} {f : SourceFile} (hf : Parsed tokens f)
    {rest : List (Edit × Tree)} {o : BatchOutcome} {kept : List Char} (h : Midway f rest o kept)
    (ho : o.file.Whole) :
    (Batch.make rest o).file.Whole ∧ (Batch.make rest o).file.path = o.file.path ∧
      (Batch.make rest o).file.errors = o.file.errors := by
  induction rest generalizing o kept with
  | nil => exact ⟨ho, rfl, rfl⟩
  | cons p rest ih =>
    obtain ⟨edit, new⟩ := p
    obtain ⟨n, g, before, hn, hg, hnext⟩ := h.step hf
    obtain ⟨m, -, hm, hnew, -⟩ := h.ready _ List.mem_cons_self
    obtain rfl : n = m := Except.ok.inj (hn.symm.trans hm)
    obtain ⟨-, haccepts, pre, post, hstands⟩ := stands_of_locate hn
    obtain ⟨otokens, hparsed⟩ := ho
    obtain ⟨hwhole, hpath, herrors⟩ := hparsed.replace hstands haccepts hnew hg
    obtain ⟨hmade, hmadePath, hmadeErrors⟩ := ih hnext hwhole
    rw [make_cons hn hg]
    exact ⟨hmade, hmadePath.trans hpath, hmadeErrors.trans herrors⟩

end Batch

namespace SourceFile

/-- A batch of edits is always made, and leaves a whole file. -/
theorem Whole.applyBatch {f : SourceFile} (hf : f.Whole) (edits : List Edit) :
    ∃ o, f.applyBatch edits false = .ok o ∧ o.file.Whole ∧ o.file.path = f.path ∧
      o.file.errors = f.errors := by
  obtain ⟨tokens, hparsed⟩ := hf
  exact ⟨_, rfl, (Batch.midway_select hparsed edits _).whole hparsed ⟨tokens, hparsed⟩⟩

end SourceFile

end PluginLint
