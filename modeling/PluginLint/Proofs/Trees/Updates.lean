import PluginLint.Proofs.Trees.Outlines
import PluginLint.Proofs.Trees.Layout

/-!
# Many replacements in one tree

Nodes at several paths, none of which leads on from another, can be replaced one after the other. The
result does not depend on the order: it is the tree with another node wherever a path leads. At a path
stands one node only, and a path that leads on leads to a node below.
-/
namespace PluginLint

namespace Tree

/- Replacing at many paths. -/
mutual

/-- The tree with the nodes at some paths replaced. Below a node that is replaced nothing counts. -/
def update (at? : List Nat → Option Tree) : Tree → Tree
  | .node kind parts => (at? []).getD (.node kind (updateAll at? 0 parts))
  | .leaf t => .leaf t

/-- The same for parts, of which the first is the `i`-th. -/
def updateAll (at? : List Nat → Option Tree) (i : Nat) : List Tree → List Tree
  | [] => []
  | t :: ts => update (fun q => at? (i :: q)) t :: updateAll at? (i + 1) ts

end

variable {at? : List Nat → Option Tree}

@[simp] theorem update_leaf (t : Token) : update at? (leaf t) = leaf t := by rw [update]

theorem update_node (kind : NodeKind) (parts : List Tree) (h : at? [] = none) :
    update at? (node kind parts) = node kind (updateAll at? 0 parts) := by
  rw [update, h, Option.getD_none]

theorem update_of_some {kind : NodeKind} {parts : List Tree} {new : Tree} (h : at? [] = some new) :
    update at? (node kind parts) = new := by
  rw [update, h, Option.getD_some]

@[simp] theorem updateAll_nil (i : Nat) : updateAll at? i [] = [] := by rw [updateAll]

@[simp] theorem updateAll_cons (i : Nat) (t : Tree) (ts : List Tree) :
    updateAll at? i (t :: ts) =
      update (fun q => at? (i :: q)) t :: updateAll at? (i + 1) ts := by rw [updateAll]

theorem updateAll_append (i : Nat) (ts us : List Tree) :
    updateAll at? i (ts ++ us) = updateAll at? i ts ++ updateAll at? (i + ts.length) us := by
  induction ts generalizing i with
  | nil => simp
  | cons t ts ih => simp [ih, Nat.add_assoc, Nat.add_comm 1]

theorem length_updateAll (i : Nat) (ts : List Tree) : (updateAll at? i ts).length = ts.length := by
  induction ts generalizing i with
  | nil => simp
  | cons t ts ih => simp [ih]

/-- Where nothing is replaced nothing changes. -/
theorem update_none (t : Tree) : update (fun _ => none) t = t := by
  induction t using Tree.induct with
  | leaf token => simp
  | node kind parts ih =>
    have hall : ∀ i, updateAll (fun _ => none) i parts = parts := by
      refine along parts (by simp) fun u us hu hrest i => ?_
      rw [updateAll_cons, ih u hu, hrest]
    rw [update_node kind parts rfl, hall]

/-- Parts are changed alike by what leads to the same at each of them. -/
theorem updateAll_congr {at?' : List Nat → Option Tree} {i : Nat} {ts : List Tree}
    (h : ∀ j q, i ≤ j → j < i + ts.length → at?' (j :: q) = at? (j :: q)) :
    updateAll at?' i ts = updateAll at? i ts := by
  induction ts generalizing i with
  | nil => simp
  | cons t ts ih =>
    have hfirst : (fun q => at?' (i :: q)) = fun q => at? (i :: q) :=
      funext fun q => h i q (Nat.le_refl _) (by simp)
    rw [updateAll_cons, updateAll_cons, hfirst, ih fun j q hj hlt => h j q (by omega) (by
      rw [List.length_cons]
      omega)]

/-- One more node is replaced, at a path that does not lead on from another one. -/
theorem Holds.replaceAt_update {t m : Tree} {path : List Nat} {pre post : List Token}
    (h : Holds t path m pre post) (hfree : ∀ r, r <+: path → at? r = none) (new : Tree) :
    Tree.replaceAt new path (update at? t) =
      some (update (fun q => if q = path then some new else at? q) t) := by
  induction h generalizing at? with
  | here =>
    rw [update_node _ _ (hfree [] (List.prefix_refl _)), Tree.replaceAt,
      update_of_some (show (if ([] : List Nat) = [] then some new else at? []) = some new by simp)]
  | @inside kind before after u m path pre post h ih =>
    have hroot : at? [] = none := hfree [] List.nil_prefix
    rw [update_node _ _ hroot, update_node _ _ (by simp [hroot]), updateAll_append, updateAll_append,
      updateAll_cons, updateAll_cons, Nat.zero_add]
    have hbefore : updateAll (fun q => if q = before.length :: path then some new else at? q) 0
        before = updateAll at? 0 before := by
      refine updateAll_congr fun j q _ hj => if_neg ?_
      rw [List.cons.injEq]
      omega
    have hafter : updateAll (fun q => if q = before.length :: path then some new else at? q)
        (before.length + 1) after = updateAll at? (before.length + 1) after := by
      refine updateAll_congr fun j q hj _ => if_neg ?_
      rw [List.cons.injEq]
      omega
    have hinner := @ih (fun q => at? (before.length :: q)) fun r hr =>
      hfree _ (List.cons_prefix_cons.2 ⟨rfl, hr⟩)
    have hchange := changeAt_append (Tree.replaceAt new path) (updateAll at? 0 before)
      (updateAll at? (before.length + 1) after) (update (fun q => at? (before.length :: q)) u)
    rw [length_updateAll, hinner] at hchange
    rw [Tree.replaceAt, hchange, hbefore, hafter]
    simp

/-! ### One after the other -/

/-- Replaces the nodes at some paths one after the other. -/
def replaceAll? : List (List Nat × Tree) → Tree → Option Tree
  | [], t => some t
  | (path, new) :: rest, t => (replaceAt new path t).bind (replaceAll? rest)

/-- What is put in place at a path. -/
def siteAt? (sites : List (List Nat × Tree)) (path : List Nat) : Option Tree :=
  (sites.find? fun s => s.1 = path).map Prod.snd

theorem siteAt?_eq_none {sites : List (List Nat × Tree)} {path : List Nat} :
    siteAt? sites path = none ↔ ∀ s ∈ sites, s.1 ≠ path := by
  simp [siteAt?, List.find?_eq_none]

theorem mem_of_siteAt? {sites : List (List Nat × Tree)} {path : List Nat} {new : Tree}
    (h : siteAt? sites path = some new) : (path, new) ∈ sites := by
  obtain ⟨s, hs, rfl⟩ := Option.map_eq_some_iff.1 h
  have hpath : s.1 = path := by simpa using List.find?_some hs
  exact hpath ▸ List.mem_of_find?_eq_some hs

theorem siteAt?_of_mem {sites : List (List Nat × Tree)} {path : List Nat} {new : Tree}
    (hfree : sites.Pairwise fun a b => ¬a.1 <+: b.1) (h : (path, new) ∈ sites) :
    siteAt? sites path = some new := by
  induction sites with
  | nil => cases h
  | cons s sites ih =>
    rw [List.pairwise_cons] at hfree
    rcases List.mem_cons.1 h with rfl | h
    · simp [siteAt?]
    · have hne : s.1 ≠ path := by
        rintro rfl
        exact hfree.1 _ h (List.prefix_refl _)
      have hrest := ih hfree.2 h
      unfold siteAt? at hrest ⊢
      rwa [List.find?_cons_of_neg (by simpa using hne)]

/-- Replacing one after the other at paths of which none leads on from one before. -/
theorem replaceAll?_eq {t : Tree} {sites : List (List Nat × Tree)}
    (hholds : ∀ s ∈ sites, ∃ m pre post, Holds t s.1 m pre post)
    (hfree : sites.Pairwise fun a b => ¬a.1 <+: b.1) :
    replaceAll? sites t = some (update (siteAt? sites) t) := by
  have hall : ∀ made : List (List Nat × Tree), (∀ a ∈ made, ∀ b ∈ sites, ¬a.1 <+: b.1) →
      replaceAll? sites (update (siteAt? made) t) = some (update (siteAt? (made ++ sites)) t) := by
    induction sites with
    | nil => intro made _; rw [List.append_nil]; rfl
    | cons s sites ih =>
      intro made hmade
      rw [List.forall_mem_cons] at hholds
      rw [List.pairwise_cons] at hfree
      obtain ⟨m, pre, post, hs⟩ := hholds.1
      have hnone : ∀ r, r <+: s.1 → siteAt? made r = none := fun r hr =>
        siteAt?_eq_none.2 fun a ha heq =>
          hmade a ha s List.mem_cons_self (heq ▸ hr)
      have hnext : (fun q => if q = s.1 then some s.2 else siteAt? made q) =
          siteAt? (made ++ [s]) := by
        funext q
        split
        · rename_i hq
          subst hq
          have hfind : made.find? (fun a => decide (a.1 = s.1)) = none := by
            simpa [siteAt?] using hnone s.1 (List.prefix_refl _)
          simp [siteAt?, List.find?_append, hfind]
        · rename_i hq
          simp [siteAt?, List.find?_append, Ne.symm hq]
      rw [replaceAll?, hs.replaceAt_update hnone, hnext, Option.bind_some,
        ih hholds.2 hfree.2 (made ++ [s]) ?_]
      · simp
      · intro a ha b hb
        rcases List.mem_append.1 ha with ha | ha
        · exact hmade a ha b (List.mem_cons_of_mem _ hb)
        · obtain rfl := List.mem_singleton.1 ha
          exact hfree.1 b hb
  have hstart := hall [] (by simp)
  have hnothing : siteAt? [] = fun _ => none := rfl
  rwa [hnothing, update_none, List.nil_append] at hstart

/-! ### Paths and nodes -/

theorem Holds.exists_of_cons {kind : NodeKind} {parts : List Tree} {i : Nat} {path : List Nat}
    {m : Tree} {pre post : List Token} (h : Holds (node kind parts) (i :: path) m pre post) :
    ∃ before u after inPre inPost, parts = before ++ u :: after ∧ i = before.length ∧
      Holds u path m inPre inPost ∧ pre = tokensAll before ++ inPre ∧
      post = inPost ++ tokensAll after := by
  cases h with
  | inside h => exact ⟨_, _, _, _, _, rfl, rfl, h, rfl, rfl⟩

/-- What stands further on along a path stands in the node on the way. -/
theorem Holds.exists_of_append {t m m' : Tree} {p q : List Nat} {pre post pre' post' : List Token}
    (h : Holds t p m pre post) (h' : Holds t (p ++ q) m' pre' post') :
    ∃ inPre inPost, Holds m q m' inPre inPost ∧ pre' = pre ++ inPre ∧ post' = inPost ++ post := by
  induction h generalizing pre' post' with
  | here => exact ⟨pre', post', h', by simp, by simp⟩
  | @inside kind before after u m path pre post h ih =>
    obtain ⟨before', u', after', inPre, inPost, hparts, hlength, hin, rfl, rfl⟩ :=
      Holds.exists_of_cons h'
    obtain ⟨rfl, hrest⟩ := List.append_inj hparts hlength
    obtain ⟨rfl, rfl⟩ := List.cons.inj hrest
    obtain ⟨inPre', inPost', hholds, rfl, rfl⟩ := ih hin
    exact ⟨inPre', inPost', hholds, by simp, by simp⟩

end Tree

namespace Node

theorem mem_nodesOfAll_append {path : List Nat} {start i : Nat} {before after : List Tree}
    {t : Tree} {n : Node}
    (h : n ∈ nodesOf (path ++ [i + before.length]) (start + Tree.widthAll before) t) :
    n ∈ nodesOfAll path start i (before ++ t :: after) := by
  induction before generalizing start i with
  | nil =>
    rw [List.nil_append, nodesOfAll, List.mem_append]
    exact .inl (by simpa using h)
  | cons u before ih =>
    rw [List.cons_append, nodesOfAll, List.mem_append]
    refine .inr (ih ?_)
    simpa [Nat.add_assoc, Nat.add_comm 1] using h

/-- What stands at a path is one of the nodes. -/
theorem mem_nodesOf_of_holds {t : Tree} {q : List Nat} {n : Node} {pre post : List Token}
    (h : Tree.Holds t q n.tree pre post) {path : List Nat} {start : Nat}
    (hpath : n.path = path ++ q) (hstart : n.start = start + Token.widthAll pre) :
    n ∈ nodesOf path start t := by
  generalize hm : n.tree = m at h
  induction h generalizing path start with
  | here =>
    obtain ⟨kind, parts, nstart, npath⟩ := n
    obtain ⟨rfl, rfl⟩ := Tree.node.inj hm
    simp only [List.append_nil] at hpath
    simp only [Token.widthAll_nil, Nat.add_zero] at hstart
    subst hpath hstart
    rw [nodesOf]
    exact List.mem_cons_self
  | @inside kind before after u m q pre post h ih =>
    rw [nodesOf]
    refine List.mem_cons_of_mem _ (mem_nodesOfAll_append (ih ?_ ?_ hm))
    · simpa using hpath
    · rw [hstart, Token.widthAll_append, Tree.widthAll_eq, Nat.add_assoc]

theorem path_prefix_of_mem_descendants {x y : Node} (h : y ∈ x.descendants) :
    x.path <+: y.path := by
  obtain ⟨q, -, -, hpath, -, -⟩ := holds_of_mem_nodesOf h
  exact ⟨q, hpath.symm⟩

end Node

namespace SourceFile

variable {f : SourceFile} {x y : Node} {pre post pre' post' : List Token}

theorem Stands.mem_nodes (h : f.Stands x pre post) : x ∈ f.nodes :=
  Node.mem_nodesOf_of_holds h.holds (by simp [root]) (by simp [root, h.start])

/-- A node whose path leads on from that of another one lies below it. -/
theorem Stands.mem_descendants (hx : f.Stands x pre post) (hy : f.Stands y pre' post')
    (h : x.path <+: y.path) : y ∈ x.descendants := by
  obtain ⟨q, hq⟩ := h
  obtain ⟨inPre, inPost, hholds, hpre, -⟩ := hx.holds.exists_of_append (hq ▸ hy.holds)
  refine Node.mem_nodesOf_of_holds hholds hq.symm ?_
  rw [hy.start, hpre, Token.widthAll_append, hx.start]

/-- At a path stands one node only. -/
theorem Stands.unique (hx : f.Stands x pre post) (hy : f.Stands y pre' post')
    (h : x.path = y.path) : x = y :=
  (Node.mem_descendants_antisymm (hx.mem_descendants hy (h ▸ List.prefix_refl _))
    (hy.mem_descendants hx (h ▸ List.prefix_refl _))).symm

end SourceFile

end PluginLint
