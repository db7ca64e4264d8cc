import Mathlib.Logic.Relation
import PluginLint.Binding.Compilation
import PluginLint.Proofs.Trees.Layout

/-!
# The types around a type

What is recorded of the types of a file. Each of them is reached from the root of the file through
namespaces and other types only, and the scope recorded with it names, one by one, types of the
file that it lies in.
-/
namespace PluginLint

/-- A node in which types are looked for. -/
def NodeKind.isHolder (kind : NodeKind) : Bool :=
  kind == .compilationUnit || kind == .namespaceDeclaration ||
    kind == .fileScopedNamespaceDeclaration || kind.isTypeDeclaration

theorem NodeKind.isHolder_of_isTypeDeclaration {kind : NodeKind}
    (h : kind.isTypeDeclaration = true) : kind.isHolder = true := by
  simp [isHolder, h]

theorem NodeKind.ne_compilationUnit_of_isTypeDeclaration {kind : NodeKind}
    (h : kind.isTypeDeclaration = true) : kind ≠ .compilationUnit := by
  rintro rfl
  cases h

namespace Node

open Relation

/-- The second node stands in the first one, with files, namespaces and types only around it. -/
def Nests : Node → Node → Prop :=
  ReflTransGen fun p c => p.kind.isHolder = true ∧ c ∈ p.childNodes

theorem Nests.child {x p c : Node} (h : Nests x p) (hp : p.kind.isHolder = true)
    (hc : c ∈ p.childNodes) : Nests x c := h.tail ⟨hp, hc⟩

theorem Nests.mem_descendants {x y : Node} (h : Nests x y) : y ∈ x.descendants := by
  induction h with
  | refl => exact mem_descendants_self x
  | tail _ hstep ih =>
    exact mem_descendants_trans ih (mem_descendants_of_child hstep.2 (mem_descendants_self _))

/-- All nodes around a nested node are files, namespaces or types. -/
theorem Nests.isHolder_of_mem {r d t : Node} (h : Nests r t) (hd : d ∈ r.descendants)
    (ht : t ∈ d.descendants) (hpos : 0 < t.width) : d = t ∨ d.kind.isHolder = true := by
  induction h using ReflTransGen.head_induction_on with
  | refl => exact .inl (mem_descendants_antisymm hd ht)
  | head hstep hrest ih =>
    obtain ⟨hp, hc⟩ := hstep
    rcases Node.mem_descendants.1 hd with rfl | ⟨c, hc', hdc⟩
    · exact .inr hp
    · have hsame := child_unique hc hc' (Nests.mem_descendants hrest)
        (mem_descendants_trans hdc ht) hpos
      subst hsame
      exact ih hdc

end Node

namespace Binding

open Node (Nests)

/-- The declaration is recorded as that of a type. -/
def Records (contexts : List TypeContext) (t : Node) (i : Nat) : Prop :=
  t.kind.isTypeDeclaration = true ∧ ∃ c ∈ contexts, c.span = t.span ∧ c.declaration = i

/-- All types that a scope names are recorded types around a node. -/
def Around (root : Node) (contexts : List TypeContext) (scope : Scope) (n : Node) : Prop :=
  ∀ i ∈ scope.types, ∃ t, Nests root t ∧ Nests t n ∧ Records contexts t i

/-- What is recorded of the types below a root. -/
structure Recorded (root : Node) (s : FileScopes) : Prop where
  types : ∀ c ∈ s.types, ∃ t, Nests root t ∧ t.kind.isTypeDeclaration = true ∧
    c.span = t.span ∧ Around root s.types c.scope t
  spaces : ∀ p ∈ s.spaces, p.2.types = []

section

variable {root n : Node} {contexts contexts' : List TypeContext} {scope : Scope}

theorem Records.mono {t : Node} {i : Nat} (h : Records contexts t i) (hsub : contexts ⊆ contexts') :
    Records contexts' t i := by
  obtain ⟨hk, c, hc, hspan, hi⟩ := h
  exact ⟨hk, c, hsub hc, hspan, hi⟩

theorem Around.mono (h : Around root contexts scope n) (hsub : contexts ⊆ contexts') :
    Around root contexts' scope n := by
  intro i hi
  obtain ⟨t, hroot, ht, hrecords⟩ := h i hi
  exact ⟨t, hroot, ht, hrecords.mono hsub⟩

theorem Around.child {c : Node} (h : Around root contexts scope n) (hn : n.kind.isHolder = true)
    (hc : c ∈ n.childNodes) : Around root contexts scope c := by
  intro i hi
  obtain ⟨t, hroot, ht, hrecords⟩ := h i hi
  exact ⟨t, hroot, ht.child hn hc, hrecords⟩

theorem around_of_types_eq_nil (h : scope.types = []) : Around root contexts scope n := by
  intro i hi
  rw [h] at hi
  cases hi

end

namespace Collector

variable {root : Node}

/-- A new type adds itself to the types around. -/
theorem addType_cases {c c' : Collector} {t : TypeDecl} {outer scope : Scope} {i : Nat}
    {bases : List (TypeExpr × Bool)} {members : List Member}
    (h : c.addType t outer bases members = (c', i, scope)) :
    c'.scopes = c.scopes ∧ scope.types = outer.types ++ [i] := by
  cases h
  exact ⟨rfl, rfl⟩

/-- What was recorded stays, and all that is recorded is right. -/
structure Extends (root : Node) (c c' : Collector) : Prop where
  recorded : Recorded root c'.scopes
  types : c.scopes.types ⊆ c'.scopes.types

theorem Extends.trans {c c' c'' : Collector} (h : Extends root c c') (h' : Extends root c' c'') :
    Extends root c c'' := ⟨h'.recorded, List.Subset.trans h.types h'.types⟩

/-- A type is recorded when all that its scope names is recorded. -/
theorem recorded_context {s : FileScopes} {n : Node} {i : Nat} {outer scope : Scope}
    (h : Recorded root s) (hn : Nests root n) (hk : n.kind.isTypeDeclaration = true)
    (houter : Around root s.types outer n) (hscope : scope.types = outer.types ++ [i]) :
    Recorded root { s with types := s.types ++ [⟨n.span, i, scope⟩] } ∧
      Around root (s.types ++ [⟨n.span, i, scope⟩]) scope n := by
  have hsub : s.types ⊆ s.types ++ [⟨n.span, i, scope⟩] := List.subset_append_left _ _
  have haround : Around root (s.types ++ [⟨n.span, i, scope⟩]) scope n := by
    intro j hj
    rw [hscope, List.mem_append, List.mem_singleton] at hj
    rcases hj with hj | rfl
    · exact houter.mono hsub j hj
    · exact ⟨n, hn, .refl, hk, ⟨n.span, j, scope⟩, by simp, rfl, rfl⟩
  refine ⟨⟨fun c hc => ?_, h.spaces⟩, haround⟩
  rcases List.mem_append.1 hc with hc | hc
  · obtain ⟨t, ht, htk, hspan, htypes⟩ := h.types c hc
    exact ⟨t, ht, htk, hspan, htypes.mono hsub⟩
  · obtain rfl := List.mem_singleton.1 hc
    exact ⟨n, hn, hk, rfl, haround⟩

/-- A type and the types in it are recorded, in the scope that the types around it make. -/
theorem collectType_extends {fuel : Nat} {c : Collector} {space : String} {outer : Scope} {n : Node}
    (h : Recorded root c.scopes) (hn : Nests root n) (hk : n.kind.isTypeDeclaration = true)
    (houter : Around root c.scopes.types outer n) :
    Extends root c (collectType fuel c space outer n) := by
  induction fuel generalizing c space outer n with
  | zero => exact ⟨h, fun _ hc => hc⟩
  | succ fuel ih =>
    rw [collectType]
    split
    · exact ⟨h, fun _ hc => hc⟩
    · rename_i name hname
      have hholder := NodeKind.isHolder_of_isTypeDeclaration hk
      dsimp only
      generalize hadded : c.addType _ outer _ _ = added
      obtain ⟨c₁, i, scope⟩ := added
      obtain ⟨hscopes, htypes⟩ := addType_cases hadded
      rw [hscopes]
      obtain ⟨hrecorded, haround⟩ := recorded_context h hn hk houter htypes
      generalize hbegun : Collector.mk c₁.declarations _ = begun
      have hstart : Extends root c begun := by
        rw [← hbegun]
        exact ⟨hrecorded, List.subset_append_left _ _⟩
      have hscope : Around root begun.scopes.types scope n := by
        rw [← hbegun]
        exact haround
      refine hstart.trans (List.foldlRecOn (motive := Extends root begun) _ _
        ⟨hstart.recorded, fun _ hc => hc⟩ fun c' hc' child hchild => hc'.trans ?_)
      split
      · rename_i hkind
        exact ih hc'.recorded (hn.child hholder hchild) hkind
          ((hscope.mono hc'.types).child hholder hchild)
      · exact ⟨hc'.recorded, fun _ hc => hc⟩

/-- All types of a container are recorded; a container is in no type. -/
theorem collectContainer_extends {fuel : Nat} {c : Collector} {scope : Scope} {n : Node}
    (h : Recorded root c.scopes) (hn : Nests root n) (hk : n.kind.isHolder = true)
    (hscope : scope.types = []) : Extends root c (collectContainer fuel c scope n) := by
  induction fuel generalizing c scope n with
  | zero => exact ⟨h, fun _ hc => hc⟩
  | succ fuel ih =>
    rw [collectContainer]
    dsimp only
    generalize hbegun : Collector.mk c.declarations _ = begun
    have hstart : Extends root c begun := by
      rw [← hbegun]
      refine ⟨⟨h.types, fun p hp => ?_⟩, fun _ hc => hc⟩
      rcases List.mem_append.1 hp with hp | hp
      · exact h.spaces p hp
      · rw [List.mem_singleton.1 hp]
        exact hscope
    refine hstart.trans (List.foldlRecOn (motive := Extends root begun) _ _
      ⟨hstart.recorded, fun _ hc => hc⟩ fun c' hc' child hchild => hc'.trans ?_)
    have hsame : Extends root c' c' := ⟨hc'.recorded, fun _ hc => hc⟩
    have hnested := hn.child hk hchild
    have hspace : child.kind.isHolder = true → ∀ name imports, Extends root c'
        (collectContainer fuel c' { space := joinNames scope.space name, imports } child) :=
      fun hkind _ _ => ih hc'.recorded hnested hkind rfl
    split
    · rename_i hkind
      split
      · exact hsame
      · exact hspace (by simp [NodeKind.isHolder, hkind]) _ _
    · rename_i hkind
      split
      · exact hsame
      · exact hspace (by simp [NodeKind.isHolder, hkind]) _ _
    · split
      · exact collectType_extends hc'.recorded hnested ‹_› (around_of_types_eq_nil hscope)
      · exact hsame

end Collector

/-- What the declarations of a file record of its types. -/
theorem Declarations.recorded_collect (d : Declarations) {file : SourceFile}
    (hk : file.kind = .compilationUnit) (everywhere : Imports) :
    Recorded file.root (d.collect file everywhere).2 := by
  have hempty : Recorded file.root (Collector.mk d {}).scopes := by
    constructor
    all_goals
      intro _ h
      cases h
  have hroot : file.root.kind.isHolder = true := by
    rw [SourceFile.root, hk]
    rfl
  exact (Collector.collectContainer_extends hempty .refl hroot rfl).recorded

theorem Compilation.recorded_of_mem_collectAll {everywhere : Imports} {d : Declarations}
    {files : List SourceFile} {file : SourceFile} {scopes : FileScopes}
    (h : (file, scopes) ∈ files.zip (collectAll everywhere d files).2)
    (hk : file.kind = .compilationUnit) : Recorded file.root scopes := by
  induction files generalizing d with
  | nil => cases h
  | cons f fs ih =>
    rw [collectAll, List.zip_cons_cons, List.mem_cons, Prod.mk.injEq] at h
    rcases h with ⟨rfl, rfl⟩ | h
    · exact d.recorded_collect hk everywhere
    · exact ih h

/-- The scopes of a file of a compilation say where its types stand. -/
theorem Compilation.recorded_of_mem {files : List SourceFile} {file : SourceFile}
    {scopes : FileScopes} (h : (file, scopes) ∈ files.zip (ofFiles files).files)
    (hk : file.kind = .compilationUnit) : Recorded file.root scopes :=
  recorded_of_mem_collectAll h hk

end Binding

end PluginLint
