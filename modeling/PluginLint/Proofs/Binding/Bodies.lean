import Mathlib.Tactic.ByContra
import PluginLint.Binding.Bodies
import PluginLint.Proofs.Binding.TypeScopes

/-!
# Bodies and their declarations

Each body of a file but that of the file itself is made from the span of a node that declares it, in
the scope at the start of this node. The innermost body around an offset is one that reaches to it,
or the file.
-/
namespace PluginLint.Binding

theorem mem_of_leastBy? {measure : α → Nat} {l : List α} {a : α}
    (h : leastBy? measure l = some a) : a ∈ l := by
  induction l generalizing a with
  | nil => cases h
  | cons b l ih =>
    simp only [leastBy?] at h
    split at h
    · rename_i c hc
      split at h
      · cases h
        exact List.mem_cons_of_mem _ (ih hc)
      · cases h
        exact List.mem_cons_self
    · cases h
      exact List.mem_cons_self

namespace Body

/-- An accessor of a member. -/
def IsAccessor (member a : Node) : Prop :=
  a.kind = .accessorDeclaration ∧ ∃ list ∈ member.childNodes, a ∈ list.childNodes

/-- The body is declared by a node: this one begins the body or is an accessor of the node that
does, and it has the span of the body. -/
def DeclaredBy (f : SourceFile) (scopes : FileScopes) (b : Body) (d : Node) : Prop :=
  d.span = b.span ∧ ∃ n ∈ f.nodes, { b with declared := [] } ∈ ofNode scopes n ∧
    (d = n ∨ IsAccessor n d)

variable {scopes : FileScopes} {n : Node} {b : Body}

/-- The body is made from the span of a node or of one of its accessors. -/
def MadeFrom (scopes : FileScopes) (n : Node) (b : Body) : Prop :=
  ∃ d typeParameters parameters, (d = n ∨ IsAccessor n d) ∧
    b = make scopes d.span typeParameters parameters

theorem madeFrom_of_settersOf (h : b ∈ settersOf scopes n) : MadeFrom scopes n b := by
  unfold settersOf at h
  split at h
  · rename_i type list _ hlist
    obtain ⟨a, ha, rfl⟩ := List.mem_map.1 h
    obtain ⟨ha, hkind⟩ := List.mem_filter.1 (List.mem_filter.1 ha).1
    have haccessor : IsAccessor n a :=
      ⟨by simpa using hkind, list, List.mem_of_find?_eq_some hlist, ha⟩
    exact ⟨a, [], _, .inr haccessor, rfl⟩
  · cases h

theorem madeFrom_of_ofNode (h : b ∈ ofNode scopes n) : MadeFrom scopes n b := by
  have hself : ∀ typeParameters parameters,
      MadeFrom scopes n (make scopes n.span typeParameters parameters) :=
    fun _ _ => ⟨n, _, _, .inl rfl, rfl⟩
  unfold ofNode at h
  split at h
  case h_6 =>
    rcases List.mem_cons.1 h with rfl | h
    · exact hself _ _
    · exact madeFrom_of_settersOf h
  case h_7 | h_8 => exact madeFrom_of_settersOf h
  case h_9 =>
    split at h
    · split at h
      · rw [List.mem_singleton.1 h]
        exact hself _ _
      · cases h
    · cases h
  -- All other members have one body and are its declaration.
  all_goals
    rw [List.mem_singleton.1 h]
    exact hself _ _

/-- Of files, namespaces and types only types begin a body. -/
theorem isTypeDeclaration_of_ofNode (h : b ∈ ofNode scopes n) (hn : n.kind.isHolder = true) :
    n.kind.isTypeDeclaration = true := by
  by_contra hk
  simp only [NodeKind.isHolder, hk, Bool.or_eq_true, beq_iff_eq, or_false] at hn
  rcases hn with (hn | hn) | hn
  all_goals
    rw [ofNode, hn] at h
    cases h

/-! ### The bodies around an offset -/

theorem mem_around {bodies : List Body} {offset : Nat} :
    b ∈ around bodies offset ↔ b ∈ bodies ∧ reaches b.span offset = true := by
  rw [around, List.mem_mergeSort, List.mem_filter]

/-- The innermost body is the first one, or else it reaches over the offset. -/
theorem innermost_cases {bodies : List Body} (hne : bodies ≠ []) (offset : Nat) :
    ∃ b, bodies[innermost bodies offset]? = some b ∧
      (innermost bodies offset = 0 ∨ reaches b.span offset = true) := by
  cases hleast : leastBy? (fun p => p.1.span.length)
      (bodies.zipIdx.filter fun p => reaches p.1.span offset) with
  | none =>
    obtain ⟨b, rest, rfl⟩ := List.exists_cons_of_ne_nil hne
    have hzero : innermost (b :: rest) offset = 0 := by rw [innermost, hleast]; rfl
    exact ⟨b, by rw [hzero]; rfl, .inl hzero⟩
  | some p =>
    obtain ⟨hp, hreaches⟩ := List.mem_filter.1 (mem_of_leastBy? hleast)
    have hplace : innermost bodies offset = p.2 := by rw [innermost, hleast]; rfl
    refine ⟨p.1, ?_, .inr hreaches⟩
    rw [hplace]
    exact List.mk_mem_zipIdx_iff_getElem?.1 hp

/-! ### The bodies of a file -/

section

variable {f : SourceFile} {d : Node}

/-- Apart from its variables, a body is what its node begins. -/
theorem getElem?_ofFile {i : Nat} (h : (ofFile scopes f)[i]? = some b) :
    (make scopes f.root.fullSpan [] [] :: f.nodes.flatMap (ofNode scopes))[i]? =
      some { b with declared := [] } := by
  simp only [ofFile, addVariables, List.getElem?_map, List.getElem?_zipIdx, Option.map_map,
    Option.map_eq_some_iff, Function.comp_apply] at h
  obtain ⟨b₀, hb₀, rfl⟩ := h
  have hbare : b₀.declared = [] := by
    rcases List.mem_cons.1 (List.mem_of_getElem? hb₀) with rfl | hmem
    · rfl
    · obtain ⟨n, -, hb⟩ := List.mem_flatMap.1 hmem
      obtain ⟨d, typeParameters, parameters, -, rfl⟩ := madeFrom_of_ofNode hb
      rfl
  rw [hb₀, ← hbare]

theorem exists_declaredBy {i : Nat} (h : (ofFile scopes f)[i + 1]? = some b) :
    ∃ d, b.DeclaredBy f scopes d := by
  have hbare := getElem?_ofFile h
  rw [List.getElem?_cons_succ] at hbare
  obtain ⟨n, hn, hb⟩ := List.mem_flatMap.1 (List.mem_of_getElem? hbare)
  obtain ⟨d, typeParameters, parameters, hd, hmake⟩ := madeFrom_of_ofNode hb
  exact ⟨d, (congrArg Body.span hmake).symm, n, hn, hb, hd⟩

theorem span_ofFile_zero (h : (ofFile scopes f)[0]? = some b) : b.span = f.root.fullSpan := by
  have hbare := getElem?_ofFile h
  rw [List.getElem?_cons_zero, Option.some.injEq] at hbare
  exact (congrArg Body.span hbare).symm

namespace DeclaredBy

theorem mem_nodes (h : b.DeclaredBy f scopes d) : d ∈ f.nodes := by
  obtain ⟨-, n, hn, -, rfl | ⟨-, list, hlist, hd⟩⟩ := h
  · exact hn
  · refine Node.mem_descendants_trans hn (Node.mem_descendants_of_child hlist ?_)
    exact Node.mem_descendants_of_child hd (Node.mem_descendants_self d)

theorem isTypeDeclaration (h : b.DeclaredBy f scopes d) (hd : d.kind.isHolder = true) :
    d.kind.isTypeDeclaration = true := by
  obtain ⟨-, n, -, hb, rfl | ⟨hkind, -⟩⟩ := h
  · exact isTypeDeclaration_of_ofNode hb hd
  · rw [hkind] at hd
    cases hd

theorem kind_ne (h : b.DeclaredBy f scopes d) : d.kind ≠ .compilationUnit := by
  intro hkind
  have hd := h.isTypeDeclaration (by rw [hkind]; rfl)
  exact NodeKind.ne_compilationUnit_of_isTypeDeclaration hd hkind

/-- A body looks for the types around it at its own start. -/
theorem scope_types (h : b.DeclaredBy f scopes d) :
    b.scope.types = (scopes.scopeAt d.span.start).types := by
  obtain ⟨hspan, n, -, hb, -⟩ := h
  obtain ⟨d', typeParameters, parameters, -, hmake⟩ := madeFrom_of_ofNode hb
  have hscope := congrArg (fun b => b.scope.types) hmake
  have hspan' := congrArg Body.span hmake
  simp only [make] at hscope hspan'
  rw [hscope, hspan, hspan']

end DeclaredBy

end

end Body

end PluginLint.Binding
