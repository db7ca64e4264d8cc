import PluginLint.Binding.FrameworkText
import PluginLint.Proofs.Binding.FrameworkTypes

/-!
# The types of the framework are those of its text

The table of the types of the framework says what their text declares. In a file like this text, with
types that stand in namespaces and have no types inside them, every type can be read by itself.
Collecting such a file declares the types that are read in turn, whatever is declared already; and
what is read of the text is the table.
-/
namespace PluginLint.Binding

/-! ### Types read by themselves -/

/-- A namespace, with or without braces. -/
def isNamespace : NodeKind → Bool
  | .namespaceDeclaration | .fileScopedNamespaceDeclaration => true
  | _ => false

/-- A type as it is declared, but for the types inside it. -/
def TypeStub.read? (n : Node) : Option TypeStub :=
  (identifierName? n).map fun name =>
    let kind := typeKindOf n.kind
    { name
      kind
      typeParameters := typeParameterNames n
      bases := (baseTypes n).map Prod.fst
      members := primaryMembers kind n ++ n.childNodes.flatMap membersOf }

/-- The types that stand in a namespace. -/
def readTypes (n : Node) : List TypeStub :=
  (n.childNodes.filter fun c => c.kind.isTypeDeclaration).filterMap TypeStub.read?

/-- The namespaces of a file with their types. -/
def readSpaces (root : Node) : List (String × List TypeStub) :=
  (root.childNodes.filter fun c => isNamespace c.kind).filterMap fun c =>
    ((c.findChild? NodeKind.isType).bind dottedName?).map (·, readTypes c)

/-- No type stands in the type, and of its bases the first is marked as the first. -/
def isPlainType (n : Node) : Bool :=
  (n.childNodes.all fun c => !c.kind.isTypeDeclaration) &&
    (baseTypes n).zipIdx.all fun (b, i) => b.2 == (i == 0)

/-- Plain types stand in the namespace, and no namespace and no `using`. -/
def isPlainSpace (n : Node) : Bool :=
  n.childNodes.all fun c =>
    c.kind != .usingDirective && !isNamespace c.kind &&
      (!c.kind.isTypeDeclaration || isPlainType c)

/-- All types of the file stand in plain namespaces. -/
def isPlainFile (root : Node) : Bool :=
  root.childNodes.all fun c =>
    !c.kind.isTypeDeclaration && (!isNamespace c.kind || isPlainSpace c)

theorem baseTypes_of_plain {n : Node} (h : isPlainType n = true) :
    baseTypes n = ((baseTypes n).map Prod.fst).zipIdx.map fun (b, i) => (b, i == 0) := by
  rw [isPlainType, Bool.and_eq_true] at h
  refine List.ext_getElem (by simp) fun i hi _ => ?_
  have hmem : ((baseTypes n)[i], i) ∈ (baseTypes n).zipIdx := by
    rw [List.mem_zipIdx_iff_getElem?]
    exact List.getElem?_eq_getElem hi
  have hfirst := beq_iff_eq.1 (List.all_eq_true.1 h.2 _ hmem)
  simp [← hfirst]

/-- A plain namespace brings nothing in. -/
theorem extended_of_plain {n : Node} (h : isPlainSpace n = true) (imports : Imports) :
    imports.extended n = imports := by
  have hnone : n.childrenOfKind .usingDirective = [] := by
    rw [Node.childrenOfKind, List.filter_eq_nil_iff]
    intro c hc
    have hplain := List.all_eq_true.1 h c hc
    simp only [Bool.and_eq_true, bne_iff_ne] at hplain
    simpa using hplain.1.1
  rw [Imports.extended, hnone]
  rfl

/-! ### Collecting what can be read -/

theorem declarations_foldl {f : Collector → Node → Collector}
    {g : Declarations → Node → Declarations} {l : List Node}
    (h : ∀ n ∈ l, ∀ c, (f c n).declarations = g c.declarations n) (c : Collector) :
    (l.foldl f c).declarations = l.foldl g c.declarations := by
  induction l generalizing c with
  | nil => rfl
  | cons n l ih =>
    obtain ⟨hn, hl⟩ := List.forall_mem_cons.1 h
    rw [List.foldl_cons, List.foldl_cons, ih hl, hn]

/-- Members of a type can be added later. -/
theorem declarations_addType_append (c : Collector) (t : TypeDecl) (outer : Scope)
    (bases : List (TypeExpr × Bool)) (members more : List Member) :
    (c.addType t outer bases (members ++ more)).1.declarations =
      more.foldl (fun d m => d.addMember (c.addType t outer bases members).2.1
        (m.inScope (c.addType t outer bases members).2.2))
        (c.addType t outer bases members).1.declarations := by
  simp only [Collector.addType, List.foldl_append]

/-- Collecting a plain type adds what is read of it. -/
theorem declarations_collectType {n : Node} (h : isPlainType n = true) (fuel : Nat) (c : Collector)
    (space : String) :
    (Collector.collectType (fuel + 1) c space { space, imports := Framework.imports } n).declarations =
      (TypeStub.read? n).elim c.declarations (c.declarations.addStub space) := by
  rw [Collector.collectType, TypeStub.read?]
  cases identifierName? n with
  | none => rfl
  | some name =>
    have hbases := baseTypes_of_plain h
    rw [isPlainType, Bool.and_eq_true] at h
    have hinner : ∀ child ∈ n.childNodes, child.kind.isTypeDeclaration = false := by simpa using h.1
    dsimp only [Option.map_some, Option.elim_some, Declarations.addStub]
    rw [← hbases, declarations_addType_append, List.foldl_flatMap]
    refine declarations_foldl (fun child hchild c => ?_) _
    rw [if_neg (by simp [hinner child hchild])]
    rfl

/-- Collecting a plain namespace adds the types that stand in it. -/
theorem declarations_collectSpace {n : Node} (h : isPlainSpace n = true) (fuel : Nat)
    (c : Collector) (space : String) :
    (Collector.collectContainer (fuel + 1) c { space, imports := Framework.imports } n).declarations =
      (readTypes n).foldl (Declarations.addStub · space) c.declarations := by
  rw [Collector.collectContainer, readTypes, List.foldl_filterMap, List.foldl_filter]
  refine declarations_foldl (fun child hchild c => ?_) _
  have hplain := List.all_eq_true.1 h child hchild
  simp only [Bool.and_eq_true, Bool.not_eq_true', Bool.or_eq_true] at hplain
  split
  case h_1 hkind | h_2 hkind => simp [hkind, isNamespace] at hplain
  split
  · rename_i htype
    rw [declarations_collectType (hplain.2.resolve_left (by simp [htype]))]
    cases TypeStub.read? child <;> rfl
  · rfl

/-- Collecting a plain file adds its namespaces in turn. -/
theorem Declarations.collect_of_plain {file : SourceFile} (h : isPlainFile file.root = true)
    {everywhere : Imports} (himports : everywhere.extended file.root = Framework.imports)
    (d : Declarations) :
    (d.collect file everywhere).1 =
      (readSpaces file.root).foldl (fun d (space, types) => types.foldl (addStub · space) d) d := by
  obtain ⟨fuel, hfuel⟩ : ∃ n, file.root.size = n + 1 := ⟨_, Node.size_eq _⟩
  rw [collect, himports, hfuel, Collector.collectContainer, readSpaces, List.foldl_filterMap,
    List.foldl_filter]
  refine declarations_foldl (fun child hchild c => ?_) _
  have hplain := List.all_eq_true.1 h child hchild
  simp only [Bool.and_eq_true, Bool.not_eq_true', Bool.or_eq_true] at hplain
  cases hkind : isNamespace child.kind with
  | false =>
    rw [if_neg Bool.false_ne_true]
    split
    case h_1 hspace | h_2 hspace => simp [hspace, isNamespace] at hkind
    rw [if_neg (by simp [hplain.1])]
  | true =>
    have hspace := hplain.2.resolve_left (by simp [hkind])
    -- A child takes up room, so there is fuel left for what stands in it.
    obtain ⟨deeper, rfl⟩ : ∃ n, fuel = n + 1 := by
      have hless := Node.size_lt_of_mem_childNodes hchild
      have hpos := Node.size_eq child
      exact ⟨fuel - 1, by omega⟩
    rw [if_pos rfl]
    split
    case h_3 hother hother' =>
      cases hall : child.kind <;> simp_all [isNamespace]
    all_goals
      cases (child.findChild? NodeKind.isType).bind dottedName? with
      | none => rfl
      | some name =>
        dsimp only [Option.map_some]
        rw [extended_of_plain hspace]
        exact declarations_collectSpace hspace deeper c name

/-! ### The text -/

namespace Framework

/-- The text is read without problems, and what is read is the table. -/
theorem exists_parse_source :
    ∃ f, SourceFile.parse "prelude.cs" source = .ok f ∧
      (f.errors.isEmpty && isPlainFile f.root && decide (readSpaces f.root = spaces) &&
        decide (Imports.extended {} f.root = imports)) = true := by
  refine SourceFile.exists_of_parse_any ?_
  rw [source, importText, systemText, collectionText, taskText, sdkText, queryText]
  iterate 5 rw [← String.ofList_append]
  rw [SourceFile.parse_ofList]
  decide +kernel

end Framework

/-- Declaring the types of the framework is collecting its text, whatever is declared already. -/
theorem Declarations.addFramework_eq_collect :
    ∃ f, SourceFile.parse "prelude.cs" Framework.source = .ok f ∧ f.errors = [] ∧
      ∀ d : Declarations, d.addFramework = (d.collect f {}).1 := by
  obtain ⟨f, hf, hseen⟩ := Framework.exists_parse_source
  simp only [Bool.and_eq_true, List.isEmpty_iff, decide_eq_true_eq] at hseen
  obtain ⟨⟨⟨herrors, hplain⟩, hspaces⟩, himports⟩ := hseen
  refine ⟨f, hf, herrors, fun d => ?_⟩
  rw [collect_of_plain hplain himports, hspaces, addFramework]

end PluginLint.Binding
