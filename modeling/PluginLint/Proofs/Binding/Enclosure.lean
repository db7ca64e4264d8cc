import PluginLint.Proofs.Binding.Bodies
import PluginLint.Proofs.Binding.Depth

/-!
# Names and what is around them

A name is looked up in the bodies and then in the types around the offset at which it starts, and a
body looks at the types around its own start. What is around an offset is decided by spans, and a
span counts as around the offset at which it stops. So a name is bound in what encloses it and, by
mistake, in a neighbour that stops where the name, or the body around it, starts. Nothing else is
searched.
-/
namespace PluginLint.Binding

open Node (Nests)

theorem reaches_iff {s : Span} {offset : Nat} :
    reaches s offset = true ↔ s.start ≤ offset ∧ offset ≤ s.stop := by
  simp [reaches]

/-! ### What is around an offset -/

section

variable {tokens : List Token} {f : SourceFile} {scopes : FileScopes} {offset : Nat}

theorem solid_of_isTypeDeclaration (hf : f.Parsed tokens) {t : Node} (ht : t ∈ f.nodes)
    (htk : t.kind.isTypeDeclaration = true) : t.tree.Solid :=
  hf.solid_of_mem ht (NodeKind.ne_compilationUnit_of_isTypeDeclaration htk)

theorem solid_of_name (hf : f.Parsed tokens) {n : Node} (hn : n ∈ f.nodes)
    (hk : n.kind = .identifierName) : n.tree.Solid := by
  refine hf.solid_of_mem hn ?_
  rw [hk]
  decide

/-- What encloses a name stops behind its start. -/
theorem start_lt_stop_of_mem_descendants (hf : f.Parsed tokens) {x n : Node} (hn : n ∈ f.nodes)
    (hk : n.kind = .identifierName) (hmem : n ∈ x.descendants) : n.span.start < x.span.stop := by
  have hsolid := solid_of_name hf hn hk
  exact Nat.lt_of_lt_of_le (Node.span_of_solid hsolid).2.1
    (Node.span_of_mem_descendants hmem hsolid).2

/-- A node that reaches to a name encloses it, unless it stops where the name starts. -/
theorem mem_descendants_iff_of_reaches (hf : f.Parsed tokens) {x n : Node} (hx : x ∈ f.nodes)
    (hxk : x.kind ≠ .compilationUnit) (hn : n ∈ f.nodes) (hnk : n.kind = .identifierName)
    (hr : reaches x.span n.span.start = true) :
    n ∈ x.descendants ↔ x.span.stop ≠ n.span.start := by
  have hxs := hf.solid_of_mem hx hxk
  have hns := solid_of_name hf hn hnk
  have hpos := (Node.span_of_solid hns).2.1
  obtain ⟨hstart, hstop⟩ := reaches_iff.1 hr
  constructor
  · intro hmem
    have hbehind := start_lt_stop_of_mem_descendants hf hn hnk hmem
    omega
  · intro hne
    rcases Node.nested_or_spans_apart hx hn hxs hns with h | h | h
    · exact h
    · -- A name is a single token, so nothing but the name itself is below it.
      obtain ⟨t, ht⟩ := (Tree.every_node.1 hns.formed).1.named hnk
      have hleaf : n.childNodes = [] := by
        rw [Node.childNodes, Node.elements, ht]
        rfl
      rw [Node.mem_descendants, hleaf] at h
      rcases h with rfl | ⟨c, hc, -⟩
      · exact Node.mem_descendants_self x
      · cases hc
    · omega

/-- The types in the scope at an offset reach to it. -/
theorem Recorded.exists_type_of_mem_scopeAt (hf : f.Parsed tokens) (hs : Recorded f.root scopes)
    {i : Nat} (hi : i ∈ (scopes.scopeAt offset).types) : ∃ t, Nests f.root t ∧
      Records scopes.types t i ∧ reaches t.span offset = true := by
  unfold FileScopes.scopeAt at hi
  split at hi
  · rename_i c hc
    obtain ⟨hc, hr⟩ := List.mem_filter.1 (mem_of_leastBy? hc)
    obtain ⟨t₀, ht₀, hk₀, hspan, haround⟩ := hs.types c hc
    obtain ⟨t, ht, hnests, hrecords⟩ := haround i hi
    have hsolid := solid_of_isTypeDeclaration hf ht₀.mem_descendants hk₀
    -- The scope is that of the innermost type, and the types around that one reach as far.
    have hinside := Node.span_of_mem_descendants hnests.mem_descendants hsolid
    refine ⟨t, ht, hrecords, ?_⟩
    rw [hspan, reaches_iff] at hr
    rw [reaches_iff]
    omega
  · cases hspace : leastBy? (fun p => p.1.length)
        (scopes.spaces.filter fun p => reaches p.1 offset) with
    | none =>
      rw [hspace] at hi
      cases hi
    | some p =>
      have hp := (List.mem_filter.1 (mem_of_leastBy? hspace)).1
      rw [hspace, Option.map_some, Option.getD_some, hs.spaces p hp] at hi
      cases hi

/-- A type inside another one starts behind the start of the outer one. -/
theorem start_lt_of_nests (hf : f.Parsed tokens) {d t : Node} (hd : d ∈ f.nodes)
    (hdk : d.kind.isTypeDeclaration = true) (ht : Nests f.root t)
    (htk : t.kind.isTypeDeclaration = true) (hmem : t ∈ d.descendants) (hne : t ≠ d) :
    d.span.start < t.span.start := by
  have hds := solid_of_isTypeDeclaration hf hd hdk
  have hts := solid_of_isTypeDeclaration hf ht.mem_descendants htk
  have htpos := Node.width_pos_of_solid hts
  obtain ⟨c, hc, htc⟩ := (Node.mem_descendants.1 hmem).resolve_left hne
  have hholder : c.kind.isHolder = true := by
    have hcroot := Node.mem_descendants_trans hd
      (Node.mem_descendants_of_child hc (Node.mem_descendants_self c))
    rcases ht.isHolder_of_mem hcroot htc htpos with rfl | h
    · exact NodeKind.isHolder_of_isTypeDeclaration htk
    · exact h
  have hlater : d.span.start < c.span.start := by
    refine Node.start_lt_of_later_child hds hc fun hfirst => ?_
    have hopened := (Tree.every_node.1 hds.formed).1.opened hdk c.kind c.parts hfirst
    rw [hopened] at hholder
    cases hholder
  exact Nat.lt_of_lt_of_le hlater (Node.span_of_mem_descendants htc hts).1

/-- A type that reaches to the start of a body reaches as far as the body, unless it stops where the
body starts. -/
theorem reaches_of_declaredBy (hf : f.Parsed tokens) {t d : Node} {b : Body} (ht : Nests f.root t)
    (htk : t.kind.isTypeDeclaration = true) (hd : b.DeclaredBy f scopes d)
    (htd : reaches t.span d.span.start = true) (hdo : reaches d.span offset = true)
    (hstop : t.span.stop ≠ d.span.start) : reaches t.span offset = true := by
  have hts := solid_of_isTypeDeclaration hf ht.mem_descendants htk
  have hds := hf.solid_of_mem hd.mem_nodes hd.kind_ne
  have hpos := (Node.span_of_solid hds).2.1
  have htpos := Node.width_pos_of_solid hts
  rw [reaches_iff] at htd hdo ⊢
  rcases Node.nested_or_spans_apart ht.mem_descendants hd.mem_nodes hts hds with h | h | h
  · have := Node.span_of_mem_descendants h hds
    omega
  · by_cases hsame : t = d
    · subst hsame
      exact hdo
    · -- A body around a type is that of a type, and starts in front of the inner one.
      have hholder := (ht.isHolder_of_mem hd.mem_nodes h htpos).resolve_left (Ne.symm hsame)
      have := start_lt_of_nests hf hd.mem_nodes (hd.isTypeDeclaration hholder) ht htk h hsame
      omega
  · omega

end

/-! ### Looking up a name -/

namespace FileModel

/-- The variable that a name stands for at an offset, with its body. -/
def variableIn? (m : FileModel) (name : String) (offset : Nat) : Option (Body × Variable) :=
  (Body.around m.bodies offset).findSome? fun b => (b.find? name offset).map fun v => (b, v)

theorem findVariable?_eq (m : FileModel) (name : String) (offset : Nat) :
    m.findVariable? name offset = (m.variableIn? name offset).map Prod.snd := by
  rw [variableIn?, List.map_findSome?]
  simp only [Option.map_map, Function.comp_def, Option.map_id']
  rfl

theorem mem_bodies_of_variableIn? {m : FileModel} {name : String} {offset : Nat} {b : Body}
    {v : Variable} (h : m.variableIn? name offset = some (b, v)) :
    b ∈ m.bodies ∧ reaches b.span offset = true ∧ b.find? name offset = some v := by
  obtain ⟨b', hb', hfound⟩ := List.exists_of_findSome?_eq_some h
  obtain ⟨v', hv', hpair⟩ := Option.map_eq_some_iff.1 hfound
  cases hpair
  obtain ⟨hmem, hreaches⟩ := Body.mem_around.1 hb'
  exact ⟨hmem, hreaches, hv'⟩

/-- A name that is not set on an object being made stands for the variable that is found for it, and
otherwise for what its scope gives. -/
theorem typeWithin_name {m : FileModel} {n : Node} {name : String} (hk : n.kind = .identifierName)
    (hname : identifierName? n = some name) (hobject : m.initializedObject? n.span = none)
    (steps : Nat) : m.typeWithin (steps + 1) n =
      match m.variableIn? name n.span.start with
      | some (_, v) => m.variableType? (m.typeWithin steps) v
      | none => some (m.outerNameType n name) := by
  have hrule : m.typeWithin (steps + 1) n = m.nameType? (m.typeWithin steps) n := by
    rw [typeWithin, typeFrom, hk]
  simp only [hrule, nameType?, hname, hobject, Option.bind_eq_bind, Option.bind_some, if_pos hk,
    findVariable?_eq]
  cases m.variableIn? name n.span.start with
  | none => rfl
  | some found => rfl

/-- How a name of a file is bound, and in what. -/
structure BindsIn (m : FileModel) (f : SourceFile) (n : Node) : Prop where
  /-- A name stands for a variable if one is found, and otherwise for what its scope gives. -/
  lookup : ∀ name steps, identifierName? n = some name → m.initializedObject? n.span = none →
    m.typeWithin (steps + 1) n =
      match m.variableIn? name n.span.start with
      | some (_, v) => m.variableType? (m.typeWithin steps) v
      | none => some (m.outerNameType n name)
  /-- The variable is one of the file or one of a declaration that encloses the name, unless the
  declaration stops where the name starts. -/
  body : ∀ name b v, m.variableIn? name n.span.start = some (b, v) →
    (m.bodies.head? = some b ∨ ∃ d, b.DeclaredBy f m.scopes d) ∧
      ∀ d, b.DeclaredBy f m.scopes d → (n ∈ d.descendants ↔ d.span.stop ≠ n.span.start)
  /-- The types in the scope are declared around the name, unless one of them stops where the name
  starts or where the innermost body starts. -/
  types : ∃ b, m.bodies[Body.innermost m.bodies n.span.start]? = some b ∧
    ∀ i ∈ (m.scopeAt n.span.start).types, ∃ t ∈ f.nodes, Records m.scopes.types t i ∧
      (n ∈ t.descendants ↔ t.span.stop ≠ n.span.start ∧ t.span.stop ≠ b.span.start)

section

variable {tokens : List Token} {f : SourceFile} {n : Node} {c : Compilation} {scopes : FileScopes}

theorem variable_enclosed (hf : f.Parsed tokens) (hn : n ∈ f.nodes)
    (hk : n.kind = .identifierName) {name : String} {b : Body} {v : Variable}
    (h : (make c scopes f).variableIn? name n.span.start = some (b, v)) :
    ((make c scopes f).bodies.head? = some b ∨ ∃ d, b.DeclaredBy f scopes d) ∧
      ∀ d, b.DeclaredBy f scopes d → (n ∈ d.descendants ↔ d.span.stop ≠ n.span.start) := by
  obtain ⟨hmem, hreaches, -⟩ := mem_bodies_of_variableIn? h
  constructor
  · obtain ⟨i, hi⟩ := List.mem_iff_getElem?.1 hmem
    cases i with
    | zero => exact .inl (by rw [List.head?_eq_getElem?, hi])
    | succ i => exact .inr (Body.exists_declaredBy hi)
  · intro d hd
    have hr : reaches d.span n.span.start = true := by rw [hd.1]; exact hreaches
    exact mem_descendants_iff_of_reaches hf hd.mem_nodes hd.kind_ne hn hk hr

/-- The scope at an offset is read off at the start of the innermost body, and the types in it reach
as far as that body does. -/
theorem exists_type_of_mem_scopeAt (hf : f.Parsed tokens) (hs : Recorded f.root scopes) {b : Body}
    {offset i : Nat}
    (hb : (make c scopes f).bodies[Body.innermost (make c scopes f).bodies offset]? = some b)
    (hr : Body.innermost (make c scopes f).bodies offset = 0 ∨ reaches b.span offset = true)
    (hi : i ∈ ((make c scopes f).scopeAt offset).types) :
    b.span.start ≤ offset ∧ ∃ t, Nests f.root t ∧ Records scopes.types t i ∧
      (t.span.stop ≠ b.span.start → reaches t.span offset = true) := by
  unfold scopeAt at hi
  split at hi
  · rename_i hplace
    rw [hplace] at hb
    obtain ⟨t, ht, hrecords, htr⟩ := hs.exists_type_of_mem_scopeAt hf hi
    refine ⟨?_, t, ht, hrecords, fun _ => htr⟩
    rw [Body.span_ofFile_zero hb]
    exact Nat.zero_le offset
  · rename_i hplace
    have hreaches := hr.resolve_left hplace
    refine ⟨(reaches_iff.1 hreaches).1, ?_⟩
    obtain ⟨k, hk⟩ := Nat.exists_eq_succ_of_ne_zero hplace
    rw [hb] at hi
    rw [hk] at hb
    obtain ⟨d, hd⟩ := Body.exists_declaredBy hb
    rw [Option.map_some, Option.getD_some, hd.scope_types] at hi
    obtain ⟨t, ht, hrecords, htr⟩ := hs.exists_type_of_mem_scopeAt hf hi
    refine ⟨t, ht, hrecords, fun hstop => ?_⟩
    rw [← hd.1] at hstop hreaches
    exact reaches_of_declaredBy hf ht hrecords.1 hd htr hreaches hstop

theorem types_enclosed (hf : f.Parsed tokens) (hs : Recorded f.root scopes) (hn : n ∈ f.nodes)
    (hk : n.kind = .identifierName) :
    ∃ b, (make c scopes f).bodies[Body.innermost (make c scopes f).bodies n.span.start]? = some b ∧
      ∀ i ∈ ((make c scopes f).scopeAt n.span.start).types, ∃ t ∈ f.nodes,
        Records scopes.types t i ∧
          (n ∈ t.descendants ↔ t.span.stop ≠ n.span.start ∧ t.span.stop ≠ b.span.start) := by
  have hne : (make c scopes f).bodies ≠ [] := by
    intro hnil
    have := congrArg List.length hnil
    simp [make, Body.ofFile, Body.addVariables] at this
  obtain ⟨b, hb, hr⟩ := Body.innermost_cases hne n.span.start
  refine ⟨b, hb, fun i hi => ?_⟩
  obtain ⟨hstart, t, ht, hrecords, htr⟩ := exists_type_of_mem_scopeAt hf hs hb hr hi
  refine ⟨t, ht.mem_descendants, hrecords, ?_⟩
  constructor
  · intro hmem
    have hbehind := start_lt_stop_of_mem_descendants hf hn hk hmem
    omega
  · rintro ⟨hstop, hbody⟩
    have htk := NodeKind.ne_compilationUnit_of_isTypeDeclaration hrecords.1
    exact (mem_descendants_iff_of_reaches hf ht.mem_descendants htk hn hk (htr hbody)).2 hstop

end

/-! ### Neighbours -/

/-- Declarations without a blank between them: a class in front of a method, and a field behind it
whose type has the name of a parameter. -/
def neighbours : String :=
  "class C\x7bclass D\x7bint y;\x7dvoid M(int E)\x7by=1;\x7dE F;\x7dclass E\x7b\x7d"

theorem mem_zip_ofFile (f : SourceFile) :
    (f, (ofFile f).scopes) ∈ [f].zip (Compilation.ofFiles [f]).files := List.mem_cons_self

/-- The name, for which a body has a variable, is bound in a body that stops where it starts. -/
def boundBehind (m : FileModel) (n : Node) (name : String) : Bool :=
  identifierName? n == some name &&
    (m.bodies.any fun b => reaches b.span n.span.start && (b.find? name n.span.start).isSome) &&
    m.bodies.all fun b => !reaches b.span n.span.start ||
      (b.find? name n.span.start).all fun v => b.span.stop == n.span.start &&
        (m.variableType? (m.typeWithin (depthLimit - 1)) v).any fun t => t.special == .int32

/-- A type in the scope of the name stops in front of the name. -/
def scopedBehind (m : FileModel) (n : Node) : Bool :=
  (m.scopeAt n.span.start).types.any fun i =>
    m.scopes.types.all fun c => c.declaration != i || c.span.stop ≤ n.span.start

/-- What is found out about the neighbours by running. -/
theorem exists_neighbours : ∃ f, SourceFile.parse "t.cs" neighbours = .ok f ∧ f.errors = [] ∧
    (∃ n ∈ f.nodes, n.kind = .identifierName ∧ (ofFile f).initializedObject? n.span = none ∧
      boundBehind (ofFile f) n "E" = true) ∧
    ∃ n ∈ f.nodes, n.kind = .identifierName ∧ (ofFile f).initializedObject? n.span = none ∧
      scopedBehind (ofFile f) n = true := by
  have hseen : ((SourceFile.parse "t.cs" neighbours).toOption.any fun f =>
      let name := fun (n : Node) =>
        n.kind == .identifierName && ((ofFile f).initializedObject? n.span).isNone
      f.errors.isEmpty && (f.nodes.any fun n => name n && boundBehind (ofFile f) n "E") &&
        f.nodes.any fun n => name n && scopedBehind (ofFile f) n) = true := by
    rw [neighbours, SourceFile.parse_ofList]
    decide +kernel
  obtain ⟨f, hf, hseen⟩ := SourceFile.exists_of_parse_any hseen
  simp only [Bool.and_eq_true, List.isEmpty_iff, List.any_eq_true, beq_iff_eq,
    Option.isNone_iff_eq_none] at hseen
  obtain ⟨⟨herrors, n, hn, ⟨hk, ho⟩, hbound⟩, n', hn', ⟨hk', ho'⟩, hscoped⟩ := hseen
  exact ⟨f, hf, herrors, ⟨n, hn, hk, ho, hbound⟩, n', hn', hk', ho', hscoped⟩

theorem variableIn?_of_boundBehind {m : FileModel} {n : Node} {name : String}
    (h : boundBehind m n name = true) : identifierName? n = some name ∧
      ∃ b v t, m.variableIn? name n.span.start = some (b, v) ∧ b.span.stop = n.span.start ∧
        m.variableType? (m.typeWithin (depthLimit - 1)) v = some t ∧ t.special = .int32 := by
  simp only [boundBehind, Bool.and_eq_true, beq_iff_eq, List.any_eq_true, List.all_eq_true,
    Bool.or_eq_true, Bool.not_eq_true'] at h
  obtain ⟨⟨hname, b, hb, hreaches, hsome⟩, hall⟩ := h
  refine ⟨hname, ?_⟩
  cases hfound : m.variableIn? name n.span.start with
  | none =>
    have hnone := List.findSome?_eq_none_iff.1 hfound b (Body.mem_around.2 ⟨hb, hreaches⟩)
    rw [Option.map_eq_none_iff] at hnone
    rw [hnone] at hsome
    cases hsome
  | some p =>
    obtain ⟨b', v⟩ := p
    obtain ⟨hb', hreaches', hv⟩ := mem_bodies_of_variableIn? hfound
    have hbehind := (hall b' hb').resolve_left (by simp [hreaches'])
    rw [hv, Option.all_some, Bool.and_eq_true, beq_iff_eq, Option.any_eq_true] at hbehind
    obtain ⟨hstop, t, ht, hspecial⟩ := hbehind
    exact ⟨b', v, t, rfl, hstop, ht, by simpa using hspecial⟩

/-! ### Names are bound in what encloses them -/

/-- Names are bound in the bodies and types that enclose them. The only others that are searched
stop where the name starts or, for types, where the innermost body starts. -/
theorem make_bindsIn {path source : String} {f : SourceFile} {files : List SourceFile}
    {scopes : FileScopes} {n : Node} (hparse : SourceFile.parse path source = .ok f)
    (hfile : (f, scopes) ∈ files.zip (Compilation.ofFiles files).files) (hn : n ∈ f.nodes)
    (hk : n.kind = .identifierName) :
    (make (Compilation.ofFiles files) scopes f).BindsIn f n := by
  obtain ⟨tokens, -, -, hf⟩ := SourceFile.exists_parsed hparse
  have hs := Compilation.recorded_of_mem hfile hf.kind
  exact ⟨fun _ steps hname hobject => typeWithin_name hk hname hobject steps,
    fun _ _ _ h => variable_enclosed hf hn hk h, types_enclosed hf hs hn hk⟩

/-- A name right behind the method whose parameter it stands for. -/
theorem make_bindsIn_neighbours :
    ∃ f n, SourceFile.parse "t.cs" neighbours = .ok f ∧
      (f, (ofFile f).scopes) ∈ [f].zip (Compilation.ofFiles [f]).files ∧ n ∈ f.nodes ∧
      n.kind = .identifierName ∧ (ofFile f).BindsIn f n := by
  obtain ⟨f, hparse, -, ⟨n, hn, hk, -⟩, -⟩ := exists_neighbours
  exact ⟨f, n, hparse, mem_zip_ofFile f, hn, hk, make_bindsIn hparse (mem_zip_ofFile f) hn hk⟩

/-- A name behind a method stands for a variable of the method, and the scope of a name inside the
method holds a class that stops where the method starts. -/
theorem neighbours_bound_from_outside :
    ∃ f, SourceFile.parse "t.cs" neighbours = .ok f ∧ f.errors = [] ∧
      (∃ n ∈ f.nodes, n.kind = .identifierName ∧ (ofFile f).initializedObject? n.span = none ∧
        ∃ name b v d t, identifierName? n = some name ∧
          (ofFile f).variableIn? name n.span.start = some (b, v) ∧
          (ofFile f).typeWithin depthLimit n = some t ∧ t.special = .int32 ∧
          b.DeclaredBy f (ofFile f).scopes d ∧ n ∉ d.descendants) ∧
      ∃ n ∈ f.nodes, n.kind = .identifierName ∧ (ofFile f).initializedObject? n.span = none ∧
        ∃ i ∈ ((ofFile f).scopeAt n.span.start).types,
          ∀ t, Records (ofFile f).scopes.types t i → n ∉ t.descendants := by
  obtain ⟨f, hparse, herrors, ⟨n, hn, hk, hobject, hbound⟩, n', hn', hk', hobject', hscoped⟩ :=
    exists_neighbours
  obtain ⟨tokens, -, -, hf⟩ := SourceFile.exists_parsed hparse
  obtain ⟨hname, b, v, t, hfound, hstop, ht, hspecial⟩ := variableIn?_of_boundBehind hbound
  have htype : (ofFile f).typeWithin depthLimit n = some t := by
    rw [depthLimit, typeWithin_name hk hname hobject, hfound]
    exact ht
  refine ⟨f, hparse, herrors, ⟨n, hn, hk, hobject, "E", b, v, ?_⟩, n', hn', hk', hobject', ?_⟩
  · obtain ⟨hbody | ⟨d, hd⟩, hiff⟩ := variable_enclosed hf hn hk hfound
    · -- The body would be that of the file, and the file does not stop in front of a name.
      rw [List.head?_eq_getElem?] at hbody
      have hns := Node.span_of_solid (solid_of_name hf hn hk)
      have hinside := Node.bounds_of_mem_descendants hn
      have hfile : b.span.stop = f.root.start + f.root.width := by
        rw [Body.span_ofFile_zero hbody]
        rfl
      omega
    · refine ⟨d, t, hname, hfound, htype, hspecial, hd, fun hmem => ?_⟩
      exact (hiff d hd).1 hmem (hd.1.symm ▸ hstop)
  · simp only [scopedBehind, List.any_eq_true, List.all_eq_true] at hscoped
    obtain ⟨i, hi, hall⟩ := hscoped
    refine ⟨i, hi, fun t ht hmem => ?_⟩
    obtain ⟨-, c, hc, hspan, hdeclaration⟩ := ht
    have hstop := hall c hc
    have hbehind := start_lt_stop_of_mem_descendants hf hn' hk' hmem
    simp only [hdeclaration, bne_self_eq_false, Bool.false_or, decide_eq_true_eq, hspan] at hstop
    omega

end FileModel

end PluginLint.Binding
