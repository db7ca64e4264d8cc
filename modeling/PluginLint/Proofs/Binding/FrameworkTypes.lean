import PluginLint.Binding.Compilation
import PluginLint.Grammar.Parse
import PluginLint.Proofs.Binding.Building

/-!
# Types of the framework behind those of the files

Declaring a type looks for one of the same full name among those that are there. The types of the
framework have names of their own, so each of them is declared anew, behind all types of the files,
unless a file has a type of the same name. This is so in particular where no type of a file stands in
a namespace. The type of a declaration does not depend on those that are built after it.
-/
namespace PluginLint.Binding

/-! ### A new type -/

theorem modify_push_size {α : Type} (a : Array α) (x : α) (f : α → α) :
    (a.push x).modify a.size f = a.push (f x) := by
  apply Array.toList_inj.1
  rw [Array.toList_modify, Array.toList_push, Array.toList_push, ← Array.length_toList,
    List.modify_eq_set_getElem?]
  simp

namespace Declarations

/-- A declared type is the one meant by a full name and a number of type parameters. -/
def Clashes (t : TypeDecl) (full : String) (arity : Nat) : Prop :=
  t.fullName = full ∧ t.arity = arity

theorem findExact?_eq_none_iff {d : Declarations} {full : String} {arity : Nat} :
    d.findExact? full arity = none ↔ ∀ t ∈ d.types, ¬Clashes t full arity := by
  simp [findExact?, Clashes, Array.findIdx?_eq_none_iff]

theorem declare_of_new {d : Declarations} {t : TypeDecl}
    (h : ∀ u ∈ d.types, ¬Clashes u t.fullName t.arity) :
    d.declare t = (d.types.size, { d with types := d.types.push t }) := by
  rw [declare, findExact?_eq_none_iff.2 h]

variable {types : Array TypeDecl} {extensions : Array (Nat × Member)}

theorem foldl_addBase (t : TypeDecl) (scope : Scope) (bases : List (TypeExpr × Bool)) :
    bases.foldl (fun d (type, isFirst) => addBase d types.size ⟨type, scope, isFirst⟩)
        ⟨types.push t, extensions⟩ =
      ⟨types.push { t with
        bases := t.bases ++ bases.map fun (type, isFirst) => ⟨type, scope, isFirst⟩ },
        extensions⟩ := by
  induction bases generalizing t with
  | nil => simp
  | cons b bases ih =>
    obtain ⟨type, isFirst⟩ := b
    rw [List.foldl_cons]
    dsimp only
    rw [addBase, modify_push_size, ih]
    simp

theorem foldl_addMember (t : TypeDecl) (scope : Scope) {members : List Member}
    (h : ∀ m ∈ members, m.isExtension = false) :
    members.foldl (fun d m => addMember d types.size (m.inScope scope))
        ⟨types.push t, extensions⟩ =
      ⟨types.push { t with members := t.members ++ members.map (·.inScope scope) },
        extensions⟩ := by
  induction members generalizing t with
  | nil => simp
  | cons m members ih =>
    obtain ⟨hm, hmembers⟩ := List.forall_mem_cons.1 h
    have hplain : (m.inScope scope).isExtension = false := hm
    rw [List.foldl_cons, addMember, modify_push_size, hplain, if_neg Bool.false_ne_true,
      ih _ hmembers]
    simp

end Declarations

/-! ### The types of the framework -/

namespace TypeStub

/-- A type of the framework, as it is declared at some place. -/
def declaration (t : TypeStub) (space : String) (i : Nat) : TypeDecl :=
  let scope : Scope := { space, imports := Framework.imports, types := [i] }
  { name := t.name
    space
    kind := t.kind
    typeParameters := t.typeParameters
    bases := t.bases.zipIdx.map fun (type, k) => ⟨type, scope, k == 0⟩
    members := t.members.map (·.inScope scope) }

/-- The full name of a type of the framework in a namespace. -/
def fullName (t : TypeStub) (space : String) : String := joinNames space t.name

def arity (t : TypeStub) : Nat := t.typeParameters.length

end TypeStub

namespace Framework

/-- The types of the framework in order, each with its namespace. -/
def stubs : List (String × TypeStub) := spaces.flatMap fun (space, types) => types.map (space, ·)

/-- Two types of the framework with names of their own. -/
def Apart (s t : String × TypeStub) : Prop :=
  ¬(s.2.fullName s.1 = t.2.fullName t.1 ∧ s.2.arity = t.2.arity)

/-- No member of a framework type is called as a member of other types. -/
theorem isExtension_of_mem_stubs {s : String × TypeStub} (hs : s ∈ stubs) {m : Member}
    (hm : m ∈ s.2.members) : m.isExtension = false := by
  have hall : ∀ s ∈ stubs, ∀ m ∈ s.2.members, m.isExtension = false := by decide +kernel
  exact hall s hs m hm

end Framework

namespace Declarations

open Framework

/-- No type is the same as one of the framework. -/
def Free (d : Declarations) (stubs : List (String × TypeStub)) : Prop :=
  ∀ s ∈ stubs, ∀ t ∈ d.types, ¬Clashes t (s.2.fullName s.1) s.2.arity

/-- The declarations with types of the framework behind them. -/
def append (d : Declarations) (stubs : List (String × TypeStub)) : Declarations :=
  { d with
    types := d.types ++
      (stubs.mapIdx fun i s => s.2.declaration s.1 (d.types.size + i)).toArray }

theorem addStub_of_new {d : Declarations} {s : String × TypeStub}
    (h : ∀ t ∈ d.types, ¬Clashes t (s.2.fullName s.1) s.2.arity)
    (hplain : ∀ m ∈ s.2.members, m.isExtension = false) :
    d.addStub s.1 s.2 =
      { d with types := d.types.push (s.2.declaration s.1 d.types.size) } := by
  rw [addStub, Collector.addType, declare_of_new h]
  dsimp only
  rw [foldl_addBase, foldl_addMember _ _ hplain]
  simp only [List.nil_append, List.map_map, TypeStub.declaration]
  rfl

theorem addFramework_eq_foldl (d : Declarations) :
    d.addFramework = stubs.foldl (fun d s => d.addStub s.1 s.2) d := by
  rw [addFramework, stubs, List.foldl_flatMap]
  simp only [List.foldl_map]

/-- Types with names of their own are declared one behind the other. -/
theorem foldl_addStub {l : List (String × TypeStub)} {d : Declarations} (hfree : d.Free l)
    (hapart : l.Pairwise Apart) (hplain : ∀ s ∈ l, ∀ m ∈ s.2.members, m.isExtension = false) :
    l.foldl (fun d s => d.addStub s.1 s.2) d = d.append l := by
  induction l generalizing d with
  | nil => simp [append]
  | cons s l ih =>
    rw [Free, List.forall_mem_cons] at hfree
    rw [List.pairwise_cons] at hapart
    rw [List.forall_mem_cons] at hplain
    have hrest : Free { d with types := d.types.push (s.2.declaration s.1 d.types.size) } l := by
      intro u hu t ht
      rcases Array.mem_push.1 ht with ht | rfl
      · exact hfree.2 u hu t ht
      · exact hapart.1 u hu
    rw [List.foldl_cons, addStub_of_new hfree.1 hplain.1, ih hrest hapart.2 hplain.2]
    simp [append, Nat.add_assoc, Nat.add_comm 1]

end Declarations

/-! ### Names of their own -/

theorem toList_joinNames {space : String} (h : space ≠ "") (name : String) :
    (joinNames space name).toList = space.toList ++ '.' :: name.toList := by
  rw [joinNames, if_neg (by simpa using h)]
  simp

/-- What stands behind the last dot of a text. -/
def behindDot (s : List Char) : List Char := (s.reverse.takeWhile (· != '.')).reverse

theorem behindDot_append {name : List Char} (h : '.' ∉ name) (space : List Char) :
    behindDot (space ++ '.' :: name) = name := by
  have hname : ∀ c ∈ name.reverse, (c != '.') = true := by
    intro c hc
    rw [bne_iff_ne]
    rintro rfl
    exact h (List.mem_reverse.1 hc)
  rw [behindDot, List.reverse_append, List.reverse_cons, List.append_assoc,
    List.takeWhile_append_of_pos hname]
  simp

/-- A name without a dot is read off a full name, and so is the namespace. -/
theorem joinNames_inj {space space' name name' : String} (hs : space ≠ "") (hs' : space' ≠ "")
    (hn : '.' ∉ name.toList) (hn' : '.' ∉ name'.toList)
    (h : joinNames space name = joinNames space' name') : space = space' ∧ name = name' := by
  have hlist := congrArg String.toList h
  rw [toList_joinNames hs, toList_joinNames hs'] at hlist
  have hname : name.toList = name'.toList := by
    rw [← behindDot_append hn space.toList, hlist, behindDot_append hn']
  rw [hname] at hlist
  exact ⟨String.toList_inj.1 (List.append_cancel_right hlist), String.toList_inj.1 hname⟩

namespace Framework

/-- The types of the framework have full names of their own, or different numbers of type
parameters. -/
theorem stubs_apart : stubs.Pairwise Apart := by
  have hnames : ∀ s ∈ spaces, s.2.Pairwise fun a b => ¬(a.name = b.name ∧ a.arity = b.arity) := by
    decide +kernel
  have hspaces : spaces.Pairwise fun a b => a.1 ≠ b.1 := by decide +kernel
  have hdots : ∀ s ∈ spaces, s.1 ≠ "" ∧ ∀ t ∈ s.2, '.' ∉ t.name.toList := by decide +kernel
  rw [stubs, List.pairwise_flatMap]
  refine ⟨fun s hs => List.pairwise_map.2 ?_, ?_⟩
  · obtain ⟨hspace, hplain⟩ := hdots s hs
    refine (hnames s hs).imp_of_mem fun ha hb hne hsame => hne ⟨?_, hsame.2⟩
    exact (joinNames_inj hspace hspace (hplain _ ha) (hplain _ hb) hsame.1).2
  · refine hspaces.imp_of_mem fun {s s'} hs hs' hne => ?_
    obtain ⟨hspace, hplain⟩ := hdots s hs
    obtain ⟨hspace', hplain'⟩ := hdots s' hs'
    rintro _ hx _ hy hsame
    obtain ⟨a, ha, rfl⟩ := List.mem_map.1 hx
    obtain ⟨b, hb, rfl⟩ := List.mem_map.1 hy
    exact hne (joinNames_inj hspace hspace' (hplain a ha) (hplain' b hb) hsame.1).1

theorem dot_mem_fullName {s : String × TypeStub} (hs : s ∈ stubs) :
    '.' ∈ (s.2.fullName s.1).toList := by
  have hspaces : ∀ s ∈ spaces, s.1 ≠ "" := by decide +kernel
  obtain ⟨space, hspace, hs⟩ := List.mem_flatMap.1 hs
  obtain ⟨t, -, rfl⟩ := List.mem_map.1 hs
  rw [TypeStub.fullName, toList_joinNames (hspaces space hspace)]
  simp

end Framework

namespace Declarations

/-- No type stands in a namespace or in another type. -/
def undotted (d : Declarations) : Bool := d.types.toList.all fun t => !t.fullName.toList.contains '.'

theorem free_of_undotted {d : Declarations} (h : d.undotted = true) : d.Free Framework.stubs := by
  intro s hs t ht hclash
  simp only [undotted, List.all_eq_true, Bool.not_eq_true', List.contains_eq_mem,
    decide_eq_false_iff_not] at h
  exact h t (Array.mem_toList_iff.2 ht) (hclash.1 ▸ Framework.dot_mem_fullName hs)

/-- The types of the framework stand behind all others, in their order. -/
theorem addFramework_eq_append {d : Declarations} (h : d.Free Framework.stubs) :
    d.addFramework = d.append Framework.stubs := by
  rw [addFramework_eq_foldl]
  exact foldl_addStub h Framework.stubs_apart fun _ hs _ => Framework.isExtension_of_mem_stubs hs

/-! ### Types built later -/

variable {d : Declarations} {order : List Nat}

theorem buildAll_append (d : Declarations) (fuel : Nat) (order later : List Nat) (w : Workshop) :
    ((d.buildAll fuel (order ++ later)).run w).2 =
      ((d.buildAll fuel later).run ((d.buildAll fuel order).run w).2).2 := by
  induction order generalizing w with
  | nil => rfl
  | cons i order ih => exact ih _

/-- A type that is finished stays as it is. -/
theorem symbolIn_append {i : Nat} {t : TypeDecl} (hi : i ∈ order) (ht : d.types[i]? = some t)
    (later : List Nat) : d.symbolIn (order ++ later) i = d.symbolIn order i := by
  have hbuilt : d.built (order ++ later) =
      ((d.buildAll (d.types.size + 1) later).run (d.built order)).2 := buildAll_append ..
  have hgrows : d.Grows [] (d.built order) (d.built (order ++ later)) := by
    rw [hbuilt]
    exact (buildAll_answers (d.begun_built order)).grows
  have hget := get_built hi ht
  have hkept := hgrows.kept i (.inr (.inl (by simp [hget])))
  rw [symbolIn, hkept, symbolIn]

/-- For the type of a declaration only those in front of it have to be built. -/
theorem buildSymbols_eq_upTo (d : Declarations) :
    d.buildSymbols =
      (List.range d.types.size).map fun i => d.symbolIn (List.range (i + 1)) i := by
  rw [buildSymbols_eq]
  refine List.map_congr_left fun i hi => ?_
  have hi := List.mem_range.1 hi
  obtain ⟨later, hlater⟩ : ∃ n, d.types.size = i + 1 + n := ⟨d.types.size - (i + 1), by omega⟩
  have ht : d.types[i]? = some d.types[i] := Array.getElem?_eq_getElem hi
  rw [hlater, List.range_add]
  exact symbolIn_append (List.mem_range.2 (Nat.lt_succ_self i)) ht _

end Declarations

namespace Compilation

/-- Files bound with the types of the framework put behind their own, and each type built as far as
it is needed. -/
def layOut (files : List SourceFile) : Compilation :=
  let (own, scopes) := collectAll (.ofFiles files) {} files
  let d := own.append Framework.stubs
  { declarations := d
    symbols := ((List.range d.types.size).map fun i => d.symbolIn (List.range (i + 1)) i).toArray
    files := scopes }

theorem ofFiles_eq_layOut {files : List SourceFile}
    (h : (collectAll (.ofFiles files) {} files).1.undotted = true) :
    ofFiles files = layOut files := by
  rw [ofFiles, layOut]
  dsimp only
  rw [Declarations.addFramework_eq_append (Declarations.free_of_undotted h),
    Declarations.buildSymbols_eq_upTo]

/-- What is found out about a file by laying its types out holds of the file bound alone. -/
theorem exists_of_layOut (path source : String) (p : SourceFile → Compilation → Bool)
    (h : ((SourceFile.parse path source).toOption.any fun f =>
      (collectAll (.ofFiles [f]) {} [f]).1.undotted && p f (layOut [f])) = true) :
    ∃ f, SourceFile.parse path source = .ok f ∧ p f (ofFiles [f]) = true := by
  obtain ⟨f, hf, h⟩ := SourceFile.exists_of_parse_any h
  rw [Bool.and_eq_true] at h
  exact ⟨f, hf, ofFiles_eq_layOut h.1 ▸ h.2⟩

end Compilation

end PluginLint.Binding
