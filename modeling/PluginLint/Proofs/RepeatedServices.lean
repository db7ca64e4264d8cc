import Mathlib.Data.List.Nodup
import Mathlib.Data.Multiset.AddSub
import PluginLint.Proofs.Binding.Depth
import PluginLint.Proofs.Binding.FrameworkTypes
import PluginLint.Rules.Classes

/-!
# Services that are taken more than once

The services of a list of parameters are grouped by full name. A group has the type of its first
service and the names of all, so another order of the parameters gives the same full names with the
same names under each. It gives the same names for people only if a full name has no two of these.
-/
namespace PluginLint.Rules

/-- A parameter is a service if it is written with a type, this type is known and has the name of a
service, and the parameter has a name. -/
theorem serviceParameter?_eq_some_iff {model : SemanticModel} {p : Node} {t : TypeSymbol}
    {name : String} : serviceParameter? model p = some (t, name) ↔
      (p.findChild? NodeKind.isType).isSome ∧ model.typeOf p = some t ∧
        p.identifier?.map PlacedToken.text = some name ∧
        ∃ ending ∈ serviceEndings, ending.toList <:+ t.name.toList := by
  unfold serviceParameter?
  cases p.findChild? NodeKind.isType <;> cases model.typeOf p <;> cases p.identifier? <;>
    simp [isService, Text.endsWith, Option.ite_none_right_eq_some]
  grind

/-! ### Groups -/

/-- The services among the parameters of a list: types and names. -/
def services (model : SemanticModel) (list : Node) : List (TypeSymbol × String) :=
  (list.childrenOfKind .parameter).filterMap (serviceParameter? model)

/-- The names of the services of a full name. -/
def namesUnder (full : String) (s : List (TypeSymbol × String)) : List String :=
  (s.filter fun p => p.1.fullName == full).map Prod.snd

/-- The services of other full names. -/
def others (full : String) (s : List (TypeSymbol × String)) : List (TypeSymbol × String) :=
  s.filter fun p => p.1.fullName != full

/-- Groups with one more service. -/
def addService (groups : Groups) (p : TypeSymbol × String) : Groups := groups.add p.1 p.2

def groups (s : List (TypeSymbol × String)) : Groups := s.foldl addService []

/-- The groups of more than one name. -/
def shared (s : List (TypeSymbol × String)) : Groups :=
  (groups s).filter fun g => 2 ≤ g.2.length

section
variable {t u : TypeSymbol} {full other name : String} {s : List (TypeSymbol × String)}

theorem add_cons (t u : TypeSymbol) (name : String) (names : List String) (rest : Groups) :
    Groups.add u name ((t, names) :: rest) =
      if t.fullName = u.fullName then (t, names ++ [name]) :: rest
      else (t, names) :: Groups.add u name rest := by
  have hbeq : (t == u) = (t.fullName == u.fullName) := rfl
  simp only [Groups.add, hbeq, beq_iff_eq]

/-- A group takes the names of its type, and the others are added to those behind it. -/
theorem foldl_addService_cons (t : TypeSymbol) (names : List String) (rest : Groups)
    (s : List (TypeSymbol × String)) :
    s.foldl addService ((t, names) :: rest) =
      (t, names ++ namesUnder t.fullName s) :: (others t.fullName s).foldl addService rest := by
  induction s generalizing names rest with
  | nil => simp [namesUnder, others]
  | cons p s ih =>
    rw [List.foldl_cons, addService, add_cons]
    by_cases h : t.fullName = p.1.fullName
    · rw [if_pos h, ih]
      simp [namesUnder, others, h]
    · rw [if_neg h, ih]
      simp [namesUnder, others, Ne.symm h, addService]

/-- The first service begins a group that takes all names of its type. -/
theorem groups_cons (t : TypeSymbol) (name : String) (s : List (TypeSymbol × String)) :
    groups ((t, name) :: s) =
      (t, name :: namesUnder t.fullName s) :: groups (others t.fullName s) :=
  foldl_addService_cons t [name] [] s

/-- Induction along the groups: behind the first service, those of its type are left out. -/
theorem groups_induction {motive : List (TypeSymbol × String) → Prop} (nil : motive [])
    (cons : ∀ t name s, motive (others t.fullName s) → motive ((t, name) :: s)) : ∀ s, motive s
  | [] => nil
  | (t, name) :: s => cons t name s (groups_induction nil cons (others t.fullName s))
termination_by s => s.length
decreasing_by exact Nat.lt_succ_of_le (List.length_filter_le _ s)

/-- To ask for a full name, services of another one can be left out. -/
theorem filter_others (h : full ≠ other) :
    (others other s).filter (fun p => p.1.fullName == full) =
      s.filter fun p => p.1.fullName == full := by
  rw [others, List.filter_filter]
  refine List.filter_congr fun p _ => ?_
  by_cases hp : p.1.fullName = full <;> simp [hp, h]

theorem namesUnder_cons_self : namesUnder t.fullName ((t, name) :: s) =
    name :: namesUnder t.fullName s := by
  simp [namesUnder]

theorem namesUnder_cons_of_ne (h : full ≠ t.fullName) :
    namesUnder full ((t, name) :: s) = namesUnder full (others t.fullName s) := by
  rw [namesUnder, namesUnder, filter_others h, List.filter_cons_of_neg (by simpa using h.symm)]

/-- The first service of the full name of a type has this type. -/
def First (t : TypeSymbol) (s : List (TypeSymbol × String)) : Prop :=
  (s.find? fun p => p.1.fullName == t.fullName).map Prod.fst = some t

theorem First.mem (h : First t s) : ∃ name, (t, name) ∈ s := by
  obtain ⟨⟨u, name⟩, hfound, rfl⟩ := Option.map_eq_some_iff.1 h
  exact ⟨name, List.mem_of_find?_eq_some hfound⟩

theorem First.ne_of_others (h : First t (others full s)) : t.fullName ≠ full := by
  obtain ⟨name, hmem⟩ := h.mem
  simpa [others] using (List.mem_filter.1 hmem).2

theorem first_cons_of_eq (h : u.fullName = t.fullName) : First u ((t, name) :: s) ↔ u = t := by
  simp [First, h, eq_comm]

theorem first_cons_of_ne (h : u.fullName ≠ t.fullName) :
    First u ((t, name) :: s) ↔ First u (others t.fullName s) := by
  rw [First, First, ← List.head?_filter, ← List.head?_filter, filter_others h,
    List.filter_cons_of_neg (by simpa using h.symm)]

/-- There is a group for each full name, of the first type that has it and with all names. -/
theorem mem_groups {g : TypeSymbol × List String} :
    g ∈ groups s ↔ First g.1 s ∧ g.2 = namesUnder g.1.fullName s := by
  induction s using groups_induction with
  | nil => simp [groups, First]
  | cons t name s ih =>
    rw [groups_cons, List.mem_cons, ih]
    by_cases h : g.1.fullName = t.fullName
    · have hlater : ¬ First g.1 (others t.fullName s) := fun hfirst => hfirst.ne_of_others h
      rw [first_cons_of_eq h, Prod.ext_iff]
      simp only [hlater, false_and, or_false]
      refine and_congr_right fun ht => ?_
      rw [ht, namesUnder_cons_self]
    · have hhead : g ≠ (t, name :: namesUnder t.fullName s) := fun heq => h (by rw [heq])
      rw [first_cons_of_ne h, namesUnder_cons_of_ne h]
      simp only [hhead, false_or]

/-- The place of the first service of a full name. -/
def firstPlace (full : String) (s : List (TypeSymbol × String)) : Nat :=
  s.findIdx fun p => p.1.fullName == full

theorem firstPlace_cons (p : TypeSymbol × String) : firstPlace full (p :: s) =
    if p.1.fullName = full then 0 else firstPlace full s + 1 := by
  rw [firstPlace, List.findIdx_cons, cond_eq_ite]
  simp only [beq_iff_eq, firstPlace]

/-- What comes before among those that are left comes before among all. -/
theorem firstPlace_lt_of_others {full' : String} (h : full ≠ other) (h' : full' ≠ other)
    (hlt : firstPlace full (others other s) < firstPlace full' (others other s)) :
    firstPlace full s < firstPlace full' s := by
  induction s with
  | nil => exact hlt
  | cons p s ih =>
    rw [firstPlace_cons, firstPlace_cons]
    by_cases hp : p.1.fullName = other
    · rw [others, List.filter_cons_of_neg (by simp [hp])] at hlt
      rw [if_neg (hp ▸ h.symm), if_neg (hp ▸ h'.symm)]
      exact Nat.succ_lt_succ (ih hlt)
    · rw [others, List.filter_cons_of_pos (by simp [hp]), firstPlace_cons, firstPlace_cons] at hlt
      split_ifs at hlt ⊢
      · omega
      · exact Nat.succ_pos _
      · exact absurd hlt (Nat.not_lt_zero _)
      · exact Nat.succ_lt_succ (ih (Nat.lt_of_succ_lt_succ hlt))

/-- The groups come in the order of their first services. -/
theorem groups_pairwise (s : List (TypeSymbol × String)) :
    (groups s).Pairwise fun g h => firstPlace g.1.fullName s < firstPlace h.1.fullName s := by
  induction s using groups_induction with
  | nil => exact .nil
  | cons t name s ih =>
    have hne : ∀ g ∈ groups (others t.fullName s), g.1.fullName ≠ t.fullName := fun g hg =>
      (mem_groups.1 hg).1.ne_of_others
    rw [groups_cons, List.pairwise_cons]
    constructor
    · intro g hg
      rw [firstPlace_cons, firstPlace_cons, if_pos rfl, if_neg (hne g hg).symm]
      exact Nat.succ_pos _
    · refine ih.imp_of_mem fun {g h} hg hh hlt => ?_
      rw [firstPlace_cons, firstPlace_cons, if_neg (hne g hg).symm, if_neg (hne h hh).symm]
      exact Nat.succ_lt_succ (firstPlace_lt_of_others (hne g hg) (hne h hh) hlt)

theorem mem_shared {g : TypeSymbol × List String} :
    g ∈ shared s ↔ First g.1 s ∧ g.2 = namesUnder g.1.fullName s ∧ 2 ≤ g.2.length := by
  rw [shared, List.mem_filter, mem_groups, decide_eq_true_iff, and_assoc]

theorem shared_pairwise (s : List (TypeSymbol × String)) :
    (shared s).Pairwise fun g h => firstPlace g.1.fullName s < firstPlace h.1.fullName s :=
  (groups_pairwise s).filter _

/-! ### Other orders -/

theorem nodup_shared (s : List (TypeSymbol × String)) :
    ((shared s).map fun g => g.1.fullName).Nodup := by
  refine List.pairwise_map.2 ((shared_pairwise s).imp fun {g h} hlt heq => ?_)
  rw [heq] at hlt
  exact Nat.lt_irrefl _ hlt

theorem exists_find? {p : TypeSymbol × String} (hp : p ∈ s) : ∃ q ∈ s,
    q.1.fullName = p.1.fullName ∧ (s.find? fun r => r.1.fullName == p.1.fullName) = some q := by
  have hsome : (s.find? fun r => r.1.fullName == p.1.fullName).isSome :=
    List.find?_isSome.2 ⟨p, hp, by simp⟩
  obtain ⟨q, hq⟩ := Option.isSome_iff_exists.1 hsome
  exact ⟨q, List.mem_of_find?_eq_some hq, by simpa using List.find?_some hq, hq⟩

theorem mem_map_fullName_shared {full : String} :
    full ∈ (shared s).map (fun g => g.1.fullName) ↔ 2 ≤ (namesUnder full s).length := by
  simp only [List.mem_map, mem_shared]
  constructor
  · rintro ⟨g, ⟨-, hnames, htwo⟩, rfl⟩
    rwa [hnames] at htwo
  · intro htwo
    have hpos : 0 < (namesUnder full s).length := Nat.lt_of_lt_of_le Nat.zero_lt_two htwo
    obtain ⟨name, hname⟩ := List.exists_mem_of_length_pos hpos
    obtain ⟨p, hp, -⟩ := List.mem_map.1 hname
    obtain ⟨hmem, hfull⟩ := List.mem_filter.1 hp
    obtain rfl : p.1.fullName = full := beq_iff_eq.1 hfull
    obtain ⟨q, -, hq, hfirst⟩ := exists_find? hmem
    rw [← hq] at hfirst htwo ⊢
    exact ⟨(q.1, namesUnder q.1.fullName s), ⟨congrArg (Option.map Prod.fst) hfirst, rfl, htwo⟩,
      rfl⟩

/-- What types are called, with the names of each, in no order. -/
def bag (called : TypeSymbol → String) (s : List (TypeSymbol × String)) :
    Multiset (String × Multiset String) :=
  ((shared s).map fun g => (called g.1, (g.2 : Multiset String)) : List _)

/-- If all types of a full name are called the same, the full names and the names of the services
tell what is in the bag. -/
theorem bag_eq_map {called : TypeSymbol → String} {calledBy : String → String}
    (hcalled : ∀ p ∈ s, called p.1 = calledBy p.1.fullName) :
    bag called s = (((shared s).map fun g => g.1.fullName).map fun full =>
      (calledBy full, (namesUnder full s : Multiset String)) : List _) := by
  rw [bag, List.map_map, Multiset.coe_eq_coe]
  refine List.Perm.of_eq (List.map_congr_left fun g hg => ?_)
  obtain ⟨hfirst, hnames, -⟩ := mem_shared.1 hg
  obtain ⟨name, hmem⟩ := hfirst.mem
  rw [Function.comp_apply, hcalled _ hmem, hnames]

theorem namesUnder_perm {s' : List (TypeSymbol × String)} (h : s'.Perm s) (full : String) :
    (namesUnder full s').Perm (namesUnder full s) :=
  (h.filter _).map Prod.snd

theorem exists_calledBy {called : TypeSymbol → String}
    (hcalled : ∀ p ∈ s, ∀ q ∈ s, p.1.fullName = q.1.fullName → called p.1 = called q.1) :
    ∃ calledBy : String → String, ∀ p ∈ s, called p.1 = calledBy p.1.fullName := by
  refine ⟨fun full =>
    ((s.find? fun p => p.1.fullName == full).map fun p => called p.1).getD "", fun p hp => ?_⟩
  obtain ⟨q, hq, hname, hfirst⟩ := exists_find? hp
  simp only [hfirst, Option.map_some, Option.getD_some]
  exact hcalled p hp q hq hname.symm

theorem bag_eq_of_perm {called : TypeSymbol → String} {s' : List (TypeSymbol × String)}
    (hcalled : ∀ p ∈ s, ∀ q ∈ s, p.1.fullName = q.1.fullName → called p.1 = called q.1)
    (h : s'.Perm s) : bag called s' = bag called s := by
  obtain ⟨calledBy, hby⟩ := exists_calledBy hcalled
  have hfulls : ((shared s').map fun g => g.1.fullName).Perm
      ((shared s).map fun g => g.1.fullName) := by
    refine (List.perm_ext_iff_of_nodup (nodup_shared s') (nodup_shared s)).2 fun full => ?_
    rw [mem_map_fullName_shared, mem_map_fullName_shared, (namesUnder_perm h full).length_eq]
  have hnames : ∀ full, (namesUnder full s' : Multiset String) = namesUnder full s :=
    fun full => Multiset.coe_eq_coe.2 (namesUnder_perm h full)
  rw [bag_eq_map hby, bag_eq_map fun p hp => hby p (h.mem_iff.1 hp), Multiset.coe_eq_coe]
  simp only [hnames]
  exact hfulls.map _

/-- Two services of the same full name in front make a group that is called like the first. -/
theorem bag_cons_cons (called : TypeSymbol → String) {p q : TypeSymbol × String}
    (h : p.1.fullName = q.1.fullName) :
    bag called (p :: q :: s) =
      (called p.1, ↑(p.2 :: q.2 :: namesUnder p.1.fullName s)) ::ₘ
        bag called (others p.1.fullName s) := by
  have hothers : others p.1.fullName (q :: s) = others p.1.fullName s :=
    List.filter_cons_of_neg (by simp [h])
  have hnames : namesUnder p.1.fullName (q :: s) = q.2 :: namesUnder p.1.fullName s := by
    rw [h]
    exact namesUnder_cons_self
  rw [bag, shared, groups_cons, hnames, hothers, List.filter_cons_of_pos (by simp)]
  rfl

theorem exists_perm_cons_cons {α : Type} {a b : α} {l : List α} (ha : a ∈ l) (hb : b ∈ l)
    (hne : a ≠ b) : ∃ rest, (a :: b :: rest).Perm l := by
  obtain ⟨l₁, l₂, rfl⟩ := List.append_of_mem ha
  have hb : b ∈ l₁ ++ l₂ := by
    rcases List.mem_append.1 hb with hb | hb
    · exact List.mem_append_left l₂ hb
    · exact List.mem_append_right l₁ (List.mem_of_ne_of_mem hne.symm hb)
  obtain ⟨l₃, l₄, h⟩ := List.append_of_mem hb
  refine ⟨l₃ ++ l₄, .trans (.cons a ?_) List.perm_middle.symm⟩
  rw [h]
  exact List.perm_middle.symm

/-- The order does not matter if and only if services of the same full name are called the same. -/
theorem bag_perm_iff {called : TypeSymbol → String} :
    (∀ s', s'.Perm s → bag called s' = bag called s) ↔
      ∀ p ∈ s, ∀ q ∈ s, p.1.fullName = q.1.fullName → called p.1 = called q.1 := by
  refine ⟨fun h p hp q hq heq => ?_, fun h s' => bag_eq_of_perm h⟩
  by_cases hpq : p = q
  · rw [hpq]
  · obtain ⟨rest, hperm⟩ := exists_perm_cons_cons hp hq hpq
    have hbags : bag called (p :: q :: rest) = bag called (q :: p :: rest) :=
      (h _ hperm).trans (h _ (.trans (.swap p q rest) hperm)).symm
    have hnames : (p.2 :: q.2 :: namesUnder q.1.fullName rest : List String).Perm
        (q.2 :: p.2 :: namesUnder q.1.fullName rest) := .swap _ _ _
    rw [bag_cons_cons called heq, bag_cons_cons called heq.symm, heq, Multiset.coe_eq_coe.2 hnames,
      Multiset.cons_inj_left] at hbags
    exact congrArg Prod.fst hbags

/-! ### The rule -/

theorem repeatedServices_eq {model : SemanticModel} {n list : Node}
    (h : n.childOfKind? .parameterList = some list) :
    repeatedServices model n = (shared (services model list)).map fun g =>
      ⟨list.span, [g.1.displayName, Text.join ", " g.2]⟩ := by
  rw [repeatedServices, h]
  rfl

end

/-- The answers about a file that is bound alone. -/
def alone (f : SourceFile) : SemanticModel := (Binding.FileModel.ofFile f).toSemanticModel

/-- Two constructors with the same two parameters in both orders, which have one type written in two
ways, and one that takes a service twice with something else in between. -/
def writtenTwoWays : String :=
  "using System;interface IFooService<T>\x7b\x7dclass C\x7bC(IFooService<int?> a,IFooService<Nullable<int>> b)\x7b\x7d\x7dclass D\x7bD(IFooService<Nullable<int>> b,IFooService<int?> a)\x7b\x7d\x7dclass E\x7bE(IFooService<int> a,int b,IFooService<int> c)\x7b\x7d\x7d"

/-- In a file there is a constructor with these parameters, and this is what its one report says, with
the types that a model gives. -/
def saysIn (model : SemanticModel) (f : SourceFile) (parameters arguments : List String) : Bool :=
  f.nodes.any fun n => n.kind == .constructorDeclaration &&
    (n.childOfKind? .parameterList).any fun list =>
      (list.childrenOfKind .parameter).map Node.text == parameters &&
        repeatedServices model n == [⟨list.span, arguments⟩]

/-- What the report says in a file that is bound alone. -/
def saysOf (f : SourceFile) (parameters arguments : List String) : Bool :=
  saysIn (alone f) f parameters arguments

theorem exists_of_saysOf {f : SourceFile} {parameters arguments : List String}
    (h : saysOf f parameters arguments = true) :
    ∃ n list, n ∈ f.nodes ∧ n.kind = .constructorDeclaration ∧
      n.childOfKind? .parameterList = some list ∧
      (list.childrenOfKind .parameter).map Node.text = parameters ∧
      duplicateConstructorParameterType.check ⟨f, alone f⟩ n = .ok [⟨list.span, arguments⟩] := by
  simp only [saysOf, saysIn, List.any_eq_true, Bool.and_eq_true, Option.any_eq_true,
    beq_iff_eq] at h
  obtain ⟨n, hn, hkind, list, hlist, htexts, hreports⟩ := h
  exact ⟨n, list, hn, hkind, hlist, htexts, congrArg Except.ok hreports⟩

theorem saysOf_writtenTwoWays :
    ∃ f, SourceFile.parse "t.cs" writtenTwoWays = .ok f ∧ f.errors = [] ∧
      saysOf f ["IFooService<int?> a", "IFooService<Nullable<int>> b"]
        ["IFooService<int?>", "a, b"] ∧
      saysOf f ["IFooService<Nullable<int>> b", "IFooService<int?> a"]
        ["IFooService<Nullable<int>>", "b, a"] ∧
      saysOf f ["IFooService<int> a", "int b", "IFooService<int> c"]
        ["IFooService<int>", "a, c"] := by
  obtain ⟨f, hf, hseen⟩ := Binding.Compilation.exists_of_layOut "t.cs" writtenTwoWays (fun f c =>
      let model := (Binding.FileModel.make c (c.files.headD {}) f).toSemanticModel
      f.errors.isEmpty &&
        (saysIn model f ["IFooService<int?> a", "IFooService<Nullable<int>> b"]
            ["IFooService<int?>", "a, b"] &&
          (saysIn model f ["IFooService<Nullable<int>> b", "IFooService<int?> a"]
              ["IFooService<Nullable<int>>", "b, a"] &&
            saysIn model f ["IFooService<int> a", "int b", "IFooService<int> c"]
              ["IFooService<int>", "a, c"]))) (by
    rw [writtenTwoWays, SourceFile.parse_ofList]
    decide +kernel)
  rw [Bool.and_eq_true, Bool.and_eq_true, Bool.and_eq_true, List.isEmpty_iff] at hseen
  exact ⟨f, hf, hseen⟩

/-- A constructor gets a report for each full name that two services or more have. The reports come
in the order of the first services, whose types they show, with the names of all in the order of the
parameters. In another order the services make the same reports, but the same types are shown in all
orders if and only if services of the same full name have the same name for people. -/
theorem check_reports_shared (context : RuleContext) {n list : Node}
    (h : n.childOfKind? .parameterList = some list) :
    let s := services context.model list
    (∀ p t name, serviceParameter? context.model p = some (t, name) ↔
      (p.findChild? NodeKind.isType).isSome ∧ context.model.typeOf p = some t ∧
        p.identifier?.map PlacedToken.text = some name ∧
        ∃ ending ∈ serviceEndings, ending.toList <:+ t.name.toList) ∧
    (duplicateConstructorParameterType.check context n = .ok ((shared s).map fun g =>
      ⟨list.span, [g.1.displayName, Text.join ", " g.2]⟩)) ∧
    (∀ g, g ∈ shared s ↔ First g.1 s ∧ g.2 = namesUnder g.1.fullName s ∧ 2 ≤ g.2.length) ∧
    ((shared s).Pairwise fun g g' => firstPlace g.1.fullName s < firstPlace g'.1.fullName s) ∧
    (∀ s', s'.Perm s → bag TypeSymbol.fullName s' = bag TypeSymbol.fullName s) ∧
    ((∀ s', s'.Perm s → bag TypeSymbol.displayName s' = bag TypeSymbol.displayName s) ↔
      ∀ p ∈ s, ∀ q ∈ s, p.1.fullName = q.1.fullName → p.1.displayName = q.1.displayName) := by
  refine ⟨fun p t name => serviceParameter?_eq_some_iff, ?_, fun g => mem_shared,
    shared_pairwise _, fun s' => bag_eq_of_perm fun p _ q _ heq => heq, bag_perm_iff⟩
  exact congrArg Except.ok (repeatedServices_eq h)

theorem check_reports_shared_apart :
    ∃ f n list, SourceFile.parse "t.cs" writtenTwoWays = .ok f ∧ n ∈ f.nodes ∧
      n.childOfKind? .parameterList = some list ∧
      (list.childrenOfKind .parameter).map Node.text =
        ["IFooService<int> a", "int b", "IFooService<int> c"] ∧
      (shared (services (alone f) list)).map
          (fun g => (⟨list.span, [g.1.displayName, Text.join ", " g.2]⟩ : Violation)) =
        [⟨list.span, ["IFooService<int>", "a, c"]⟩] ∧
      ∀ s', s'.Perm (services (alone f) list) →
        bag TypeSymbol.fullName s' = bag TypeSymbol.fullName (services (alone f) list) := by
  obtain ⟨f, hf, -, -, -, hsays⟩ := saysOf_writtenTwoWays
  obtain ⟨n, list, hn, -, hlist, htexts, hcheck⟩ := exists_of_saysOf hsays
  obtain ⟨-, hreports, -, -, horder, -⟩ := check_reports_shared ⟨f, alone f⟩ hlist
  exact ⟨f, n, list, hf, hn, hlist, htexts, Except.ok.inj (hreports.symm.trans hcheck), horder⟩

/-- The report shows the type as the first parameter writes it, so it changes with the order. -/
theorem check_shows_first_writing :
    ∃ f c d l m, SourceFile.parse "t.cs" writtenTwoWays = .ok f ∧ f.errors = [] ∧
      c ∈ f.nodes ∧ c.kind = .constructorDeclaration ∧
      c.childOfKind? .parameterList = some l ∧
      (l.childrenOfKind .parameter).map Node.text =
        ["IFooService<int?> a", "IFooService<Nullable<int>> b"] ∧
      duplicateConstructorParameterType.check ⟨f, alone f⟩ c =
        .ok [⟨l.span, ["IFooService<int?>", "a, b"]⟩] ∧
      d ∈ f.nodes ∧ d.kind = .constructorDeclaration ∧
      d.childOfKind? .parameterList = some m ∧
      (m.childrenOfKind .parameter).map Node.text =
        ["IFooService<Nullable<int>> b", "IFooService<int?> a"] ∧
      duplicateConstructorParameterType.check ⟨f, alone f⟩ d =
        .ok [⟨m.span, ["IFooService<Nullable<int>>", "b, a"]⟩] := by
  obtain ⟨f, hf, herrors, hc, hd, -⟩ := saysOf_writtenTwoWays
  obtain ⟨c, l, hc⟩ := exists_of_saysOf hc
  obtain ⟨d, m, hd⟩ := exists_of_saysOf hd
  obtain ⟨hc, hckind, hl, hltexts, hlreports⟩ := hc
  exact ⟨f, c, d, l, m, hf, herrors, hc, hckind, hl, hltexts, hlreports, hd⟩

end PluginLint.Rules
