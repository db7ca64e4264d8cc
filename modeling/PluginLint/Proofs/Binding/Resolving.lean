import PluginLint.Binding.Symbols

/-!
# What a written type asks for

To resolve a written type is to ask for the types of some declarations: of the one that it names, and
of those that its type arguments name. Nothing else about the other declarations matters. Leaving out
what types are based on changes neither their names nor what they are.
-/
namespace PluginLint

namespace TypeSymbol

/- Types apart from what they are based on. -/
mutual

/-- The type without what it and its type arguments are based on. -/
def bare : TypeSymbol → TypeSymbol
  | ⟨name, space, kind, special, _, _, arguments⟩ =>
    ⟨name, space, kind, special, none, [], bareAll arguments⟩

def bareAll : List TypeSymbol → List TypeSymbol
  | [] => []
  | t :: ts => bare t :: bareAll ts

end

theorem bare_eq (t : TypeSymbol) :
    t.bare = { t with base := none, interfaces := [], arguments := bareAll t.arguments } := by
  cases t
  simp [bare]

theorem bare_congr {t u : TypeSymbol} (h : t.bare = u.bare) :
    t.name = u.name ∧ t.space = u.space ∧ t.kind = u.kind ∧ t.special = u.special ∧
      bareAll t.arguments = bareAll u.arguments := by
  simpa [bare_eq] using h

@[simp] theorem length_bareAll (ts : List TypeSymbol) : (bareAll ts).length = ts.length := by
  induction ts with
  | nil => rfl
  | cons t ts ih => simp [bareAll, ih]

theorem length_of_bareAll {ts us : List TypeSymbol} (h : bareAll ts = bareAll us) :
    ts.length = us.length := by
  rw [← length_bareAll ts, h, length_bareAll]

mutual

theorem fullName_bare : ∀ t : TypeSymbol, t.bare.fullName = t.fullName
  | ⟨name, space, kind, special, base, interfaces, arguments⟩ => by
    simp only [bare, fullName, fullNames_bareAll arguments]

theorem fullNames_bareAll : ∀ ts : List TypeSymbol, fullNames (bareAll ts) = fullNames ts
  | [] => rfl
  | t :: ts => by simp only [bareAll, fullNames, fullName_bare t, fullNames_bareAll ts]

end

/-- Types that differ in what they are based on have the same name. -/
theorem fullName_congr {t u : TypeSymbol} (h : t.bare = u.bare) : t.fullName = u.fullName := by
  rw [← fullName_bare t, h, fullName_bare]

end TypeSymbol

namespace Binding
open TypeSymbol

theorem isEmpty_congr {α β : Type} {as : List α} {bs : List β} (h : as.length = bs.length) :
    as.isEmpty = bs.isEmpty := by
  rw [Bool.eq_iff_iff, List.isEmpty_iff_length_eq_zero, List.isEmpty_iff_length_eq_zero, h]

theorem isBaseClass_congr {t u : TypeSymbol} (h : t.bare = u.bare) :
    Declarations.isBaseClass t = Declarations.isBaseClass u := by
  obtain ⟨hname, -, hkind, -, -⟩ := bare_congr h
  simp only [Declarations.isBaseClass, hname, hkind]

theorem bare_instantiate (t : TypeSymbol) (arguments : List TypeSymbol) :
    (instantiate t arguments).bare =
      if arguments.isEmpty then t.bare else { t.bare with arguments := bareAll arguments } := by
  unfold instantiate
  split <;> simp [bare_eq]

theorem instantiate_congr {t u : TypeSymbol} {ts us : List TypeSymbol} (h : t.bare = u.bare)
    (hs : bareAll ts = bareAll us) : (instantiate t ts).bare = (instantiate u us).bare := by
  have hlength := length_of_bareAll hs
  have hempty := isEmpty_congr hlength
  rw [bare_instantiate, bare_instantiate, h, hs, hempty]

theorem isValueLike_congr {t u : TypeSymbol} (h : t.bare = u.bare) :
    isValueLike t = isValueLike u := by
  obtain ⟨-, -, hkind, hspecial, harguments⟩ := bare_congr h
  simp only [isValueLike, isNullable, hkind, hspecial, length_of_bareAll harguments]

theorem orMissing_congr {t u : TypeSymbol} (h : t.bare = u.bare) :
    (orMissing t).bare = (orMissing u).bare := by
  unfold orMissing
  rw [isValueLike_congr h]
  split
  · simpa [nullableOf, bare_eq, bareAll] using bare_congr h
  · exact h

theorem nestArrays_congr {t u : TypeSymbol} (h : t.bare = u.bare) (ranks : Nat) :
    (nestArrays ranks t).bare = (nestArrays ranks u).bare := by
  induction ranks generalizing t u with
  | zero => exact h
  | succ ranks ih =>
    have harray : (arrayOf t).bare = (arrayOf u).bare := by
      simpa [arrayOf, bare_eq, bareAll] using bare_congr h
    exact ih harray

namespace Declarations

/-! ### Names lead to declarations -/

/-- What was found, if anything, is the place of a declaration. -/
def Inside (d : Declarations) (found : Option Nat) : Prop := ∀ k, found = some k → k < d.types.size

section
variable {d : Declarations}

theorem Inside.or {found found' : Option Nat} (h : d.Inside found) (h' : d.Inside found') :
    d.Inside (found.or found') := by
  cases found with
  | none => simpa using h'
  | some k => simpa using h

theorem Inside.findSome? {α : Type} {f : α → Option Nat} (h : ∀ a, d.Inside (f a))
    (candidates : List α) : d.Inside (candidates.findSome? f) := by
  intro k hk
  obtain ⟨a, -, ha⟩ := List.exists_of_findSome?_eq_some hk
  exact h a k ha

theorem inside_prefer (arity : Nat) (p : TypeDecl → Bool) :
    d.Inside (d.prefer arity (d.indicesWhere p)) := by
  have hcandidates : ∀ k ∈ d.indicesWhere p, k < d.types.size := fun k hk =>
    List.mem_range.1 (List.mem_filter.1 hk).1
  have hfind : d.Inside ((d.indicesWhere p).find? fun i => d.arityAt i == arity) := fun k hk =>
    hcandidates k (List.mem_of_find?_eq_some hk)
  exact hfind.or fun k hk => hcandidates k (List.mem_of_head? hk)

theorem inside_findQualified? (full : String) (arity : Nat) :
    d.Inside (d.findQualified? full arity) :=
  inside_prefer arity _

theorem inside_findAlias? (scope : Scope) (word : String) (complete : String → String)
    (arity : Nat) : d.Inside (d.findAlias? scope word complete arity) := by
  unfold findAlias?
  split
  · exact inside_findQualified? _ arity
  · exact fun k hk => nomatch hk

theorem inside_lookup? (name : String) (arity : Nat) (scope : Scope) :
    d.Inside (d.lookup? name arity scope) := by
  have hname : ∀ space, d.Inside (d.findQualified? (joinNames space name) arity) := fun space =>
    inside_findQualified? _ arity
  have htypes := Inside.findSome? (fun i => hname (d.fullNameAt i)) scope.types.reverse
  have hspaces := Inside.findSome? hname (enclosingNames scope.space)
  have himports := Inside.findSome? hname scope.imports.spaces
  exact (((htypes.or hspaces).or (inside_findAlias? scope name id arity)).or himports).or
    (inside_prefer arity _)

theorem inside_lookupDotted? (dotted : String) (arity : Nat) (scope : Scope) :
    d.Inside (d.lookupDotted? dotted arity scope) := by
  have hname : ∀ space, d.Inside (d.findQualified? (joinNames space dotted) arity) := fun space =>
    inside_findQualified? _ arity
  have hspaces := Inside.findSome? hname ((enclosingNames scope.space).filter fun s => !s.isEmpty)
  have himports := Inside.findSome? hname scope.imports.spaces
  refine (((inside_findQualified? dotted arity).or hspaces).or himports).or ?_
  intro k hk
  obtain ⟨⟨head, rest⟩, -, hk⟩ := Option.bind_eq_some_iff.1 hk
  refine (inside_findAlias? scope head _ arity).or ?_ k hk
  intro k hk
  obtain ⟨outer, -, hk⟩ := Option.bind_eq_some_iff.1 hk
  exact inside_findQualified? _ arity k hk

end

/-! ### Declarations in a written type -/

/-- The declaration that a written type names, apart from its type arguments. -/
def head? (d : Declarations) (scope : Scope) : TypeExpr → Option Nat
  | .name name arguments =>
    if arguments.isEmpty && (d.isTypeParameter name scope || name == "dynamic") then none
    else d.lookup? name arguments.length scope
  | .qualified dotted arguments => d.lookupDotted? dotted arguments.length scope
  | .nullable inner => head? d scope inner
  | .array element 0 => head? d scope element
  | _ => none

/- The declarations that are asked for. -/
mutual

/-- The declarations that a written type names, with those in its type arguments. -/
def mentions (d : Declarations) (scope : Scope) : TypeExpr → List Nat
  | .special _ => []
  | .nullable inner => mentions d scope inner
  | .array element _ => mentions d scope element
  | .tuple elements => mentionsAll d scope elements
  | .name name arguments =>
    mentionsAll d scope arguments ++ (d.head? scope (.name name arguments)).toList
  | .qualified dotted arguments =>
    mentionsAll d scope arguments ++ (d.head? scope (.qualified dotted arguments)).toList
  | .broken _ => []

def mentionsAll (d : Declarations) (scope : Scope) : List TypeExpr → List Nat
  | [] => []
  | t :: ts => mentions d scope t ++ mentionsAll d scope ts

end

theorem head?_mem_mentions {d : Declarations} {scope : Scope} {k : Nat} :
    ∀ {t : TypeExpr}, d.head? scope t = some k → k ∈ d.mentions scope t
  | .name name arguments, h => by simp [mentions, h]
  | .qualified dotted arguments, h => by simp [mentions, h]
  | .nullable inner, h => by
    rw [head?] at h
    rw [mentions]
    exact head?_mem_mentions h
  | .array element 0, h => by
    rw [head?] at h
    rw [mentions]
    exact head?_mem_mentions h

theorem inside_head? {d : Declarations} (scope : Scope) :
    ∀ t : TypeExpr, d.Inside (d.head? scope t)
  | .name name arguments => by
    rw [head?]
    split
    · exact fun k hk => nomatch hk
    · exact inside_lookup? name _ scope
  | .qualified dotted arguments => by
    rw [head?]
    exact inside_lookupDotted? dotted _ scope
  | .nullable inner => by
    rw [head?]
    exact inside_head? scope inner
  | .array element 0 => by
    rw [head?]
    exact inside_head? scope element
  | .special _ | .array _ (_ + 1) | .tuple _ | .broken _ => fun k hk => nomatch hk

/-- The type that a written type stands for when the types of the declarations are known. -/
def resolveWith (d : Declarations) (σ : Nat → TypeSymbol) (scope : Scope) (t : TypeExpr) :
    TypeSymbol :=
  Id.run (d.resolve (fun i => pure (σ i)) scope t)

def resolveAllWith (d : Declarations) (σ : Nat → TypeSymbol) (scope : Scope)
    (ts : List TypeExpr) : List TypeSymbol :=
  Id.run (d.resolveAll (fun i => pure (σ i)) scope ts)

section
variable (d : Declarations) (σ : Nat → TypeSymbol) (scope : Scope)

@[simp] theorem resolveWith_special (s : SpecialType) :
    d.resolveWith σ scope (.special s) = .ofSpecial s := by
  simp [resolveWith, resolve]

@[simp] theorem resolveWith_nullable (inner : TypeExpr) :
    d.resolveWith σ scope (.nullable inner) = orMissing (d.resolveWith σ scope inner) := by
  simp [resolveWith, resolve]

@[simp] theorem resolveWith_array (element : TypeExpr) (ranks : Nat) :
    d.resolveWith σ scope (.array element ranks) =
      nestArrays ranks (d.resolveWith σ scope element) := by
  simp [resolveWith, resolve]

@[simp] theorem resolveWith_tuple (elements : List TypeExpr) :
    d.resolveWith σ scope (.tuple elements) =
      { name := "ValueTuple"
        space := some "System"
        kind := .structType
        arguments := d.resolveAllWith σ scope elements } := by
  simp [resolveWith, resolveAllWith, resolve]

@[simp] theorem resolveWith_broken (text : String) :
    d.resolveWith σ scope (.broken text) = .unresolved text := by
  simp [resolveWith, resolve]

@[simp] theorem resolveAllWith_nil : d.resolveAllWith σ scope [] = [] := by
  simp [resolveAllWith, resolveAll]

@[simp] theorem resolveAllWith_cons (t : TypeExpr) (ts : List TypeExpr) :
    d.resolveAllWith σ scope (t :: ts) =
      d.resolveWith σ scope t :: d.resolveAllWith σ scope ts := by
  simp [resolveWith, resolveAllWith, resolveAll]

end

/-! ### Names -/

/-- What a name stands for that is not the name of a declaration. -/
def undeclared (d : Declarations) (scope : Scope) : TypeExpr → List TypeSymbol → TypeSymbol
  | .name name _, arguments =>
    if arguments.isEmpty && d.isTypeParameter name scope then { name, kind := .typeParameter }
    else if arguments.isEmpty && name == "dynamic" then .ofSpecial .object
    else { unresolved name with arguments }
  | .qualified dotted _, arguments =>
    { unresolved (((Text.splitOn '.' dotted).getLast?).getD dotted) with arguments }
  | _, arguments => { unresolved "" with arguments }

/-- What a name with type arguments stands for. -/
def resolveHead {m : Type → Type} [Monad m] (d : Declarations) (symbol : Nat → m TypeSymbol)
    (scope : Scope) (t : TypeExpr) (arguments : List TypeSymbol) : m TypeSymbol :=
  match d.head? scope t with
  | some k => do return instantiate (← symbol k) arguments
  | none => pure (d.undeclared scope t arguments)

section
variable {m : Type → Type} [Monad m] {symbol : Nat → m TypeSymbol} {written : List TypeExpr}

theorem resolveName_eq (d : Declarations) (scope : Scope) (name : String)
    {arguments : List TypeSymbol} (h : arguments.length = written.length) :
    d.resolveName symbol scope name arguments =
      d.resolveHead symbol scope (.name name written) arguments := by
  have hempty := isEmpty_congr h.symm
  unfold resolveName resolveHead
  rw [head?, hempty, ← h, undeclared]
  by_cases harguments : arguments.isEmpty = true
  · by_cases hparameter : d.isTypeParameter name scope = true
    · simp [harguments, hparameter]
    · by_cases hdynamic : name = "dynamic"
      · subst hdynamic
        simp [harguments, hparameter]
      · cases d.lookup? name arguments.length scope <;> simp [harguments, hparameter, hdynamic]
  · cases d.lookup? name arguments.length scope <;> simp [harguments]

variable [LawfulMonad m]

/-- There are as many types as were written. -/
theorem resolveAll_bind_congr {α : Type} (d : Declarations) (scope : Scope)
    {f g : List TypeSymbol → m α} (h : ∀ ts, ts.length = written.length → f ts = g ts) :
    d.resolveAll symbol scope written >>= f = d.resolveAll symbol scope written >>= g := by
  induction written generalizing f g with
  | nil => simp [resolveAll, h []]
  | cons t written ih =>
    simp only [resolveAll, bind_assoc, pure_bind]
    refine bind_congr fun u => ih fun ts hts => ?_
    exact h (u :: ts) (by simp [hts])

/-- A simple name is resolved after its type arguments. -/
theorem resolve_name (d : Declarations) (symbol : Nat → m TypeSymbol) (scope : Scope)
    (name : String) (written : List TypeExpr) :
    d.resolve symbol scope (.name name written) =
      d.resolveAll symbol scope written >>= d.resolveHead symbol scope (.name name written) := by
  rw [resolve]
  exact resolveAll_bind_congr d scope fun ts hts => resolveName_eq d scope name hts

/-- A dotted name is resolved after its type arguments. -/
theorem resolve_qualified (d : Declarations) (symbol : Nat → m TypeSymbol) (scope : Scope)
    (dotted : String) (written : List TypeExpr) :
    d.resolve symbol scope (.qualified dotted written) =
      d.resolveAll symbol scope written >>=
        d.resolveHead symbol scope (.qualified dotted written) := by
  rw [resolve]
  refine resolveAll_bind_congr d scope fun ts hts => ?_
  rw [resolveHead, head?, ← hts]
  cases d.lookupDotted? dotted ts.length scope <;> rfl

end

section
variable (d : Declarations) (σ : Nat → TypeSymbol) (scope : Scope)

/-- What a name with type arguments stands for when the types of the declarations are known. -/
def headWith (t : TypeExpr) (arguments : List TypeSymbol) : TypeSymbol :=
  match d.head? scope t with
  | some k => instantiate (σ k) arguments
  | none => d.undeclared scope t arguments

theorem run_resolveHead (t : TypeExpr) (arguments : List TypeSymbol) :
    Id.run (d.resolveHead (fun i => pure (σ i)) scope t arguments) =
      d.headWith σ scope t arguments := by
  unfold resolveHead headWith
  cases d.head? scope t <;> rfl

@[simp] theorem resolveWith_name (name : String) (arguments : List TypeExpr) :
    d.resolveWith σ scope (.name name arguments) =
      d.headWith σ scope (.name name arguments) (d.resolveAllWith σ scope arguments) := by
  rw [resolveWith, resolve_name, Id.run_bind, run_resolveHead, resolveAllWith]

@[simp] theorem resolveWith_qualified (dotted : String) (arguments : List TypeExpr) :
    d.resolveWith σ scope (.qualified dotted arguments) =
      d.headWith σ scope (.qualified dotted arguments) (d.resolveAllWith σ scope arguments) := by
  rw [resolveWith, resolve_qualified, Id.run_bind, run_resolveHead, resolveAllWith]

end

/-! ### What matters about the declarations -/

section
variable {d : Declarations} {σ τ : Nat → TypeSymbol} {scope : Scope}

theorem headWith_congr {t : TypeExpr} (h : ∀ k, d.head? scope t = some k → σ k = τ k)
    (arguments : List TypeSymbol) :
    d.headWith σ scope t arguments = d.headWith τ scope t arguments := by
  unfold headWith
  cases hk : d.head? scope t with
  | none => rfl
  | some k => simp only [h k hk]

mutual

/-- Only the declarations that a written type names matter. -/
theorem resolveWith_congr : ∀ {t : TypeExpr}, (∀ k ∈ d.mentions scope t, σ k = τ k) →
    d.resolveWith σ scope t = d.resolveWith τ scope t
  | .special s, _ => by simp
  | .nullable inner, h => by
    rw [mentions] at h
    simp [resolveWith_congr h]
  | .array element ranks, h => by
    rw [mentions] at h
    simp [resolveWith_congr h]
  | .tuple elements, h => by
    rw [mentions] at h
    simp [resolveAllWith_congr h]
  | .name name arguments, h => by
    rw [mentions] at h
    have harguments := resolveAllWith_congr fun k hk => h k (List.mem_append_left _ hk)
    rw [resolveWith_name, resolveWith_name, harguments]
    refine headWith_congr (fun k hk => h k ?_) _
    simp [hk]
  | .qualified dotted arguments, h => by
    rw [mentions] at h
    have harguments := resolveAllWith_congr fun k hk => h k (List.mem_append_left _ hk)
    rw [resolveWith_qualified, resolveWith_qualified, harguments]
    refine headWith_congr (fun k hk => h k ?_) _
    simp [hk]
  | .broken text, _ => by simp

theorem resolveAllWith_congr : ∀ {ts : List TypeExpr}, (∀ k ∈ d.mentionsAll scope ts, σ k = τ k) →
    d.resolveAllWith σ scope ts = d.resolveAllWith τ scope ts
  | [], _ => by simp
  | t :: ts, h => by
    rw [mentionsAll] at h
    have hfirst := resolveWith_congr fun k hk => h k (List.mem_append_left _ hk)
    have hrest := resolveAllWith_congr fun k hk => h k (List.mem_append_right _ hk)
    simp [hfirst, hrest]

end

theorem bare_headWith (h : ∀ k, (σ k).bare = (τ k).bare) (t : TypeExpr)
    {ts us : List TypeSymbol} (hs : bareAll ts = bareAll us) :
    (d.headWith σ scope t ts).bare = (d.headWith τ scope t us).bare := by
  have hlength := length_of_bareAll hs
  have hempty := isEmpty_congr hlength
  unfold headWith
  cases d.head? scope t with
  | some k => exact instantiate_congr (h k) hs
  | none =>
    cases t with
    | name name arguments =>
      simp only [undeclared, hempty]
      split
      · rfl
      · split
        · rfl
        · simp [bare_eq, unresolved, hs]
    | _ => simp [undeclared, bare_eq, unresolved, hs]

mutual

/-- What the declared types are based on does not matter for the name. -/
theorem bare_resolveWith (h : ∀ k, (σ k).bare = (τ k).bare) :
    ∀ t : TypeExpr, (d.resolveWith σ scope t).bare = (d.resolveWith τ scope t).bare
  | .special s => by simp
  | .nullable inner => by simp [orMissing_congr (bare_resolveWith h inner)]
  | .array element ranks => by simp [nestArrays_congr (bare_resolveWith h element) ranks]
  | .tuple elements => by simp [bare_eq, bareAll_resolveAllWith h elements]
  | .name name arguments => by
    rw [resolveWith_name, resolveWith_name]
    exact bare_headWith h _ (bareAll_resolveAllWith h arguments)
  | .qualified dotted arguments => by
    rw [resolveWith_qualified, resolveWith_qualified]
    exact bare_headWith h _ (bareAll_resolveAllWith h arguments)
  | .broken text => by simp

theorem bareAll_resolveAllWith (h : ∀ k, (σ k).bare = (τ k).bare) : ∀ ts : List TypeExpr,
    bareAll (d.resolveAllWith σ scope ts) = bareAll (d.resolveAllWith τ scope ts)
  | [] => by simp
  | t :: ts => by
    simp [bareAll, bare_resolveWith h t, bareAll_resolveAllWith h ts]

end

end

/-! ### Written base types -/

/-- A type that has nothing above it: an unknown one, or one of those classes that the language gives
a meaning of its own. -/
def IsTop (t : TypeSymbol) : Prop :=
  t.kind = .unresolved ∨ ∃ name ∈ ["Object", "String", "Void"], t.isNamed "System" name = true

theorem isTop_ofSpecial {s : SpecialType} (h : isBaseClass (ofSpecial s) = true) :
    IsTop (ofSpecial s) := by
  cases s <;> first
    | exact .inr ⟨"Object", by simp, by decide⟩
    | exact .inr ⟨"String", by simp, by decide⟩
    | exact .inr ⟨"Void", by simp, by decide⟩
    | simp [isBaseClass, ofSpecial, SpecialType.isValueType] at h

section
variable {d : Declarations} {σ : Nat → TypeSymbol} {scope : Scope}

theorem exists_instantiate (t : TypeSymbol) (ts : List TypeSymbol) :
    ∃ arguments, instantiate t ts = { t with arguments } := by
  unfold instantiate
  split
  · cases t
    exact ⟨_, rfl⟩
  · exact ⟨ts, rfl⟩

theorem exists_headWith {k : Nat} {t : TypeExpr} (h : d.head? scope t = some k)
    (ts : List TypeSymbol) : ∃ arguments, d.headWith σ scope t ts = { σ k with arguments } := by
  rw [headWith, h]
  exact exists_instantiate (σ k) ts

theorem orMissing_of_isBaseClass {t : TypeSymbol} (h : isBaseClass (orMissing t) = true) :
    orMissing t = t := by
  unfold orMissing at h ⊢
  by_cases hvalue : isValueLike t = true
  · simp [hvalue, nullableOf, isBaseClass] at h
  · rw [if_neg hvalue]

theorem nestArrays_of_isBaseClass {t : TypeSymbol} {ranks : Nat}
    (h : isBaseClass (nestArrays ranks t) = true) : ranks = 0 := by
  have harray : ∀ (ranks : Nat) (t : TypeSymbol), t.kind = .arrayType →
      (nestArrays ranks t).kind = .arrayType := by
    intro ranks
    induction ranks with
    | zero => exact fun _ ht => ht
    | succ ranks ih => exact fun _ _ => ih _ rfl
  cases ranks with
  | zero => rfl
  | succ ranks => simp [nestArrays, isBaseClass, harray ranks (arrayOf t) rfl] at h

/-- A base type that names a declaration is the type of that declaration, apart from type
arguments. -/
theorem resolveWith_of_head? {k : Nat} : ∀ {t : TypeExpr}, d.head? scope t = some k →
    isBaseClass (d.resolveWith σ scope t) = true →
      ∃ arguments, d.resolveWith σ scope t = { σ k with arguments }
  | .name name arguments, h, _ => by
    rw [resolveWith_name]
    exact exists_headWith h _
  | .qualified dotted arguments, h, _ => by
    rw [resolveWith_qualified]
    exact exists_headWith h _
  | .nullable inner, h, hbase => by
    rw [head?] at h
    rw [resolveWith_nullable] at hbase ⊢
    have hsame := orMissing_of_isBaseClass hbase
    rw [hsame] at hbase ⊢
    exact resolveWith_of_head? h hbase
  | .array element 0, h, hbase => by
    rw [head?] at h
    rw [resolveWith_array, nestArrays] at hbase ⊢
    exact resolveWith_of_head? h hbase

/-- Any other base type has nothing above it. -/
theorem resolveWith_of_head?_eq_none : ∀ {t : TypeExpr}, d.head? scope t = none →
    isBaseClass (d.resolveWith σ scope t) = true →
      (d.resolveWith σ scope t).base = none ∧ IsTop (d.resolveWith σ scope t)
  | .special s, _, hbase => by
    rw [resolveWith_special] at hbase ⊢
    exact ⟨rfl, isTop_ofSpecial hbase⟩
  | .nullable inner, h, hbase => by
    rw [head?] at h
    rw [resolveWith_nullable] at hbase ⊢
    have hsame := orMissing_of_isBaseClass hbase
    rw [hsame] at hbase ⊢
    exact resolveWith_of_head?_eq_none h hbase
  | .array element ranks, h, hbase => by
    rw [resolveWith_array] at hbase ⊢
    obtain rfl := nestArrays_of_isBaseClass hbase
    rw [head?] at h
    exact resolveWith_of_head?_eq_none h hbase
  | .tuple elements, _, hbase => by simp [isBaseClass] at hbase
  | .name name arguments, h, hbase => by
    rw [resolveWith_name, headWith, h] at hbase ⊢
    simp only [undeclared] at hbase ⊢
    split at hbase
    · simp [isBaseClass] at hbase
    · rename_i hparameter
      rw [if_neg hparameter]
      split at hbase
      · rename_i hdynamic
        rw [if_pos hdynamic]
        exact ⟨rfl, isTop_ofSpecial hbase⟩
      · rename_i hdynamic
        rw [if_neg hdynamic]
        exact ⟨rfl, .inl rfl⟩
  | .qualified dotted arguments, h, _ => by
    rw [resolveWith_qualified, headWith, h]
    exact ⟨rfl, .inl rfl⟩
  | .broken text, _, _ => by
    rw [resolveWith_broken]
    exact ⟨rfl, .inl rfl⟩

end

end Declarations

end Binding

end PluginLint
