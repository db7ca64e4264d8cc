import PluginLint.Proofs.Binding.Building

/-!
# Base types and the order of building

A class is based on the type of a declared class exactly if that type is finished when it is asked
for. This is so in every order of building if the base class does not lead back to the class, be it
only through type arguments. If it does, an order that begins with the base class leaves the class
with a base type that has nothing above it.
-/
namespace PluginLint

namespace Binding
open TypeSymbol Relation

namespace Declarations

/-! ### The base type among the bases -/

/-- A base becomes the base type or one more interface. -/
def sortBase (isClass : Bool) : Option TypeSymbol × List TypeSymbol → BaseDecl × TypeSymbol →
    Option TypeSymbol × List TypeSymbol
  | (base, interfaces), (b, t) =>
    if isClass && b.isFirst && base.isNone && isBaseClass t then (some t, interfaces)
    else (base, interfaces ++ [t])

theorem splitBases_eq (isClass : Bool) (bases : List (BaseDecl × TypeSymbol)) :
    splitBases isClass bases = bases.foldl (sortBase isClass) (none, []) := by
  cases bases <;> rfl

/-- The base type is the first type that can be one. -/
theorem fst_splitBases (isClass : Bool) (bases : List (BaseDecl × TypeSymbol)) :
    (splitBases isClass bases).1 =
      if isClass then (bases.find? fun (b, t) => b.isFirst && isBaseClass t).map Prod.snd
      else none := by
  have hall : ∀ (bases : List (BaseDecl × TypeSymbol)) (base : Option TypeSymbol)
      (interfaces : List TypeSymbol),
      (bases.foldl (sortBase isClass) (base, interfaces)).1 = base.or (if isClass then
        (bases.find? fun (b, t) => b.isFirst && isBaseClass t).map Prod.snd else none) := by
    intro bases
    induction bases with
    | nil => simp
    | cons entry bases ih =>
      intro base interfaces
      obtain ⟨b, t⟩ := entry
      rw [List.foldl_cons, List.find?_cons, sortBase]
      cases isClass <;> cases base <;> cases hfirst : b.isFirst <;> cases hbase : isBaseClass t <;>
        simp [ih, hfirst, hbase]
  rw [splitBases_eq, hall, Option.none_or]

/-- Every base is the base type or an interface. -/
theorem length_splitBases (isClass : Bool) (bases : List (BaseDecl × TypeSymbol)) :
    (splitBases isClass bases).1.toList.length + (splitBases isClass bases).2.length =
      bases.length := by
  have hall : ∀ (bases : List (BaseDecl × TypeSymbol)) (base : Option TypeSymbol)
      (interfaces : List TypeSymbol),
      (bases.foldl (sortBase isClass) (base, interfaces)).1.toList.length +
        (bases.foldl (sortBase isClass) (base, interfaces)).2.length =
          base.toList.length + interfaces.length + bases.length := by
    intro bases
    induction bases with
    | nil => simp
    | cons entry bases ih =>
      intro base interfaces
      obtain ⟨b, t⟩ := entry
      rw [List.foldl_cons, sortBase]
      split
      · rename_i hb
        have hnone : base = none := by
          simp only [Bool.and_eq_true, Option.isNone_iff_eq_none] at hb
          exact hb.1.2
        simp [ih, hnone]
        omega
      · simp [ih]
        omega
  simpa [splitBases_eq] using hall bases none []

/-! ### Who extends whom -/

/-- A class or a record. -/
def isClassAt (d : Declarations) (i : Nat) : Bool :=
  (d.types[i]?).any fun t => t.kind == .classType || t.kind == .recordType

/-- The base that gives a class its base type: the first of a list that can be extended. -/
def baseDecl? (d : Declarations) (i : Nat) : Option BaseDecl :=
  if d.isClassAt i then
    (d.basesAt i).find? fun b => b.isFirst && isBaseClass (d.resolveWith d.shellAt b.scope b.type)
  else none

/-- The declaration that the base type of a class names. -/
def baseClass? (d : Declarations) (i : Nat) : Option Nat :=
  (d.baseDecl? i).bind fun b => d.head? b.scope b.type

/-- The declarations that the bases of one name, apart from their type arguments. -/
def heads (d : Declarations) (i : Nat) : List Nat :=
  (d.basesAt i).filterMap fun b => d.head? b.scope b.type

/-- The base type of a class is written as `b`, which names the declaration `e`. -/
def Extends (d : Declarations) (i : Nat) (b : BaseDecl) (e : Nat) : Prop :=
  d.baseDecl? i = some b ∧ d.head? b.scope b.type = some e

/-- The second declaration is the first, or declares a type above it. -/
def Descends (d : Declarations) : Nat → Nat → Prop := ReflTransGen fun i e => ∃ b, d.Extends i b e

/-- The base type is the type of the declaration that is named, with all that is above it, and it
goes by the name that was written. -/
def Inherits (d : Declarations) (σ : Nat → TypeSymbol) (i : Nat) (b : BaseDecl) (e : Nat) : Prop :=
  ∃ arguments, (σ i).base = some { σ e with arguments } ∧
    fullName { σ e with arguments } = (d.resolveWith σ b.scope b.type).fullName

section
variable {d : Declarations} {i : Nat} {b : BaseDecl} {σ : Nat → TypeSymbol}

theorem isClassAt_of_baseDecl? (h : d.baseDecl? i = some b) : d.isClassAt i = true := by
  unfold baseDecl? at h
  split at h
  · assumption
  · cases h

theorem mem_basesAt_of_baseDecl? (h : d.baseDecl? i = some b) : b ∈ d.basesAt i := by
  rw [baseDecl?, if_pos (isClassAt_of_baseDecl? h)] at h
  exact List.mem_of_find?_eq_some h

theorem Extends.baseClass?_eq {e : Nat} (h : d.Extends i b e) : d.baseClass? i = some e := by
  rw [baseClass?, h.1]
  exact h.2

theorem lt_of_mem_heads {j : Nat} (h : j ∈ d.heads i) : i < d.types.size := by
  obtain ⟨b, hb, -⟩ := List.mem_filterMap.1 h
  by_contra hi
  have houtside : d.types[i]? = none := Array.getElem?_eq_none (Nat.not_lt.1 hi)
  simp [basesAt, houtside] at hb

theorem isBaseClass_of_baseDecl? (h : d.baseDecl? i = some b)
    (hσ : ∀ k, (σ k).bare = (d.shellAt k).bare) :
    isBaseClass (d.resolveWith σ b.scope b.type) = true := by
  rw [baseDecl?, if_pos (isClassAt_of_baseDecl? h)] at h
  have hb := List.find?_some h
  rw [isBaseClass_congr (bare_resolveWith hσ b.type)]
  simp only [Bool.and_eq_true] at hb
  exact hb.2

theorem bare_symbolWith (σ : Nat → TypeSymbol) (i : Nat) :
    (d.symbolWith σ i).bare = (d.shellAt i).bare := by
  unfold symbolWith shellAt
  cases d.types[i]? with
  | none => rfl
  | some t => simp [assemble, bare_eq]

/-- What a declaration is based on. -/
theorem base_symbolWith {t : TypeDecl} (ht : d.types[i]? = some t)
    (hσ : ∀ k, (σ k).bare = (d.shellAt k).bare) :
    (d.symbolWith σ i).base =
      match d.baseDecl? i with
      | some b => some (d.resolveWith σ b.scope b.type)
      | none => if d.isClassAt i && (shell t).special != .object then some (.ofSpecial .object)
          else none := by
  have hclass : (t.kind == .classType || t.kind == .recordType) = d.isClassAt i := by
    simp [isClassAt, ht]
  have hfind : ((d.basesWith σ i).find? fun (b, u) => b.isFirst && isBaseClass u).map Prod.snd =
      ((d.basesAt i).find? fun b => b.isFirst &&
        isBaseClass (d.resolveWith d.shellAt b.scope b.type)).map
          fun b => d.resolveWith σ b.scope b.type := by
    have hsame : ∀ b : BaseDecl, isBaseClass (d.resolveWith σ b.scope b.type) =
        isBaseClass (d.resolveWith d.shellAt b.scope b.type) := fun b =>
      isBaseClass_congr (bare_resolveWith hσ b.type)
    rw [basesWith, List.find?_map, Option.map_map]
    simp only [Function.comp_def, hsame]
  rw [symbolWith, ht]
  simp only [assemble, fst_splitBases, hclass, hfind, baseDecl?]
  by_cases hc : d.isClassAt i = true
  · simp only [hc, if_true]
    cases ((d.basesAt i).find? fun b => b.isFirst &&
      isBaseClass (d.resolveWith d.shellAt b.scope b.type)) <;> rfl
  · simp [hc]

/-- A declaration with bases is not the same without them. -/
theorem symbolWith_ne_shell (hbases : d.basesAt i ≠ []) :
    (d.symbolWith σ i).base ≠ none ∨ (d.symbolWith σ i).interfaces ≠ [] := by
  cases ht : d.types[i]? with
  | none => simp [basesAt, ht] at hbases
  | some t =>
    by_contra hnone
    push Not at hnone
    obtain ⟨hbase, hinterfaces⟩ := hnone
    simp only [symbolWith, ht, assemble] at hbase hinterfaces
    have hlength := length_splitBases (t.kind == .classType || t.kind == .recordType)
      (d.basesWith σ i)
    rw [hinterfaces] at hlength
    split at hbase
    · cases hbase
    · rename_i hfirst
      rw [hfirst] at hlength
      exact hbases (List.map_eq_nil_iff.1 (List.eq_nil_of_length_eq_zero hlength.symm))

theorem shell_plain (t : TypeDecl) : (shell t).base = none ∧ (shell t).interfaces = [] := by
  unfold shell
  simp only
  split <;> exact ⟨rfl, rfl⟩

theorem shellAt_plain (d : Declarations) (k : Nat) :
    (d.shellAt k).base = none ∧ (d.shellAt k).interfaces = [] := by
  unfold shellAt
  cases d.types[k]? with
  | none => exact ⟨rfl, rfl⟩
  | some t => exact shell_plain t

theorem exists_of_isClassAt (h : d.isClassAt i = true) : ∃ t, d.types[i]? = some t := by
  cases ht : d.types[i]? with
  | none => simp [isClassAt, ht] at h
  | some t => exact ⟨t, rfl⟩

theorem basesAt_ne_nil_of_leads {e : Nat} (h : d.Extends i b e) (hleads : d.Leads e i) :
    d.basesAt e ≠ [] := by
  rcases ReflTransGen.cases_head hleads with rfl | ⟨j, hj, -⟩
  · exact List.ne_nil_of_mem (mem_basesAt_of_baseDecl? h.1)
  · obtain ⟨b', hb', -⟩ := List.mem_flatMap.1 hj
    exact List.ne_nil_of_mem hb'

end

/-! ### Orders of building -/

section
variable {d : Declarations} {order : List Nat} {i e : Nat} {b : BaseDecl}

theorem mem_of_perm (hperm : order.Perm (List.range d.types.size)) {t : TypeDecl}
    (ht : d.types[i]? = some t) : i ∈ order := by
  obtain ⟨hlt, -⟩ := Array.getElem?_eq_some_iff.1 ht
  exact hperm.mem_iff.2 (List.mem_range.2 hlt)

theorem bare_symbolIn (hperm : order.Perm (List.range d.types.size)) (k : Nat) :
    (d.symbolIn order k).bare = (d.shellAt k).bare := by
  cases ht : d.types[k]? with
  | none =>
    have hget := (d.built_grows order).kept k (.inr (.inr ht))
    have hnone : (d.built order).get k = none := hget
    simp [symbolIn, hnone, shellAt, ht]
  | some t =>
    obtain ⟨begun, -, hsymbol⟩ := exists_symbolIn_eq (mem_of_perm hperm ht) ht
    rw [hsymbol, bare_symbolWith]

theorem bare_taken (hperm : order.Perm (List.range d.types.size)) (begun : List Nat) (k : Nat) :
    (if k ∈ begun then d.shellAt k else d.symbolIn order k).bare = (d.shellAt k).bare := by
  split
  · rfl
  · exact bare_symbolIn hperm k

/-- A base class that does not lead back is finished first. -/
theorem inherits_of_not_leads (hperm : order.Perm (List.range d.types.size))
    (h : d.Extends i b e) (hleads : ¬d.Leads e i) : d.Inherits (d.symbolIn order) i b e := by
  obtain ⟨t, ht⟩ := exists_of_isClassAt (isClassAt_of_baseDecl? h.1)
  obtain ⟨begun, hbegun, hsymbol⟩ := exists_symbolIn_eq (mem_of_perm hperm ht) ht
  have hbare := bare_taken hperm begun
  have he : e ∉ begun := fun hmem => hleads (hbegun e hmem)
  obtain ⟨arguments, hbase⟩ := resolveWith_of_head? h.2 (isBaseClass_of_baseDecl? h.1 hbare)
  rw [if_neg he] at hbase
  refine ⟨arguments, ?_, ?_⟩
  · conv_lhs => rw [hsymbol]
    rw [base_symbolWith ht hbare, h.1]
    exact congrArg some hbase
  · rw [← hbase]
    exact fullName_congr
      (bare_resolveWith (fun k => (hbare k).trans (bare_symbolIn hperm k).symm) b.type)

/-- A base class that leads back and is begun first is taken without what it is based on. -/
theorem not_inherits_of_leads (hperm : (e :: order).Perm (List.range d.types.size))
    (h : d.Extends i b e) (hleads : d.Leads e i) :
    ¬d.Inherits (d.symbolIn (e :: order)) i b e := by
  obtain ⟨t, ht⟩ := exists_of_isClassAt (isClassAt_of_baseDecl? h.1)
  obtain ⟨begun, he, hsymbol⟩ := exists_symbolIn_cons_eq hleads ht order
  have hbare := bare_taken hperm begun
  obtain ⟨arguments, hbase⟩ := resolveWith_of_head? h.2 (isBaseClass_of_baseDecl? h.1 hbare)
  rw [if_pos he] at hbase
  rintro ⟨arguments', hinherits, -⟩
  rw [hsymbol, base_symbolWith ht hbare, h.1] at hinherits
  have hsame := hbase.symm.trans (Option.some.inj hinherits)
  -- The base type has nothing above it, but the base class has bases.
  have hbases := basesAt_ne_nil_of_leads h hleads
  obtain ⟨t', ht'⟩ : ∃ t', d.types[e]? = some t' := by
    cases ht' : d.types[e]? with
    | none => simp [basesAt, ht'] at hbases
    | some t' => exact ⟨t', rfl⟩
  obtain ⟨begun', -, hsymbol'⟩ := exists_symbolIn_eq (mem_of_perm hperm ht') ht'
  obtain ⟨hplain, hplain'⟩ := d.shellAt_plain e
  have hbase' : (d.symbolIn (e :: order) e).base = none := by
    rw [← hplain]
    exact (congrArg TypeSymbol.base hsame).symm
  have hinterfaces : (d.symbolIn (e :: order) e).interfaces = [] := by
    rw [← hplain']
    exact (congrArg TypeSymbol.interfaces hsame).symm
  rw [hsymbol'] at hbase' hinterfaces
  rcases symbolWith_ne_shell hbases with hne | hne
  · exact hne hbase'
  · exact hne hinterfaces

/-- A class inherits all that its base class has, whatever is built first, exactly if the base class
does not lead back to it. -/
theorem inherits_iff_not_leads (h : d.Extends i b e) :
    (∀ order, order.Perm (List.range d.types.size) → d.Inherits (d.symbolIn order) i b e) ↔
      ¬d.Leads e i := by
  constructor
  · intro hall hleads
    have he : e ∈ List.range d.types.size := List.mem_range.2 (inside_head? b.scope b.type e h.2)
    have hperm := (List.perm_cons_erase he).symm
    exact not_inherits_of_leads hperm h hleads (hall _ hperm)
  · intro hleads order hperm
    exact inherits_of_not_leads hperm h hleads

end

end Declarations

end Binding

end PluginLint
