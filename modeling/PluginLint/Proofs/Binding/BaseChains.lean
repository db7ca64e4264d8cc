import PluginLint.Binding.Compilation
import PluginLint.Grammar.Parse
import PluginLint.Model.Hierarchy
import PluginLint.Proofs.Binding.BaseTypes
import PluginLint.Proofs.Binding.FrameworkTypes

/-!
# Base chains

Where no base class leads back to a class, the types above the class are those of all the classes
that it descends from, up to one that is not declared. The walk along base types meets all of them
unless two have the same full name.
-/
namespace PluginLint

namespace TypeSymbol

/-- The base type, its base type and so on. -/
def ascent (t : TypeSymbol) : List TypeSymbol :=
  match _h : t.base with
  | some b => b :: b.ascent
  | none => []
termination_by t.rank
decreasing_by
  rw [rank_eq t, _h, rankOption]
  omega

/-- The type and all above it, through base types only. -/
def lineage (t : TypeSymbol) : List TypeSymbol := t :: t.ascent

theorem ascent_of_base {t b : TypeSymbol} (h : t.base = some b) : t.ascent = b.lineage := by
  rw [ascent, lineage]
  split
  · rename_i b' hb
    rw [h] at hb
    cases hb
    rfl
  · rename_i hb
    rw [h] at hb
    cases hb

theorem ascent_of_base_eq_none {t : TypeSymbol} (h : t.base = none) : t.ascent = [] := by
  rw [ascent]
  split
  · rename_i b' hb
    rw [h] at hb
    cases hb
  · rfl

theorem ascent_congr {t u : TypeSymbol} (h : t.base = u.base) : t.ascent = u.ascent := by
  cases hu : u.base with
  | none => rw [ascent_of_base_eq_none hu, ascent_of_base_eq_none (h.trans hu)]
  | some b => rw [ascent_of_base hu, ascent_of_base (h.trans hu)]

theorem getLast?_lineage_of_base_eq_none {t : TypeSymbol} (h : t.base = none) :
    t.lineage.getLast? = some t := by
  rw [lineage, ascent_of_base_eq_none h]
  rfl

theorem getLast?_lineage_of_base {t b : TypeSymbol} (h : t.base = some b) :
    t.lineage.getLast? = b.lineage.getLast? := by
  rw [lineage, ascent_of_base h]
  rfl

theorem rank_of_base {t b : TypeSymbol} (h : t.base = some b) : b.rank < t.rank := by
  rw [rank_eq t, h, rankOption]
  omega

theorem rank_congr {t u : TypeSymbol} (h : t.base = u.base) (h' : t.interfaces = u.interfaces) :
    t.rank = u.rank := by
  rw [rank_eq t, rank_eq u, h, h']

theorem baseChainFrom_of_mem {seen : List String} {t : TypeSymbol} (h : t.fullName ∈ seen) :
    baseChainFrom seen t = [] := by
  rw [baseChainFrom, if_pos (List.contains_iff_mem.2 h)]

/-- The walk goes on with the base type, if there is one. -/
theorem baseChainFrom_of_not_mem {seen : List String} {t : TypeSymbol} (h : t.fullName ∉ seen) :
    baseChainFrom seen t = t :: t.base.toList.flatMap (baseChainFrom (t.fullName :: seen)) := by
  rw [baseChainFrom, if_neg (by simpa using h)]
  split
  · rename_i b hb
    simp [hb]
  · rename_i hb
    simp [hb]

/-- The walk meets no name twice. -/
theorem nodup_baseChainFrom (seen : List String) (t : TypeSymbol) :
    ((baseChainFrom seen t).map fullName).Nodup ∧
      ∀ u ∈ baseChainFrom seen t, u.fullName ∉ seen := by
  by_cases hseen : t.fullName ∈ seen
  · simp [baseChainFrom_of_mem hseen]
  · rw [baseChainFrom_of_not_mem hseen]
    cases hb : t.base with
    | none => simp [hseen]
    | some b =>
      have hrank := rank_of_base hb
      obtain ⟨hnodup, hnew⟩ := nodup_baseChainFrom (t.fullName :: seen) b
      rw [Option.toList_some, List.flatMap_singleton, List.map_cons, List.nodup_cons]
      refine ⟨⟨?_, hnodup⟩, List.forall_mem_cons.2 ⟨hseen, ?_⟩⟩
      · intro hmem
        obtain ⟨u, hu, hname⟩ := List.mem_map.1 hmem
        exact hnew u hu (hname ▸ List.mem_cons_self)
      · intro u hu hmem
        exact hnew u hu (List.mem_cons_of_mem _ hmem)
termination_by t.rank

theorem baseChainFrom_eq_lineage {seen : List String} {t : TypeSymbol}
    (hnodup : (t.lineage.map fullName).Nodup) (hnew : ∀ u ∈ t.lineage, u.fullName ∉ seen) :
    baseChainFrom seen t = t.lineage := by
  rw [baseChainFrom_of_not_mem (hnew t List.mem_cons_self)]
  cases hb : t.base with
  | none => simp [lineage, ascent_of_base_eq_none hb]
  | some b =>
    have hrank := rank_of_base hb
    rw [lineage, ascent_of_base hb] at hnodup hnew ⊢
    rw [List.map_cons, List.nodup_cons] at hnodup
    have hnew' : ∀ u ∈ b.lineage, u.fullName ∉ t.fullName :: seen := by
      intro u hu hmem
      rcases List.mem_cons.1 hmem with hname | hmem
      · exact hnodup.1 (hname ▸ List.mem_map_of_mem hu)
      · exact hnew u (List.mem_cons_of_mem t hu) hmem
    have ih := baseChainFrom_eq_lineage hnodup.2 hnew'
    simp [ih]
termination_by t.rank

/-- The walk meets all types above exactly if they have different names. -/
theorem baseChain_eq_lineage_iff (t : TypeSymbol) :
    t.baseChain = t.lineage ↔ (t.lineage.map fullName).Nodup := by
  constructor
  · intro h
    rw [← h]
    exact (nodup_baseChainFrom [] t).1
  · intro hnodup
    exact baseChainFrom_eq_lineage hnodup fun u _ => List.not_mem_nil

end TypeSymbol

namespace Binding
open TypeSymbol Relation

namespace Declarations

/-! ### Types with nothing above them -/

theorem IsTop.congr {t u : TypeSymbol} (h : IsTop t) (hname : u.name = t.name)
    (hspace : u.space = t.space) (hkind : u.kind = t.kind) : IsTop u := by
  simpa only [IsTop, isNamed, hname, hspace, hkind] using h

theorem IsTop.of_bare {t u : TypeSymbol} (h : IsTop t) (hbare : u.bare = t.bare) : IsTop u := by
  obtain ⟨hname, hspace, hkind, -, -⟩ := bare_congr hbare
  exact h.congr hname hspace hkind

/-- A declaration is one that the language gives a meaning of its own, or is what it declares. -/
theorem shell_cases (t : TypeDecl) :
    (∃ s, shell t = .ofSpecial s) ∨ ((shell t).kind = t.kind ∧ (shell t).special = .ordinary) := by
  unfold shell
  simp only
  split
  · exact .inl ⟨_, rfl⟩
  · exact .inr ⟨rfl, rfl⟩

theorem isTop_shell_of_object {t : TypeDecl} (h : (shell t).special = .object) :
    IsTop (shell t) := by
  rcases shell_cases t with ⟨s, hs⟩ | ⟨-, hordinary⟩
  · rw [hs] at h ⊢
    have hs' : s = .object := h
    subst hs'
    exact isTop_ofSpecial rfl
  · rw [hordinary] at h
    cases h

theorem isTop_shell_of_not_class {t : TypeDecl} (hbase : isBaseClass (shell t) = true)
    (h : (t.kind == .classType || t.kind == .recordType) = false) : IsTop (shell t) := by
  rcases shell_cases t with ⟨s, hs⟩ | ⟨hkind, -⟩
  · rw [hs] at hbase ⊢
    exact isTop_ofSpecial hbase
  · left
    rw [isBaseClass, hkind] at hbase
    rw [hkind]
    cases hk : t.kind <;> simp [hk] at h hbase ⊢

/-! ### Where all base types are complete -/

/-- A class and all that it descends from inherit what their base classes have. -/
def Complete (d : Declarations) (σ : Nat → TypeSymbol) (i : Nat) : Prop :=
  ∀ j b e, d.Descends i j → d.Extends j b e → d.Inherits σ j b e

section
variable {d : Declarations} {σ : Nat → TypeSymbol} {i e : Nat} {b : BaseDecl}

theorem Complete.up (h : d.Complete σ i) (he : d.Extends i b e) : d.Complete σ e :=
  fun j b' e' hj he' => h j b' e' (ReflTransGen.head ⟨b, he⟩ hj) he'

theorem Complete.ascent (h : d.Complete σ i) (he : d.Extends i b e) :
    ∃ arguments, (σ i).ascent = { σ e with arguments } :: (σ e).ascent := by
  obtain ⟨arguments, hbase, -⟩ := h i b e .refl he
  refine ⟨arguments, ?_⟩
  rw [ascent_of_base hbase, lineage]
  exact congrArg _ (ascent_congr rfl)

/-- Every class that one descends from is among the types above it. -/
theorem Complete.mem_lineage (h : d.Complete σ i) {a : Nat} (ha : d.Descends i a) :
    ∃ arguments, { σ a with arguments } ∈ (σ i).lineage := by
  have habove : ∀ {i e}, d.Complete σ i → (∃ b, d.Extends i b e) → d.Descends e a →
      ∃ arguments, { σ a with arguments } ∈ (σ i).ascent := by
    intro i e hi he hdescends
    induction hdescends using ReflTransGen.head_induction_on generalizing i with
    | refl =>
      obtain ⟨b, he⟩ := he
      obtain ⟨arguments, hascent⟩ := hi.ascent he
      exact ⟨arguments, hascent ▸ List.mem_cons_self⟩
    | @head e e' he' _ ih =>
      obtain ⟨b, he⟩ := he
      obtain ⟨arguments, hascent⟩ := hi.ascent he
      obtain ⟨arguments', hmem⟩ := ih (hi.up he) he'
      exact ⟨arguments', hascent ▸ List.mem_cons_of_mem _ hmem⟩
  rcases ReflTransGen.cases_head ha with rfl | ⟨e, he, hdescends⟩
  · refine ⟨(σ i).arguments, ?_⟩
    cases hσ : σ i
    exact List.mem_cons_self
  · obtain ⟨arguments, hmem⟩ := habove h he hdescends
    exact ⟨arguments, List.mem_cons_of_mem _ hmem⟩

/-- What is known of the types of all declarations, whatever was built first. -/
def Assembled (d : Declarations) (σ : Nat → TypeSymbol) : Prop :=
  ∀ i t, d.types[i]? = some t →
    ∃ τ, (∀ k, (τ k).bare = (d.shellAt k).bare) ∧ σ i = d.symbolWith τ i

theorem isBaseClass_shellAt (h : d.Extends i b e) : isBaseClass (d.shellAt e) = true := by
  have hbase := isBaseClass_of_baseDecl? h.1 (σ := d.shellAt) fun k => rfl
  obtain ⟨arguments, hresolved⟩ := resolveWith_of_head? h.2 hbase
  rw [hresolved] at hbase
  exact hbase

/-- Above a class without a base class there is only `System.Object`. -/
theorem getLast?_lineage_of_baseDecl?_eq_none {t : TypeDecl} (ht : d.types[i]? = some t)
    (hσ : ∀ k, (σ k).bare = (d.shellAt k).bare)
    (hclass : d.isClassAt i = true ∨ isBaseClass (d.shellAt i) = true)
    (hb : d.baseDecl? i = none) :
    ∃ u, (d.symbolWith σ i).lineage.getLast? = some u ∧ IsTop u := by
  have hshell : d.shellAt i = shell t := by simp [shellAt, ht]
  have hbase := base_symbolWith ht hσ
  rw [hb] at hbase
  by_cases hobject : (d.isClassAt i && (shell t).special != .object) = true
  · simp only [hobject, if_true] at hbase
    refine ⟨.ofSpecial .object, ?_, isTop_ofSpecial rfl⟩
    rw [getLast?_lineage_of_base hbase, getLast?_lineage_of_base_eq_none rfl]
  · simp only [hobject] at hbase
    have htop : IsTop (shell t) := by
      cases hc : d.isClassAt i with
      | true => exact isTop_shell_of_object (by simpa [hc] using hobject)
      | false =>
        rw [hc, hshell] at hclass
        refine isTop_shell_of_not_class (by simpa using hclass) ?_
        simpa [isClassAt, ht] using hc
    have hbare : (d.symbolWith σ i).bare = (shell t).bare := by rw [bare_symbolWith, hshell]
    exact ⟨_, getLast?_lineage_of_base_eq_none hbase, htop.of_bare hbare⟩

/-- Type arguments do not matter for what is above a type. -/
theorem getLast?_lineage_arguments {t u : TypeSymbol} (h : t.lineage.getLast? = some u)
    (htop : IsTop u) (arguments : List TypeSymbol) :
    ∃ v, (lineage { t with arguments }).getLast? = some v ∧ IsTop v := by
  have hascent : ascent { t with arguments } = t.ascent := ascent_congr rfl
  rw [lineage] at h
  rw [lineage, hascent]
  cases hrest : t.ascent with
  | nil =>
    rw [hrest] at h
    cases h
    exact ⟨_, rfl, htop.congr rfl rfl rfl⟩
  | cons b rest =>
    rw [hrest] at h
    exact ⟨u, h, htop⟩

/-- The last of the types above a class is unknown or has a meaning of its own. -/
theorem Complete.getLast?_lineage (hσ : d.Assembled σ) {i : Nat} (h : d.Complete σ i)
    (hi : i < d.types.size)
    (hclass : d.isClassAt i = true ∨ isBaseClass (d.shellAt i) = true) :
    ∃ t, (σ i).lineage.getLast? = some t ∧ IsTop t := by
  obtain ⟨t, ht⟩ : ∃ t, d.types[i]? = some t := ⟨_, Array.getElem?_eq_getElem hi⟩
  obtain ⟨τ, hτ, hsymbol⟩ := hσ i t ht
  cases hb : d.baseDecl? i with
  | none =>
    rw [hsymbol]
    exact getLast?_lineage_of_baseDecl?_eq_none ht hτ hclass hb
  | some b =>
    cases he : d.head? b.scope b.type with
    | none =>
      obtain ⟨hnone, htop⟩ := resolveWith_of_head?_eq_none he (isBaseClass_of_baseDecl? hb hτ)
      have hbase : (σ i).base = some (d.resolveWith τ b.scope b.type) := by
        rw [hsymbol, base_symbolWith ht hτ, hb]
      rw [getLast?_lineage_of_base hbase]
      exact ⟨_, getLast?_lineage_of_base_eq_none hnone, htop⟩
    | some e =>
      have hextends : d.Extends i b e := ⟨hb, he⟩
      obtain ⟨arguments, hbase, -⟩ := h i b e .refl hextends
      have hrank : (σ e).rank < (σ i).rank := by
        have hless := rank_of_base hbase
        have hsame : (σ e).rank = rank { σ e with arguments } := rank_congr rfl rfl
        exact Nat.lt_of_le_of_lt (Nat.le_of_eq hsame) hless
      obtain ⟨u, hu, htop⟩ := (h.up hextends).getLast?_lineage hσ (inside_head? _ _ e he)
        (.inr (isBaseClass_shellAt hextends))
      rw [getLast?_lineage_of_base hbase]
      exact getLast?_lineage_arguments hu htop arguments
termination_by (σ i).rank

end

theorem assembled_symbolIn {d : Declarations} {order : List Nat}
    (hperm : order.Perm (List.range d.types.size)) : d.Assembled (d.symbolIn order) := by
  intro i t ht
  obtain ⟨begun, -, hsymbol⟩ := exists_symbolIn_eq (mem_of_perm hperm ht) ht
  exact ⟨_, bare_taken hperm begun, hsymbol⟩

end Declarations

namespace Compilation

/-- The types of a compilation are built in the order of the declarations. -/
theorem symbol_ofFiles (files : List SourceFile) (i : Nat) :
    (ofFiles files).symbol i = (ofFiles files).declarations.symbolIn
      (List.range (ofFiles files).declarations.types.size) i := by
  obtain ⟨d, hd⟩ : ∃ d, d = (ofFiles files).declarations := ⟨_, rfl⟩
  have hsymbols : (ofFiles files).symbols = d.buildSymbols.toArray := by rw [hd]; rfl
  rw [symbol, hsymbols, d.buildSymbols_eq, ← hd]
  by_cases hi : i < d.types.size
  · simp [hi]
  · have houtside : d.types[i]? = none := Array.getElem?_eq_none (Nat.not_lt.1 hi)
    have hnone : (d.built (List.range d.types.size)).get i = none :=
      (d.built_grows _).kept i (.inr (.inr houtside))
    simp [hi, Declarations.symbolIn, hnone]

/-- A class gets from its base class all that is above it, whatever is built first, exactly if the
base class does not lead back to the class. If this is so for a class and all that it descends from,
then all of these are above it, up to a type that is not declared or has a meaning of its own, and
the walk meets them all unless two go by the same name. -/
theorem ofFiles_inherits_iff_not_leads (files : List SourceFile) :
    let c := ofFiles files
    let d := c.declarations
    (∀ i b e, d.Extends i b e →
      ((∀ order, order.Perm (List.range d.types.size) → d.Inherits (d.symbolIn order) i b e) ↔
        ¬d.Leads e i)) ∧
    ∀ i, d.isClassAt i = true →
      (∀ j b e, d.Descends i j → d.Extends j b e → ¬d.Leads e j) →
      (∀ b e, d.Extends i b e → d.Inherits c.symbol i b e) ∧
      (∀ a, d.Descends i a → ∃ arguments, { c.symbol a with arguments } ∈ (c.symbol i).lineage) ∧
      (∃ t, (c.symbol i).lineage.getLast? = some t ∧ Declarations.IsTop t) ∧
      ((c.symbol i).baseChain = (c.symbol i).lineage ↔
        ((c.symbol i).lineage.map fullName).Nodup) := by
  intro c d
  have hsymbol : c.symbol = d.symbolIn (List.range d.types.size) := funext (symbol_ofFiles files)
  refine ⟨fun i b e h => Declarations.inherits_iff_not_leads h, ?_⟩
  intro i hclass hleads
  have hcomplete : d.Complete c.symbol i := by
    intro j b e hj he
    rw [hsymbol]
    exact Declarations.inherits_of_not_leads (.refl _) he (hleads j b e hj he)
  have hassembled : d.Assembled c.symbol := by
    rw [hsymbol]
    exact Declarations.assembled_symbolIn (.refl _)
  obtain ⟨t, ht⟩ := Declarations.exists_of_isClassAt hclass
  obtain ⟨hi, -⟩ := Array.getElem?_eq_some_iff.1 ht
  exact ⟨fun b e he => hcomplete i b e .refl he, fun a ha => hcomplete.mem_lineage ha,
    hcomplete.getLast?_lineage hassembled hi (.inl hclass), baseChain_eq_lineage_iff _⟩

/-- The places with the first two exchanged. -/
def swapFirst (i : Nat) : Nat := if i < 2 then 1 - i else i

/-- Three classes. The base class of the last one mentions it as a type argument. -/
def threeClasses : String := "class A:B<C>\x7b\x7dclass B<T>\x7b\x7dclass C:A\x7b\x7d"

/-- What is found out about the three classes by running: where names of bases lead, and the types
above the first and above the last. -/
def Crossed (c : Compilation) : Prop :=
  (∀ i < c.declarations.types.size, ∀ j ∈ c.declarations.heads i, swapFirst j < swapFirst i) ∧
  [0, 1, 2].map c.declarations.baseClass? = [some 1, none, some 0] ∧
  c.declarations.references 1 = [] ∧
  (c.symbol 0).baseChain.map fullName = ["A", "B<C>", "System.Object"] ∧
  (c.symbol 2).baseChain.map fullName = ["C", "A"] ∧
  (c.symbol 0).base.isSome = true ∧ ((c.symbol 2).base.bind TypeSymbol.base).isNone = true

instance (c : Compilation) : Decidable (Crossed c) := inferInstanceAs (Decidable (_ ∧ _))

theorem crossed_threeClasses :
    ∃ f, SourceFile.parse "t.cs" threeClasses = .ok f ∧ f.errors = [] ∧ Crossed (ofFiles [f]) := by
  obtain ⟨f, hf, hseen⟩ := exists_of_layOut "t.cs" threeClasses
    (fun f c => f.errors.isEmpty && decide (Crossed c)) (by
      rw [threeClasses, SourceFile.parse_ofList]
      decide +kernel)
  rw [Bool.and_eq_true, decide_eq_true_eq, List.isEmpty_iff] at hseen
  exact ⟨f, hf, hseen⟩

/-- The second of the three classes names nothing, so the first gets all that is above it. -/
theorem ofFiles_inherits_iff_not_leads_first :
    ∃ f, SourceFile.parse "t.cs" threeClasses = .ok f ∧
      let c := ofFiles [f]
      (∃ b, c.declarations.Extends 0 b 1 ∧ c.declarations.Inherits c.symbol 0 b 1) ∧
      (∃ arguments, { c.symbol 1 with arguments } ∈ (c.symbol 0).lineage) ∧
      ∃ t, (c.symbol 0).lineage.getLast? = some t ∧ Declarations.IsTop t := by
  obtain ⟨f, hf, -, -, hclasses, hreferences, -⟩ := crossed_threeClasses
  refine ⟨f, hf, ?_⟩
  intro c
  simp only [List.map_cons, List.map_nil, List.cons.injEq, and_true] at hclasses
  obtain ⟨hfirst, hsecond, -⟩ := hclasses
  obtain ⟨b, hb, he⟩ := Option.bind_eq_some_iff.1 hfirst
  have hextends : c.declarations.Extends 0 b 1 := ⟨hb, he⟩
  have hdescends : ∀ j, c.declarations.Descends 0 j → j = 0 ∨ j = 1 := by
    intro j hj
    induction hj with
    | refl => exact .inl rfl
    | tail _ hstep ih =>
      obtain ⟨b', hstep⟩ := hstep
      have hclass := hstep.baseClass?_eq
      rcases ih with rfl | rfl
      · exact .inr (Option.some.inj (hclass.symm.trans hfirst))
      · cases hclass.symm.trans hsecond
  have hleads : ∀ j b e, c.declarations.Descends 0 j → c.declarations.Extends j b e →
      ¬c.declarations.Leads e j := by
    intro j b' e hj hstep hback
    have hclass := hstep.baseClass?_eq
    rcases hdescends j hj with rfl | rfl
    · obtain rfl : e = 1 := Option.some.inj (hclass.symm.trans hfirst)
      rcases ReflTransGen.cases_head hback with heq | ⟨k, hk, -⟩
      · cases heq
      · rw [hreferences] at hk
        cases hk
    · cases hclass.symm.trans hsecond
  obtain ⟨hinherits, hmem, hlast, -⟩ := (ofFiles_inherits_iff_not_leads [f]).2 0
    (Declarations.isClassAt_of_baseDecl? hb) hleads
  exact ⟨⟨b, hextends, hinherits b 1 hextends⟩, hmem 1 (.single ⟨b, hextends⟩), hlast⟩

/-- None of the three classes inherits from itself, and yet the last one loses what is above its base
class, as this mentions it as a type argument and comes first. -/
theorem ofFiles_loses_base_types :
    ∃ f b, SourceFile.parse "t.cs" threeClasses = .ok f ∧ f.errors = [] ∧
      let c := ofFiles [f]
      let d := c.declarations
      (∀ i, ¬TransGen (fun i j => j ∈ d.heads i) i i) ∧
      d.Extends 2 b 0 ∧ ¬d.Inherits c.symbol 2 b 0 ∧
      (c.symbol 0).baseChain.map fullName = ["A", "B<C>", "System.Object"] ∧
      (c.symbol 2).baseChain.map fullName = ["C", "A"] := by
  obtain ⟨f, hf, herrors, hweights, hclasses, -, hfirst, hlast, hsome, hnone⟩ := crossed_threeClasses
  simp only [List.map_cons, List.map_nil, List.cons.injEq, and_true] at hclasses
  obtain ⟨b, hb, he⟩ := Option.bind_eq_some_iff.1 hclasses.2.2
  refine ⟨f, b, hf, herrors, ?_, ⟨hb, he⟩, ?_, hfirst, hlast⟩
  · intro i hi
    have hless : ∀ j, TransGen (fun i j => j ∈ (ofFiles [f]).declarations.heads i) i j →
        swapFirst j < swapFirst i := by
      intro j hj
      induction hj with
      | single hj => exact hweights _ (Declarations.lt_of_mem_heads hj) _ hj
      | tail _ hj ih =>
        exact Nat.lt_trans (hweights _ (Declarations.lt_of_mem_heads hj) _ hj) ih
    exact Nat.lt_irrefl _ (hless i hi)
  · rintro ⟨arguments, hbase, -⟩
    rw [hbase] at hnone
    simp only [Option.bind_some, Option.isNone_iff_eq_none] at hnone
    rw [hnone] at hsome
    cases hsome

end Compilation

end Binding

end PluginLint
