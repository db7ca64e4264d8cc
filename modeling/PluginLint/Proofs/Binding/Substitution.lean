import PluginLint.Proofs.Binding.Nearness

/-!
# Substitutions one after the other

Two substitutions in turn are one substitution, in which the types of the first are themselves
substituted by the second. So the type arguments that are handed on from a type to what it is based
on, and from there further up, can be put in place at once. What a type hands on is what the
declaration of the type above it knows of the type arguments, as long as no type parameter that is
written there is taken for one of a declaration further down.
-/
namespace PluginLint

namespace TypeSymbol

/-- Induction over a type, with the hypothesis for its type arguments. -/
@[elab_as_elim]
theorem induct {motive : TypeSymbol → Prop}
    (step : ∀ t : TypeSymbol, (∀ u ∈ t.arguments, motive u) → motive t) (t : TypeSymbol) :
    motive t :=
  step t fun u hu => by
    have hlt : sizeOf u < sizeOf t := by
      obtain ⟨name, space, kind, special, base, interfaces, arguments⟩ := t
      have hlist : sizeOf u < sizeOf arguments := List.sizeOf_lt_of_mem hu
      rw [mk.sizeOf_spec]
      omega
    exact induct step u
termination_by sizeOf t

/- Types that mention some type parameters only. -/
mutual

/-- The type parameters in a type are among these. -/
def writtenIn (names : List String) : TypeSymbol → Bool
  | ⟨name, _, kind, _, _, _, arguments⟩ =>
    (kind != .typeParameter || names.contains name) && writtenInAll names arguments

/-- The type parameters in some types are among these. -/
def writtenInAll (names : List String) : List TypeSymbol → Bool
  | [] => true
  | t :: ts => writtenIn names t && writtenInAll names ts

end

theorem writtenInAll_iff {names : List String} {ts : List TypeSymbol} :
    writtenInAll names ts = true ↔ ∀ t ∈ ts, t.writtenIn names = true := by
  induction ts with
  | nil => simp [writtenInAll]
  | cons t ts ih => simp [writtenInAll, ih]

theorem writtenIn_iff {names : List String} {t : TypeSymbol} :
    t.writtenIn names = true ↔
      (t.kind = .typeParameter → t.name ∈ names) ∧ ∀ u ∈ t.arguments, u.writtenIn names = true := by
  cases t
  simp [writtenIn, writtenInAll_iff, imp_iff_not_or]

end TypeSymbol

namespace Binding

open TypeSymbol

variable {s s₁ s₂ : Substitution} {t u : TypeSymbol}

/-! ### What a substitution does -/

namespace Substitution

/-- What a type parameter stands for; the first entry of a name counts. -/
def value? (s : Substitution) (name : String) : Option TypeSymbol :=
  (s.find? fun (p, _) => p == name).map Prod.snd

/-- What is put in the place of a type, if it is a type parameter with an entry. -/
def replacement? (s : Substitution) (t : TypeSymbol) : Option TypeSymbol :=
  if t.kind = .typeParameter then s.value? t.name else none

/-- The type parameters that have an entry. -/
def names (s : Substitution) : List String := s.map Prod.fst

/-- A substitution with another one made in its types. -/
def within (s₁ s₂ : Substitution) : Substitution := s₁.map fun (p, t) => (p, substitute s₂ t)

/-- A substitution and then another one. What has no entry in the first may have one in the
second. -/
def andThen (s₁ s₂ : Substitution) : Substitution := s₁.within s₂ ++ s₂

/-- Substitutions one after the other. -/
def inTurn (ss : List Substitution) : Substitution := ss.foldr andThen []

theorem inTurn_cons (s : Substitution) (ss : List Substitution) :
    inTurn (s :: ss) = s.andThen (inTurn ss) := rfl

theorem value?_append (s₁ s₂ : Substitution) (name : String) :
    value? (s₁ ++ s₂) name = (s₁.value? name).or (s₂.value? name) := by
  simp [value?, List.find?_append, Option.map_or]

theorem value?_within (s₁ s₂ : Substitution) (name : String) :
    (s₁.within s₂).value? name = (s₁.value? name).map (substitute s₂) := by
  simp [value?, within, List.find?_map, Function.comp_def]

theorem value?_andThen (s₁ s₂ : Substitution) (name : String) :
    (s₁.andThen s₂).value? name =
      ((s₁.value? name).map (substitute s₂)).or (s₂.value? name) := by
  rw [andThen, value?_append, value?_within]

theorem names_within (s₁ s₂ : Substitution) : (s₁.within s₂).names = s₁.names := by
  simp [names, within, Function.comp_def]

theorem mem_of_value? {name : String} (h : s.value? name = some t) : (name, t) ∈ s := by
  obtain ⟨⟨p, _⟩, hfind, rfl⟩ := Option.map_eq_some_iff.1 h
  have hp : p = name := by simpa using List.find?_some hfind
  exact hp ▸ List.mem_of_find?_eq_some hfind

theorem exists_value? {name : String} (h : name ∈ s.names) : ∃ t, s.value? name = some t := by
  obtain ⟨⟨p, t⟩, hmem, rfl⟩ := List.mem_map.1 h
  rw [← Option.isSome_iff_exists, value?, Option.isSome_map, List.find?_isSome]
  exact ⟨(p, t), hmem, by simp⟩

theorem replacement?_andThen (s₁ s₂ : Substitution) (t : TypeSymbol) :
    (s₁.andThen s₂).replacement? t =
      ((s₁.replacement? t).map (substitute s₂)).or (s₂.replacement? t) := by
  unfold replacement?
  split
  · exact value?_andThen s₁ s₂ t.name
  · rfl

theorem value?_eq_none {name : String} (h : name ∉ s.names) : s.value? name = none := by
  rw [value?, Option.map_eq_none_iff, List.find?_eq_none]
  rintro ⟨p, t⟩ hmem hp
  exact h (List.mem_map.2 ⟨(p, t), hmem, by simpa using hp⟩)

end Substitution

open Substitution

theorem substituteAll_eq (s : Substitution) (ts : List TypeSymbol) :
    substituteAll s ts = ts.map (substitute s) := by
  induction ts with
  | nil => rfl
  | cons t ts ih => rw [substituteAll, ih, List.map_cons]

/-- A type parameter with an entry is replaced, and in any other type its arguments are. -/
theorem substitute_eq (s : Substitution) (t : TypeSymbol) :
    substitute s t =
      (s.replacement? t).getD { t with arguments := t.arguments.map (substitute s) } := by
  obtain ⟨name, space, kind, special, base, interfaces, arguments⟩ := t
  rw [substitute, substituteAll_eq]
  simp only [replacement?, value?]
  split
  · cases s.find? fun (p, _) => p == name <;> rfl
  · rfl

theorem arguments_substitute (ht : t.kind ≠ .typeParameter) :
    (substitute s t).arguments = t.arguments.map (substitute s) := by
  rw [substitute_eq, replacement?, if_neg ht, Option.getD_none]

@[simp] theorem substitute_nil (t : TypeSymbol) : substitute [] t = t := by
  induction t using TypeSymbol.induct with
  | step t ih =>
    have hnone : replacement? [] t = none := by simp [replacement?, value?]
    rw [substitute_eq, hnone, Option.getD_none, List.map_congr_left ih, List.map_id']
    cases t
    rfl

/-! ### Two substitutions are one -/

/-- A replacement of the first substitution is substituted by the second and not looked at again,
and where the first has none the second finds the same parameter. -/
theorem substitute_substitute (s₁ s₂ : Substitution) (t : TypeSymbol) :
    substitute s₂ (substitute s₁ t) = substitute (s₁.andThen s₂) t := by
  induction t using TypeSymbol.induct with
  | step t ih =>
    have harguments : (t.arguments.map (substitute s₁)).map (substitute s₂) =
        t.arguments.map (substitute (s₁.andThen s₂)) := by
      rw [List.map_map]
      exact List.map_congr_left ih
    rw [substitute_eq s₁ t, substitute_eq (s₁.andThen s₂) t, replacement?_andThen]
    cases s₁.replacement? t with
    | some u => simp
    | none =>
      rw [Option.getD_none, substitute_eq s₂, harguments]
      rfl

theorem foldl_substitute (ss : List Substitution) (t : TypeSymbol) :
    ss.foldl (fun t s => substitute s t) t = substitute (inTurn ss) t := by
  induction ss generalizing t with
  | nil => exact (substitute_nil t).symm
  | cons s ss ih => rw [List.foldl_cons, ih, substitute_substitute, inTurn_cons]

/-! ### Only the parameters of a type count -/

theorem substitute_congr {names : List String} (ht : t.writtenIn names = true)
    (h : ∀ p ∈ names, s₁.value? p = s₂.value? p) : substitute s₁ t = substitute s₂ t := by
  induction t using TypeSymbol.induct with
  | step t ih =>
    obtain ⟨hname, harguments⟩ := writtenIn_iff.1 ht
    have hsame : s₁.replacement? t = s₂.replacement? t := by
      unfold replacement?
      split
      · rename_i hkind
        exact h _ (hname hkind)
      · rfl
    rw [substitute_eq, substitute_eq, hsame,
      List.map_congr_left fun u hu => ih u hu (harguments u hu)]

/-! ### Up a hierarchy -/

namespace Compilation

variable {c : Compilation} {free : List String} {a b d : Ancestor} {q : TypeSymbol}
  {ss : List Substitution}

/-- The types directly above one as its declaration has them, with the type parameters that are
written there. -/
def written (c : Compilation) (b : Ancestor) : List TypeSymbol :=
  (c.symbol b.index).base.toList ++ (c.symbol b.index).interfaces

/-- What the type parameters of a declaration stand for in a type as it is written. -/
def writtenAs (d : Ancestor) (q : TypeSymbol) : Substitution :=
  d.declaration.typeParameters.zip q.arguments

/-- What is directly above a type is written with its type parameters, and with others that are
free: they are those of a type around it, or of a method, and no name of its own is one of them. -/
def IsClosed (c : Compilation) (free : List String) (b : Ancestor) : Prop :=
  (∀ p ∈ free, p ∉ b.arguments.names) ∧
    ∀ q ∈ c.written b, q.kind ≠ .typeParameter ∧ q.writtenIn (b.arguments.names ++ free) = true

instance (c : Compilation) (free : List String) : DecidablePred (c.IsClosed free) :=
  fun _ => inferInstanceAs (Decidable (_ ∧ _))

/-- What is written in a member knows of the type parameters of its declaration and of free ones. -/
def IsOpen (c : Compilation) (free : List String) (b : Ancestor) (m : Member) (e : TypeExpr) : Prop :=
  (c.resolve m.scope e).writtenIn (b.arguments.names ++ free) = true

instance (c : Compilation) (free : List String) (b : Ancestor) (m : Member) :
    DecidablePred (c.IsOpen free b m) :=
  fun _ => inferInstanceAs (Decidable (_ = true))

/-- From one type to another, step by step up. Of each step there is what its declaration says, the
last step first: the type arguments that are written for the type parameters of the type above. -/
inductive Climb (c : Compilation) (free : List String) (a : Ancestor) :
    List Substitution → Ancestor → Prop
  | here : Climb c free a [] a
  | up {ss : List Substitution} {b d : Ancestor} {q : TypeSymbol} (h : Climb c free a ss b)
    (hb : c.IsClosed free b) (hq : q ∈ c.written b)
    (hd : c.ancestor? (substitute b.arguments q) = some d) :
    Climb c free a (writtenAs d q :: ss) d

theorem arguments_of_ancestor? (h : c.ancestor? t = some b) :
    b.arguments = writtenAs b t := by
  simp only [ancestor?, Option.bind_eq_bind, Option.bind_eq_some_iff, Option.pure_def,
    Option.some.injEq] at h
  obtain ⟨i, -, d, -, rfl⟩ := h
  rfl

/-- What is handed on to the type above is what is written for it, with the type arguments that were
handed on before. -/
theorem arguments_above (hq : q.kind ≠ .typeParameter)
    (hd : c.ancestor? (substitute b.arguments q) = some d) :
    d.arguments = (writtenAs d q).within b.arguments := by
  rw [arguments_of_ancestor? hd, writtenAs, arguments_substitute hq, List.zip_map_right]
  rfl

/-- The whole way: what is written at each step, and last what the first type was given. A type
parameter of the type above is looked up in the last step, and a free one has no entry anywhere. -/
theorem Climb.value?_eq (h : c.Climb free a ss b) {p : String}
    (hp : p ∈ b.arguments.names ++ free) :
    (inTurn (ss ++ [a.arguments])).value? p = b.arguments.value? p := by
  induction h generalizing p with
  | here =>
    have hnone : value? (inTurn []) p = none := value?_eq_none List.not_mem_nil
    rw [List.nil_append, inTurn_cons, value?_andThen, hnone, Option.or_none]
    exact (Option.map_congr fun t _ => substitute_nil t).trans Option.map_id'
  | @up ss b d q h hb hq hd ih =>
    obtain ⟨hkind, hwritten⟩ := hb.2 q hq
    rw [arguments_above hkind hd] at hp ⊢
    rw [names_within, List.mem_append] at hp
    rw [List.cons_append, inTurn_cons, value?_andThen, value?_within]
    cases hvalue : (writtenAs d q).value? p with
    | some v =>
      have hv : v.writtenIn (b.arguments.names ++ free) = true :=
        (writtenIn_iff.1 hwritten).2 v (List.of_mem_zip (mem_of_value? hvalue)).2
      rw [Option.map_some, Option.map_some, Option.some_or, substitute_congr hv fun _ => ih]
    | none =>
      have hfree : p ∈ free := hp.resolve_left fun h => by
        obtain ⟨v, hv⟩ := exists_value? h
        rw [hvalue] at hv
        cases hv
      rw [Option.map_none, Option.none_or, ih (List.mem_append_right _ hfree),
        value?_eq_none (hb.1 p hfree)]
      rfl

/-- So a type in a member is the same with everything put in place at once, whatever the type
parameters of the member itself stand for. -/
theorem Climb.substitute_eq (h : c.Climb free a ss b) (own : Substitution)
    (hu : u.writtenIn (b.arguments.names ++ free) = true) :
    substitute (b.arguments ++ own) u = substitute (inTurn (ss ++ [a.arguments]) ++ own) u :=
  substitute_congr hu fun p hp => by rw [value?_append, value?_append, h.value?_eq hp]

theorem Climb.typeOfMember?_eq (h : c.Climb free a ss b) {m : Member}
    (hm : ∀ e ∈ m.type?, c.IsOpen free b m e) :
    c.typeOfMember? b m =
      m.type?.map fun e => substitute (inTurn (ss ++ [a.arguments])) (c.resolve m.scope e) :=
  Option.map_congr fun e he => by simpa using h.substitute_eq [] (hm e he)

theorem Climb.methodSymbol_eq (h : c.Climb free a ss b) {m : Member} {ps : List ParameterDecl}
    (hm : ∀ e ∈ m.type?, c.IsOpen free b m e) (hps : ∀ p ∈ ps, ∀ e ∈ p.type?, c.IsOpen free b m e)
    (args : List TypeSymbol) :
    c.methodSymbol b.type m b.arguments args ps =
      c.methodSymbol b.type m (inTurn (ss ++ [a.arguments])) args ps := by
  have hsame : ∀ e, c.IsOpen free b m e →
      substitute (b.arguments ++ m.typeParameters.zip args) (c.resolve m.scope e) =
        substitute (inTurn (ss ++ [a.arguments]) ++ m.typeParameters.zip args)
          (c.resolve m.scope e) :=
    fun e he => h.substitute_eq _ he
  have hreturns := Option.map_congr fun e he => hsame e (hm e he)
  have hparameters := List.map_congr_left fun p hp =>
    congrArg (ParameterSymbol.mk p.name · p.isParams p.isOptional)
      (Option.map_congr fun e he => hsame e (hps p hp e he))
  exact congrArg₂ (MethodSymbol.mk m.name (some b.type)) hparameters hreturns

/-- Everything above the pending types is reached step by step if they are. -/
theorem exists_climb {room : Nat} {seen : List String} {pending : List TypeSymbol}
    (hpending : ∀ p ∈ pending, ∀ b, c.ancestor? p = some b → ∃ ss, c.Climb free a ss b)
    (hclosed : ∀ b ∈ c.ancestorsUpTo room seen pending, c.IsClosed free b) :
    ∀ b ∈ c.ancestorsUpTo room seen pending, ∃ ss, c.Climb free a ss b := by
  fun_induction ancestorsUpTo c room seen pending with
  | case1 => simp
  | case2 => simp
  | case3 seen room t pending hseen ih =>
    exact ih (fun p hp => hpending p (.tail _ hp)) hclosed
  | case4 seen room t pending hseen hnone ih =>
    exact ih (fun p hp => hpending p (.tail _ hp)) hclosed
  | case5 seen room t pending hseen b hsome ih =>
    obtain ⟨ss, hclimb⟩ := hpending t (.head _) b hsome
    have hrest := ih (fun p hp d hd => ?_) fun d hd => hclosed d (.tail _ hd)
    · intro d hd
      rcases List.mem_cons.1 hd with rfl | hd
      · exact ⟨ss, hclimb⟩
      · exact hrest d hd
    · rcases List.mem_append.1 hp with hp | hp
      · exact hpending p (.tail _ hp) d hd
      · obtain ⟨q, hq, rfl⟩ := List.mem_map.1 hp
        exact ⟨_, hclimb.up (hclosed b (.head _)) hq hd⟩

/-- Substituting twice is substituting once, where the types of the first substitution are
substituted by the second and the entries of the second follow; and so for any number of
substitutions. Up a hierarchy, as long as no type parameter of a type around is taken for one of a
declaration on the way, the type of a member and the types in a method are therefore what the type
arguments written at each step give them, substituted once. -/
theorem substitute_composes :
    (∀ t s₁ s₂, substitute s₂ (substitute s₁ t) =
      substitute (s₁.map (fun (p, r) => (p, substitute s₂ r)) ++ s₂) t) ∧
    (∀ ss t, ss.foldl (fun t s => substitute s t) t = substitute (inTurn ss) t) ∧
    ∀ c t a free, ancestor? c t = some a → (∀ b ∈ c.ancestors t, c.IsClosed free b) →
      ∀ b ∈ c.ancestors t, ∃ ss, c.Climb free a ss b ∧
        ∀ m : Member, (∀ e ∈ m.type?, c.IsOpen free b m e) →
          (c.typeOfMember? b m = m.type?.map fun e =>
            substitute (inTurn (ss ++ [a.arguments])) (c.resolve m.scope e)) ∧
          ∀ args ps, (∀ p ∈ ps, ∀ e ∈ p.type?, c.IsOpen free b m e) →
            c.methodSymbol b.type m b.arguments args ps =
              c.methodSymbol b.type m (inTurn (ss ++ [a.arguments])) args ps := by
  refine ⟨fun t s₁ s₂ => substitute_substitute s₁ s₂ t, foldl_substitute,
    fun c t a free ha hclosed b hb => ?_⟩
  have hpending : ∀ p ∈ [t], ∀ b, c.ancestor? p = some b → ∃ ss, c.Climb free a ss b := by
    intro p hp b hb
    rw [List.mem_singleton.1 hp, ha, Option.some.injEq] at hb
    exact ⟨[], hb ▸ .here⟩
  obtain ⟨ss, hclimb⟩ := exists_climb hpending hclosed b hb
  exact ⟨ss, hclimb, fun m hm =>
    ⟨hclimb.typeOfMember?_eq hm, fun args ps hps => hclimb.methodSymbol_eq hm hps args⟩⟩

/-- A class that extends a generic class, with arrays of its own type parameter. -/
def genericClasses : Compilation :=
  let d : Declarations := { types := #[
    { name := "A", space := "", kind := .classType, typeParameters := ["T"]
      bases := [⟨.name "B" [.array (.name "T" []) 1], { types := [0] }, true⟩] },
    { name := "B", space := "", kind := .classType, typeParameters := ["U"]
      members := [{ name := "M", kind := .method, type? := some (.name "U" [])
                    parameters := [{ name := "w", type? := some (.name "W" []) }]
                    typeParameters := ["W"]
                    scope := { types := [1], typeParameters := ["W"] } }] }] }
  { declarations := d, symbols := d.buildSymbols.toArray }

/-- The method that the class of numbers has from its base class gives an array of numbers, and its
own type parameter is free on the way. -/
theorem substitute_composes_array :
    let c := genericClasses
    let t := { c.symbol 0 with arguments := [.ofSpecial .int32] }
    ∃ a b m, c.ancestor? t = some a ∧ (∀ b ∈ c.ancestors t, c.IsClosed ["W"] b) ∧
      b ∈ c.ancestors t ∧ m ∈ b.declaration.members ∧ (∀ e ∈ m.type?, c.IsOpen ["W"] b m e) ∧
      (∀ p ∈ m.parameters, ∀ e ∈ p.type?, c.IsOpen ["W"] b m e) ∧
      (∃ ss, c.Climb ["W"] a ss b ∧
        (c.typeOfMember? b m = m.type?.map fun e =>
          substitute (inTurn (ss ++ [a.arguments])) (c.resolve m.scope e)) ∧
        c.methodSymbol b.type m b.arguments [.ofSpecial .string] m.parameters =
          c.methodSymbol b.type m (inTurn (ss ++ [a.arguments])) [.ofSpecial .string]
            m.parameters) ∧
      (c.typeOfMember? b m).map fullName = some "System.Int32[]" := by
  intro c t
  have hseen : ((c.ancestor? t).isSome &&
      (c.ancestorsWithin? 8 ancestorLimit [] [t]).any fun l =>
        decide (∀ b ∈ l, c.IsClosed ["W"] b) &&
          l.any fun b => b.declaration.members.any fun m =>
            decide (∀ e ∈ m.type?, c.IsOpen ["W"] b m e) &&
              (decide (∀ p ∈ m.parameters, ∀ e ∈ p.type?, c.IsOpen ["W"] b m e) &&
                (c.typeOfMember? b m).map fullName == some "System.Int32[]")) = true := by
    decide +kernel
  simp only [Bool.and_eq_true, Option.any_eq_true, decide_eq_true_eq, List.any_eq_true,
    Option.isSome_iff_exists, beq_iff_eq] at hseen
  obtain ⟨⟨a, ha⟩, l, hl, hclosed, b, hb, m, hm, hreturns, hparameters, htype⟩ := hseen
  obtain rfl : c.ancestors t = l := ancestorsUpTo_of_within hl
  obtain ⟨ss, hclimb, hmember⟩ := substitute_composes.2.2 c t a ["W"] ha hclosed b hb
  obtain ⟨hsame, hmethod⟩ := hmember m hreturns
  exact ⟨a, b, m, ha, hclosed, hb, hm, hreturns, hparameters,
    ⟨ss, hclimb, hsame, hmethod _ _ hparameters⟩, htype⟩

end Compilation

end Binding

end PluginLint
