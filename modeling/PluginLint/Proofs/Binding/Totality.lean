import PluginLint.Proofs.Binding.Building

/-!
# Every declaration gets its type

The building of a type asks for the types of other declarations, these for others, and nothing in a
list of bases keeps this from coming back. It ends because a declaration is begun only if it has not
been begun: no more than all declarations are ever begun inside one another. So the recursion has an
answer however deep it is cut off beyond that, and the types are one for each declaration.
-/
namespace PluginLint.Binding
open TypeSymbol

namespace Declarations

/-! ### The recursion without an answer of its own -/

section
variable {m : Type → Type} [Monad m]

/-- How the type of a declaration is made with the help of a function for those of the others. -/
def buildStep (d : Declarations) (symbol : Nat → StateT Workshop m TypeSymbol) (i : Nat) :
    StateT Workshop m TypeSymbol := do
  let w ← get
  match w.finished.find? fun (j, _) => j == i with
  | some (_, t) => return t
  | none =>
    match d.types[i]? with
    | none => return default
    | some t =>
      if w.begun.contains i then return shell t
      set { w with begun := i :: w.begun }
      let bases ← resolveBases d symbol (d.basesAt i)
      let symbol := assemble t bases
      modify fun w => { finished := (i, symbol) :: w.finished, begun := w.begun.erase i }
      return symbol

end

theorem buildSymbol_succ (d : Declarations) (fuel i : Nat) :
    d.buildSymbol (fuel + 1) i = d.buildStep (d.buildSymbol fuel) i := by
  rw [buildSymbol, buildStep]
  refine bind_congr fun w => ?_
  cases w.finished.find? fun (j, _) => j == i with
  | some entry => rfl
  | none =>
    cases ht : d.types[i]? with
    | none => rfl
    | some t =>
      by_cases henum : (t.kind == .enumType) = true <;>
        simp [basesAt, ht, henum, resolveBases]

/-- The type of a declaration. There is none where the recursion would go more than `depth`
declarations deep. -/
def buildSymbol? (d : Declarations) : Nat → Nat → StateT Workshop Option TypeSymbol
  | 0, _ => fun _ => none
  | depth + 1, i => d.buildStep (d.buildSymbol? depth) i

/-- The types of declarations, in the given order. -/
def buildAll? (d : Declarations) (depth : Nat) :
    List Nat → StateT Workshop Option (List TypeSymbol)
  | [] => pure []
  | i :: rest => do
    let t ← d.buildSymbol? depth i
    return t :: (← d.buildAll? depth rest)

/-- The type of every declaration, in order, unless the recursion goes deeper than `depth`. -/
def buildSymbols? (d : Declarations) (depth : Nat) : Option (List TypeSymbol) :=
  ((d.buildAll? depth (List.range d.types.size)).run {}).map Prod.fst

/-! ### Computations that are not cut off -/

/-- When just these declarations have been begun, the first computation has an answer, which is that
of the second, and nothing more is left begun. -/
def Agrees {α : Type} (begun : List Nat) (x : StateT Workshop Option α) (y : StateM Workshop α) :
    Prop :=
  ∀ w : Workshop, w.begun = begun →
    ∃ a w', x.run w = some (a, w') ∧ y.run w = (a, w') ∧ w'.begun = begun

section
variable {α β : Type} {begun : List Nat}

theorem agrees_pure (begun : List Nat) (a : α) : Agrees begun (pure a) (pure a) :=
  fun w hw => ⟨a, w, rfl, rfl, hw⟩

theorem Agrees.bind {x : StateT Workshop Option α} {y : StateM Workshop α}
    {f : α → StateT Workshop Option β} {g : α → StateM Workshop β} (h : Agrees begun x y)
    (hf : ∀ a, Agrees begun (f a) (g a)) : Agrees begun (x >>= f) (y >>= g) := by
  intro w hw
  obtain ⟨a, w', hx, hy, hw'⟩ := h w hw
  obtain ⟨b, w'', hfa, hga, hw''⟩ := hf a w' hw'
  refine ⟨b, w'', ?_, ?_, hw''⟩
  · rw [StateT.run_bind, hx]
    exact hfa
  · rw [StateT.run_bind, hy]
    exact hga

variable {d : Declarations} {symbol? : Nat → StateT Workshop Option TypeSymbol}
  {symbol : Nat → StateM Workshop TypeSymbol} {scope : Scope}

theorem resolveName_agrees (h : ∀ k, Agrees begun (symbol? k) (symbol k)) (name : String)
    (arguments : List TypeSymbol) :
    Agrees begun (d.resolveName symbol? scope name arguments)
      (d.resolveName symbol scope name arguments) := by
  unfold resolveName
  split
  · exact agrees_pure begun _
  · split
    · exact agrees_pure begun _
    · cases d.lookup? name arguments.length scope with
      | none => exact agrees_pure begun _
      | some k => exact (h k).bind fun t => agrees_pure begun _

mutual

theorem resolve_agrees (h : ∀ k, Agrees begun (symbol? k) (symbol k)) : ∀ t : TypeExpr,
    Agrees begun (d.resolve symbol? scope t) (d.resolve symbol scope t)
  | .special s => by
    simp only [resolve]
    exact agrees_pure begun _
  | .nullable inner => by
    simp only [resolve]
    exact (resolve_agrees h inner).bind fun t => agrees_pure begun _
  | .array element ranks => by
    simp only [resolve]
    exact (resolve_agrees h element).bind fun t => agrees_pure begun _
  | .tuple elements => by
    simp only [resolve]
    exact (resolveAll_agrees h elements).bind fun ts => agrees_pure begun _
  | .name name arguments => by
    simp only [resolve]
    exact (resolveAll_agrees h arguments).bind fun ts => resolveName_agrees h name ts
  | .qualified dotted arguments => by
    simp only [resolve]
    refine (resolveAll_agrees h arguments).bind fun ts => ?_
    cases d.lookupDotted? dotted ts.length scope with
    | none => exact agrees_pure begun _
    | some k => exact (h k).bind fun t => agrees_pure begun _
  | .broken text => by
    simp only [resolve]
    exact agrees_pure begun _

theorem resolveAll_agrees (h : ∀ k, Agrees begun (symbol? k) (symbol k)) :
    ∀ ts : List TypeExpr,
      Agrees begun (d.resolveAll symbol? scope ts) (d.resolveAll symbol scope ts)
  | [] => by
    simp only [resolveAll]
    exact agrees_pure begun _
  | t :: ts => by
    simp only [resolveAll]
    exact (resolve_agrees h t).bind fun u =>
      (resolveAll_agrees h ts).bind fun us => agrees_pure begun _

end

theorem resolveBases_agrees (h : ∀ k, Agrees begun (symbol? k) (symbol k)) (bases : List BaseDecl) :
    Agrees begun (d.resolveBases symbol? bases) (d.resolveBases symbol bases) := by
  induction bases with
  | nil => exact agrees_pure begun _
  | cons b bases ih =>
    exact (resolve_agrees h b.type).bind fun t => ih.bind fun rest => agrees_pure begun _

/-! ### One declaration after the other -/

/-- A declaration that is finished or has been begun needs no other. Any other one is begun itself. -/
theorem buildStep_agrees {i : Nat}
    (h : i < d.types.size → i ∉ begun → ∀ k, Agrees (i :: begun) (symbol? k) (symbol k)) :
    Agrees begun (d.buildStep symbol? i) (d.buildStep symbol i) := by
  intro w hw
  cases hfind : w.finished.find? fun (j, _) => j == i with
  | some entry =>
    refine ⟨entry.2, w, ?_, ?_, hw⟩ <;>
      simp only [buildStep, StateT.run_bind, StateT.run_get, pure_bind, hfind, StateT.run_pure] <;>
      rfl
  | none =>
    cases ht : d.types[i]? with
    | none =>
      refine ⟨default, w, ?_, ?_, hw⟩ <;>
        simp only [buildStep, StateT.run_bind, StateT.run_get, pure_bind, hfind, ht,
          StateT.run_pure] <;>
        rfl
    | some t =>
      by_cases hbegun : i ∈ begun
      · have hcontains : w.begun.contains i = true := by simpa [hw] using hbegun
        refine ⟨shell t, w, ?_, ?_, hw⟩ <;>
          simp only [buildStep, StateT.run_bind, StateT.run_get, pure_bind, hfind, ht, hcontains,
            ↓reduceIte, StateT.run_pure] <;>
          rfl
      · have hcontains : w.begun.contains i = false := by simpa [hw] using hbegun
        obtain ⟨hi, -⟩ := Array.getElem?_eq_some_iff.1 ht
        have hbases := resolveBases_agrees (d := d) (h hi hbegun) (d.basesAt i)
        obtain ⟨bases, w', hx, hy, hw'⟩ :=
          hbases { w with begun := i :: w.begun } (congrArg (List.cons i) hw)
        refine ⟨assemble t bases, w'.finish i (assemble t bases), ?_, ?_, ?_⟩
        · simp only [buildStep, StateT.run_bind, StateT.run_get, pure_bind, hfind, ht, hcontains,
            Bool.false_eq_true, ↓reduceIte, StateT.run_set, hx]
          rfl
        · simp only [buildStep, StateT.run_bind, StateT.run_get, pure_bind, hfind, ht, hcontains,
            Bool.false_eq_true, ↓reduceIte, StateT.run_set, hy]
          rfl
        · rw [Workshop.finish, hw']
          exact List.erase_cons_head i begun

end

/-- There is an answer where all declarations that have not been begun may be begun inside one
another. -/
theorem buildSymbol?_agrees (d : Declarations) {begun : List Nat} {depth fuel : Nat}
    (hnodup : begun.Nodup) (hinside : ∀ k ∈ begun, k < d.types.size)
    (hdepth : d.types.size < depth + begun.length) (hfuel : d.types.size < fuel + begun.length)
    (i : Nat) : Agrees begun (d.buildSymbol? depth i) (d.buildSymbol fuel i) := by
  have hsub : begun ⊆ List.range d.types.size := fun k hk => List.mem_range.2 (hinside k hk)
  have hle := (hnodup.subperm hsub).length_le
  rw [List.length_range] at hle
  obtain ⟨depth, rfl⟩ : ∃ n, depth = n + 1 := ⟨depth - 1, by omega⟩
  obtain ⟨fuel, rfl⟩ : ∃ n, fuel = n + 1 := ⟨fuel - 1, by omega⟩
  rw [buildSymbol_succ, buildSymbol?]
  refine buildStep_agrees fun hi hnew k => ?_
  refine d.buildSymbol?_agrees (List.nodup_cons.2 ⟨hnew, hnodup⟩)
    (List.forall_mem_cons.2 ⟨hi, hinside⟩) ?_ ?_ k
  · rw [List.length_cons]
    omega
  · rw [List.length_cons]
    omega
termination_by depth

theorem buildAll?_agrees (d : Declarations) {depth fuel : Nat} (hdepth : d.types.size < depth)
    (hfuel : d.types.size < fuel) (order : List Nat) :
    Agrees [] (d.buildAll? depth order) (d.buildAll fuel order) := by
  induction order with
  | nil => exact agrees_pure [] _
  | cons i order ih =>
    have hfirst := d.buildSymbol?_agrees List.nodup_nil (by simp) hdepth hfuel i
    exact hfirst.bind fun t => ih.bind fun ts => agrees_pure [] _

/-- Nothing is lost by a bound on the depth that is above the number of declarations. -/
theorem buildSymbols?_eq (d : Declarations) {depth : Nat} (h : d.types.size < depth) :
    d.buildSymbols? depth = some d.buildSymbols := by
  obtain ⟨ts, w, hx, hy, -⟩ :=
    d.buildAll?_agrees h (Nat.lt_succ_self _) (List.range d.types.size) {} rfl
  rw [buildSymbols?, hx, buildSymbols, hy]
  rfl

/-! ### What a type has of its declaration -/

/-- A type goes by the name, the namespace and the type parameters of a declaration. It is what is
declared, or a type of that name to which the language gives a meaning of its own. -/
structure Represents (t : TypeDecl) (s : TypeSymbol) : Prop where
  name : s.name = t.name
  space : s.space = if t.space.isEmpty then none else some t.space
  arguments : s.arguments = t.typeParameters.map fun p => { name := p, kind := .typeParameter }
  kind : s.kind = t.kind ∧ s.special = .ordinary ∨
    t.space = "System" ∧ s.special.metadataName? = some t.name ∧
      s.kind = (TypeSymbol.ofSpecial s.special).kind

theorem represents_shell (t : TypeDecl) : Represents t (shell t) := by
  unfold shell
  simp only
  split
  · rename_i s hs
    split at hs
    · rename_i hsystem
      simp only [Bool.and_eq_true, beq_iff_eq, List.isEmpty_iff] at hsystem
      have hfound := List.find?_some hs
      simp only [Bool.and_eq_true, beq_iff_eq] at hfound
      refine ⟨?_, ?_, ?_, .inr ⟨hsystem.1, hfound.2, rfl⟩⟩
      · simp [ofSpecial, hfound.2]
      · simp [ofSpecial, hsystem.1]
      · simp [ofSpecial, hsystem.2]
    · cases hs
  · exact ⟨rfl, rfl, rfl, .inl ⟨rfl, rfl⟩⟩

theorem represents_symbolWith {d : Declarations} {i : Nat} {t : TypeDecl}
    (ht : d.types[i]? = some t) (σ : Nat → TypeSymbol) : Represents t (d.symbolWith σ i) := by
  obtain ⟨hname, hspace, harguments, hkind⟩ := represents_shell t
  rw [symbolWith, ht]
  exact ⟨hname, hspace, harguments, hkind⟩

/-- The building of all types ends with one type for each declaration, in their order, which has the
name, the namespace, the kind and the type parameters of its declaration. The recursion never goes
deeper than there are declarations. -/
theorem buildSymbols_total (d : Declarations) :
    (∀ more, d.buildSymbols? (d.types.size + 1 + more) = some d.buildSymbols) ∧
    List.Forall₂ Represents d.types.toList d.buildSymbols := by
  refine ⟨fun more => d.buildSymbols?_eq (by omega), ?_⟩
  rw [buildSymbols_eq, List.forall₂_iff_get]
  refine ⟨by simp, fun i hi hi' => ?_⟩
  rw [Array.length_toList] at hi
  have ht : d.types[i]? = some d.types[i] := Array.getElem?_eq_getElem hi
  obtain ⟨begun, -, hsymbol⟩ := exists_symbolIn_eq (List.mem_range.2 hi) ht
  simp only [List.get_eq_getElem, Array.getElem_toList, List.getElem_map, List.getElem_range]
  rw [hsymbol]
  exact represents_symbolWith ht _

/-- A class that extends itself, two that extend each other, and one that extends itself with itself
as a type argument. -/
def entangled : Declarations where
  types :=
    let extending := fun (name : String) (parameters : List String) (base : TypeExpr) =>
      { name, space := "", kind := .classType, typeParameters := parameters
        bases := [⟨base, { typeParameters := parameters }, true⟩] }
    #[extending "Loop" [] (.name "Loop" []),
      extending "Here" [] (.name "There" []),
      extending "There" [] (.name "Here" []),
      extending "Nest" ["T"] (.name "Nest" [.name "Nest" [.name "T" []]])]

example : entangled.buildSymbols.map (fun s => (s.fullName, s.base.map fullName)) =
    [("Loop", some "Loop"), ("Here", some "There"), ("There", some "Here"),
      ("Nest<T>", some "Nest<Nest<T>>")] := by
  decide +kernel

end Declarations

end PluginLint.Binding
