import Mathlib.Data.List.Perm.Subperm
import Mathlib.Logic.Relation
import PluginLint.Proofs.Binding.Resolving

/-!
# How types are built

The type of a declaration is built from those of the declarations that its bases mention. A
declaration that has been begun and is met again is taken without bases, so that what a type is
depends on which declarations had been begun when it was made. They all lead to it.
-/
namespace PluginLint.Binding
open TypeSymbol Relation

namespace Declarations

/-- The type of a declaration without what it is based on. -/
def shellAt (d : Declarations) (k : Nat) : TypeSymbol := ((d.types[k]?).map shell).getD default

/-- The bases of a declaration; those of an enumeration do not count. -/
def basesAt (d : Declarations) (i : Nat) : List BaseDecl :=
  match d.types[i]? with
  | some t => if t.kind == .enumType then [] else t.bases
  | none => []

/-- The declarations that the bases of one mention. -/
def references (d : Declarations) (i : Nat) : List Nat :=
  (d.basesAt i).flatMap fun b => d.mentions b.scope b.type

/-- One declaration mentions the other, or leads to one that does. -/
def Leads (d : Declarations) : Nat → Nat → Prop :=
  ReflTransGen fun i j => j ∈ d.references i

/-- The bases of a declaration, resolved when the types of the others are known. -/
def basesWith (d : Declarations) (σ : Nat → TypeSymbol) (i : Nat) : List (BaseDecl × TypeSymbol) :=
  (d.basesAt i).map fun b => (b, d.resolveWith σ b.scope b.type)

/-- The type of a declaration when those of the others are known. -/
def symbolWith (d : Declarations) (σ : Nat → TypeSymbol) (i : Nat) : TypeSymbol :=
  match d.types[i]? with
  | some t => assemble t (d.basesWith σ i)
  | none => default

theorem symbolWith_congr {d : Declarations} {σ τ : Nat → TypeSymbol} {i : Nat}
    (h : ∀ k ∈ d.references i, σ k = τ k) : d.symbolWith σ i = d.symbolWith τ i := by
  have hbases : d.basesWith σ i = d.basesWith τ i := by
    refine List.map_congr_left fun b hb => ?_
    have hb' : ∀ k ∈ d.mentions b.scope b.type, σ k = τ k := by
      intro k hk
      exact h k (List.mem_flatMap.2 ⟨b, hb, hk⟩)
    rw [resolveWith_congr hb']
  rw [symbolWith, symbolWith, hbases]

/-! ### States of the building -/

/-- The finished type of a declaration. -/
def Workshop.get (w : Workshop) (k : Nat) : Option TypeSymbol :=
  (w.finished.find? fun (j, _) => j == k).map Prod.snd

theorem Workshop.get_cons (k j : Nat) (u : TypeSymbol) (finished : List (Nat × TypeSymbol))
    (begun begun' : List Nat) :
    Workshop.get ⟨(j, u) :: finished, begun⟩ k =
      if j = k then some u else Workshop.get ⟨finished, begun'⟩ k := by
  by_cases hk : j = k <;> simp [get, hk]

/-- There is an answer to what the type of a declaration is, and it stays the same as long as no
declaration that has been begun is finished. -/
def Known (d : Declarations) (w : Workshop) (k : Nat) : Prop :=
  k ∈ w.begun ∨ (w.get k).isSome ∨ d.types[k]? = none

/-- The answer to what the type of a declaration is. -/
def view (d : Declarations) (w : Workshop) (k : Nat) : TypeSymbol := (w.get k).getD (d.shellAt k)

/-- What was taken for the type of a declaration when some had been begun. -/
def taken (d : Declarations) (w : Workshop) (begun : List Nat) (k : Nat) : TypeSymbol :=
  if k ∈ begun then d.shellAt k else (w.get k).getD default

/-- The type of a declaration was made when some declarations had been begun. -/
structure Made (d : Declarations) (w : Workshop) (begun : List Nat) (j : Nat) (u : TypeSymbol) :
    Prop where
  leads : ∀ b ∈ begun, d.Leads b j
  known : ∀ k ∈ d.references j, d.Known w k
  symbol : u = d.symbolWith (d.taken w begun) j

/-- The building has gone on without finishing what had been begun. The types that were made
meanwhile were made when the `begun` ones had been begun. -/
structure Grows (d : Declarations) (begun : List Nat) (w w' : Workshop) : Prop where
  same : w'.begun = w.begun
  kept : ∀ k, d.Known w k → w'.get k = w.get k
  fresh : ∀ j u, w.get j = none → w'.get j = some u →
    ∃ begun', begun ⊆ begun' ∧ d.Made w' begun' j u

section
variable {d : Declarations} {begun : List Nat} {w w' w'' : Workshop} {k : Nat}

theorem Known.grows (h : d.Known w k) (hw : d.Grows begun w w') : d.Known w' k := by
  have hkept := hw.kept k h
  rwa [Known, hw.same, hkept]

theorem Grows.view_eq (hw : d.Grows begun w w') (h : d.Known w k) :
    d.view w' k = d.view w k := by
  rw [view, hw.kept k h, view]

theorem Made.grows {begun' : List Nat} {j : Nat} {u : TypeSymbol} (h : d.Made w begun' j u)
    (hw : d.Grows begun w w') : d.Made w' begun' j u where
  leads := h.leads
  known := fun k hk => (h.known k hk).grows hw
  symbol := by
    rw [h.symbol]
    refine symbolWith_congr fun k hk => ?_
    rw [taken, taken, hw.kept k (h.known k hk)]

theorem Grows.refl (d : Declarations) (begun : List Nat) (w : Workshop) : d.Grows begun w w where
  same := rfl
  kept := fun _ _ => rfl
  fresh := fun j u hnone hsome => by simp [hnone] at hsome

theorem Grows.trans (h : d.Grows begun w w') (h' : d.Grows begun w' w'') :
    d.Grows begun w w'' where
  same := h'.same.trans h.same
  kept := fun k hk => (h'.kept k (hk.grows h)).trans (h.kept k hk)
  fresh := by
    intro j u hnone hsome
    cases hj : w'.get j with
    | none => exact h'.fresh j u hj hsome
    | some u' =>
      have hknown : d.Known w' j := .inr (.inl (by simp [hj]))
      have hsame : u' = u := by
        have hkept := h'.kept j hknown
        rw [hsome, hj] at hkept
        exact (Option.some.inj hkept).symm
      subst hsame
      obtain ⟨begun', hsub, hmade⟩ := h.fresh j u' hnone hj
      exact ⟨begun', hsub, hmade.grows h'⟩

theorem Grows.weaken {begun' : List Nat} (h : d.Grows begun w w') (hsub : begun' ⊆ begun) :
    d.Grows begun' w w' where
  same := h.same
  kept := h.kept
  fresh := by
    intro j u hnone hsome
    obtain ⟨begun'', hsub', hmade⟩ := h.fresh j u hnone hsome
    exact ⟨begun'', List.Subset.trans hsub hsub', hmade⟩

end

/-! ### Asking for types -/

/-- A computation asked for some declarations, and its value is made of the answers. -/
structure Answers {α : Type} (d : Declarations) (begun asked : List Nat) (w : Workshop)
    (r : α × Workshop) (f : (Nat → TypeSymbol) → α) : Prop where
  grows : d.Grows begun w r.2
  known : ∀ k ∈ asked, d.Known r.2 k
  value : r.1 = f (d.view r.2)

section
variable {α β γ : Type} {d : Declarations} {begun asked asked' : List Nat} {w : Workshop}

theorem answers_pure (d : Declarations) (begun : List Nat) (w : Workshop) (a : α) :
    d.Answers begun [] w (a, w) fun _ => a where
  grows := .refl d begun w
  known := by simp
  value := rfl

theorem answers_known {k : Nat} (h : d.Known w k) (begun : List Nat) :
    d.Answers begun [k] w (d.view w k, w) fun σ => σ k where
  grows := .refl d begun w
  known := by
    intro j hj
    rwa [List.mem_singleton.1 hj]
  value := rfl

theorem Answers.weaken {begun' : List Nat} {r : α × Workshop} {f : (Nat → TypeSymbol) → α}
    (h : d.Answers begun asked w r f) (hsub : begun' ⊆ begun) :
    d.Answers begun' asked w r f where
  grows := h.grows.weaken hsub
  known := h.known
  value := h.value

theorem Answers.map {r : α × Workshop} {f : (Nat → TypeSymbol) → α}
    (h : d.Answers begun asked w r f) (g : α → β) :
    d.Answers begun asked w (g r.1, r.2) fun σ => g (f σ) where
  grows := h.grows
  known := h.known
  value := congrArg g h.value

/-- What is asked for later does not change earlier answers. -/
theorem Answers.both {r : α × Workshop} {f : (Nat → TypeSymbol) → α}
    (h : d.Answers begun asked w r f)
    (hf : ∀ σ τ : Nat → TypeSymbol, (∀ k ∈ asked, σ k = τ k) → f σ = f τ) {r' : β × Workshop}
    {f' : (Nat → TypeSymbol) → β} (h' : d.Answers begun asked' r.2 r' f') (g : α → β → γ) :
    d.Answers begun (asked ++ asked') w (g r.1 r'.1, r'.2) fun σ => g (f σ) (f' σ) where
  grows := h.grows.trans h'.grows
  known := by
    intro k hk
    rcases List.mem_append.1 hk with hk | hk
    · exact (h.known k hk).grows h'.grows
    · exact h'.known k hk
  value := by
    have hlater : f (d.view r.2) = f (d.view r'.2) :=
      hf _ _ fun k hk => (h'.grows.view_eq (h.known k hk)).symm
    rw [h.value, h'.value, hlater]

end

/-- From a state on, a declaration can be asked for. -/
def Serves (d : Declarations) (begun : List Nat) (symbol : Nat → StateM Workshop TypeSymbol)
    (start : Workshop) (k : Nat) : Prop :=
  ∀ w, d.Grows begun start w → d.Answers begun [k] w ((symbol k).run w) fun σ => σ k

section
variable {d : Declarations} {begun : List Nat} {symbol : Nat → StateM Workshop TypeSymbol}
  {start : Workshop}

theorem resolveHead_answers {scope : Scope} {t : TypeExpr} {asked : List Nat} {w : Workshop}
    {r : List TypeSymbol × Workshop} {f : (Nat → TypeSymbol) → List TypeSymbol}
    (hserves : ∀ k ∈ (d.head? scope t).toList, d.Serves begun symbol start k)
    (hstart : d.Grows begun start w) (h : d.Answers begun asked w r f)
    (hf : ∀ σ τ : Nat → TypeSymbol, (∀ k ∈ asked, σ k = τ k) → f σ = f τ) :
    d.Answers begun (asked ++ (d.head? scope t).toList) w
      ((d.resolveHead symbol scope t r.1).run r.2) fun σ => d.headWith σ scope t (f σ) := by
  unfold resolveHead headWith
  cases hk : d.head? scope t with
  | none =>
    rw [Option.toList_none, List.append_nil]
    exact h.map (d.undeclared scope t)
  | some k =>
    have hanswers := hserves k (by simp [hk]) r.2 (hstart.trans h.grows)
    exact h.both hf hanswers fun arguments u => instantiate u arguments

mutual

theorem resolve_answers {scope : Scope} : ∀ {t : TypeExpr} {w : Workshop},
    (∀ k ∈ d.mentions scope t, d.Serves begun symbol start k) → d.Grows begun start w →
      d.Answers begun (d.mentions scope t) w ((d.resolve symbol scope t).run w)
        fun σ => d.resolveWith σ scope t
  | .special s, w, _, _ => by
    simp only [resolveWith_special, mentions, resolve]
    exact answers_pure d begun w _
  | .nullable inner, w, hserves, hstart => by
    rw [mentions] at hserves
    have h := resolve_answers hserves hstart
    simp only [resolveWith_nullable, mentions, resolve]
    exact h.map orMissing
  | .array element ranks, w, hserves, hstart => by
    rw [mentions] at hserves
    have h := resolve_answers hserves hstart
    simp only [resolveWith_array, mentions, resolve]
    exact h.map (nestArrays ranks)
  | .tuple elements, w, hserves, hstart => by
    rw [mentions] at hserves
    have h := resolveAll_answers hserves hstart
    simp only [resolveWith_tuple, mentions, resolve]
    exact h.map fun arguments => (
      { name := "ValueTuple"
        space := some "System"
        kind := .structType
        arguments } : TypeSymbol)
  | .name name arguments, w, hserves, hstart => by
    rw [mentions] at hserves
    have h := resolveAll_answers (fun k hk => hserves k (List.mem_append_left _ hk)) hstart
    simp only [resolveWith_name, mentions, resolve_name]
    exact resolveHead_answers (fun k hk => hserves k (List.mem_append_right _ hk)) hstart h
      fun σ τ hsame => resolveAllWith_congr hsame
  | .qualified dotted arguments, w, hserves, hstart => by
    rw [mentions] at hserves
    have h := resolveAll_answers (fun k hk => hserves k (List.mem_append_left _ hk)) hstart
    simp only [resolveWith_qualified, mentions, resolve_qualified]
    exact resolveHead_answers (fun k hk => hserves k (List.mem_append_right _ hk)) hstart h
      fun σ τ hsame => resolveAllWith_congr hsame
  | .broken text, w, _, _ => by
    simp only [resolveWith_broken, mentions, resolve]
    exact answers_pure d begun w _

theorem resolveAll_answers {scope : Scope} : ∀ {ts : List TypeExpr} {w : Workshop},
    (∀ k ∈ d.mentionsAll scope ts, d.Serves begun symbol start k) → d.Grows begun start w →
      d.Answers begun (d.mentionsAll scope ts) w ((d.resolveAll symbol scope ts).run w)
        fun σ => d.resolveAllWith σ scope ts
  | [], w, _, _ => by
    simp only [resolveAllWith_nil, mentionsAll, resolveAll]
    exact answers_pure d begun w _
  | t :: ts, w, hserves, hstart => by
    rw [mentionsAll] at hserves
    have h := resolve_answers (fun k hk => hserves k (List.mem_append_left _ hk)) hstart
    have hrest := resolveAll_answers (fun k hk => hserves k (List.mem_append_right _ hk))
      (hstart.trans h.grows)
    simp only [resolveAllWith_cons, mentionsAll, resolveAll]
    exact h.both (fun σ τ hsame => resolveWith_congr hsame) hrest List.cons

end

theorem resolveBases_answers {bases : List BaseDecl} {w : Workshop}
    (hserves : ∀ k ∈ bases.flatMap fun b => d.mentions b.scope b.type,
      d.Serves begun symbol start k) (hstart : d.Grows begun start w) :
    d.Answers begun (bases.flatMap fun b => d.mentions b.scope b.type) w
      ((d.resolveBases symbol bases).run w)
      fun σ => bases.map fun b => (b, d.resolveWith σ b.scope b.type) := by
  induction bases generalizing w with
  | nil => exact answers_pure d begun w []
  | cons b bases ih =>
    rw [List.flatMap_cons] at hserves
    have h := resolve_answers (fun k hk => hserves k (List.mem_append_left _ hk)) hstart
    have hrest := ih (fun k hk => hserves k (List.mem_append_right _ hk)) (hstart.trans h.grows)
    exact h.both (fun σ τ hsame => resolveWith_congr hsame) hrest fun t rest => (b, t) :: rest

end

/-! ### One declaration after the other -/

section
variable {d : Declarations} {fuel k : Nat} {w : Workshop}

theorem buildSymbol_of_get {u : TypeSymbol} (h : w.get k = some u) :
    (d.buildSymbol (fuel + 1) k).run w = (u, w) := by
  obtain ⟨⟨j, u'⟩, hfind, rfl⟩ := Option.map_eq_some_iff.1 h
  simp only [buildSymbol, StateT.run_bind, StateT.run_get, pure_bind, hfind, StateT.run_pure]
  rfl

theorem buildSymbol_of_outside (h : w.get k = none) (hk : d.types[k]? = none) :
    (d.buildSymbol (fuel + 1) k).run w = (default, w) := by
  have hfind := Option.map_eq_none_iff.1 h
  simp only [buildSymbol, StateT.run_bind, StateT.run_get, pure_bind, hfind, hk, StateT.run_pure]
  rfl

theorem buildSymbol_of_begun {t : TypeDecl} (h : w.get k = none) (hk : d.types[k]? = some t)
    (hbegun : k ∈ w.begun) : (d.buildSymbol (fuel + 1) k).run w = (shell t, w) := by
  have hfind := Option.map_eq_none_iff.1 h
  simp only [buildSymbol, StateT.run_bind, StateT.run_get, pure_bind, hfind, hk,
    List.contains_eq_mem, hbegun, decide_true, ↓reduceIte, StateT.run_pure]
  rfl

/-- A declaration that is new is begun, its bases are resolved, and it is finished. -/
theorem buildSymbol_of_new {t : TypeDecl} (h : w.get k = none) (hk : d.types[k]? = some t)
    (hbegun : k ∉ w.begun) {r : List (BaseDecl × TypeSymbol) × Workshop}
    (hr : (d.resolveBases (d.buildSymbol fuel) (d.basesAt k)).run
      { w with begun := k :: w.begun } = r) :
    (d.buildSymbol (fuel + 1) k).run w =
      (assemble t r.1, ⟨(k, assemble t r.1) :: r.2.finished, r.2.begun.erase k⟩) := by
  have hfind := Option.map_eq_none_iff.1 h
  subst hr
  by_cases henum : (t.kind == .enumType) = true
  · have hbases : d.basesAt k = [] := by simp [basesAt, hk, henum]
    simp only [buildSymbol, StateT.run_bind, StateT.run_get, pure_bind, hfind, hk,
      List.contains_eq_mem, hbegun, decide_false, henum, hbases, ↓reduceIte]
    rfl
  · have hbases : d.basesAt k = t.bases := by simp [basesAt, hk, henum]
    simp only [buildSymbol, StateT.run_bind, StateT.run_get, pure_bind, hfind, hk,
      List.contains_eq_mem, hbegun, decide_false, henum, hbases]
    rfl

/-- There is room to begin all declarations that have not been begun. -/
structure Ready (d : Declarations) (fuel : Nat) (w : Workshop) : Prop where
  nodup : w.begun.Nodup
  inside : ∀ k ∈ w.begun, k < d.types.size
  unfinished : ∀ k ∈ w.begun, w.get k = none
  room : d.types.size < fuel + w.begun.length

theorem Ready.fuel_pos (h : d.Ready fuel w) : 0 < fuel := by
  have hsub : w.begun ⊆ List.range d.types.size := fun k hk => List.mem_range.2 (h.inside k hk)
  have hle := (h.nodup.subperm hsub).length_le
  have hroom := h.room
  rw [List.length_range] at hle
  omega

theorem Ready.begin (h : d.Ready (fuel + 1) w) {t : TypeDecl} (hk : d.types[k]? = some t)
    (hget : w.get k = none) (hbegun : k ∉ w.begun) :
    d.Ready fuel { w with begun := k :: w.begun } where
  nodup := List.nodup_cons.2 ⟨hbegun, h.nodup⟩
  inside := by
    obtain ⟨hlt, -⟩ := Array.getElem?_eq_some_iff.1 hk
    exact List.forall_mem_cons.2 ⟨hlt, h.inside⟩
  unfinished := List.forall_mem_cons.2 ⟨hget, h.unfinished⟩
  room := by
    have hroom := h.room
    simp only [List.length_cons]
    omega

theorem Ready.grows {begun : List Nat} {w' : Workshop} (h : d.Ready fuel w)
    (hw : d.Grows begun w w') : d.Ready fuel w' where
  nodup := hw.same ▸ h.nodup
  inside := hw.same ▸ h.inside
  unfinished := by
    intro k hk
    rw [hw.same] at hk
    exact (hw.kept k (.inl hk)).trans (h.unfinished k hk)
  room := hw.same ▸ h.room

/-- A declaration that has been begun is finished. -/
def Workshop.finish (w : Workshop) (k : Nat) (u : TypeSymbol) : Workshop :=
  ⟨(k, u) :: w.finished, w.begun.erase k⟩

theorem Workshop.get_finish (w : Workshop) (k j : Nat) (u : TypeSymbol) :
    (w.finish k u).get j = if k = j then some u else w.get j :=
  Workshop.get_cons j k u w.finished _ w.begun

theorem Known.finish {j : Nat} (h : d.Known w j) (k : Nat) (u : TypeSymbol) :
    d.Known (w.finish k u) j := by
  by_cases hj : k = j
  · exact .inr (.inl (by simp [Workshop.get_finish, hj]))
  · rcases h with h | h | h
    · exact .inl ((List.mem_erase_of_ne (Ne.symm hj)).2 h)
    · exact .inr (.inl (by simpa [Workshop.get_finish, hj] using h))
    · exact .inr (.inr h)

/-- What was made when a declaration had been begun does not depend on what it turns out to be. -/
theorem Made.finish {begun : List Nat} {j : Nat} {v : TypeSymbol} (h : d.Made w begun j v)
    (hk : k ∈ begun) (u : TypeSymbol) : d.Made (w.finish k u) begun j v where
  leads := h.leads
  known := fun i hi => (h.known i hi).finish k u
  symbol := by
    rw [h.symbol]
    refine symbolWith_congr fun i _ => ?_
    by_cases hi : k = i
    · subst hi
      simp [taken, hk]
    · simp [taken, Workshop.get_finish, hi]

/-- The type of a new declaration is made of the answers to what its bases mention. -/
theorem made_new {t : TypeDecl} (hk : d.types[k]? = some t)
    (hunfinished : ∀ b ∈ k :: w.begun, w.get b = none) (hleads : ∀ b ∈ w.begun, d.Leads b k)
    {r : List (BaseDecl × TypeSymbol) × Workshop}
    (h : d.Answers (k :: w.begun) (d.references k) { w with begun := k :: w.begun } r
      fun σ => d.basesWith σ k) :
    d.Made (r.2.finish k (assemble t r.1)) (k :: w.begun) k (assemble t r.1) where
  leads := List.forall_mem_cons.2 ⟨.refl, hleads⟩
  known := fun j hj => (h.known j hj).finish k _
  symbol := by
    have hsymbol : assemble t r.1 = d.symbolWith (d.view r.2) k := by
      rw [symbolWith, hk, h.value]
    conv_lhs => rw [hsymbol]
    refine symbolWith_congr fun j hj => ?_
    by_cases hbegun : j ∈ k :: w.begun
    · have hget : r.2.get j = none :=
        (h.grows.kept j (.inl hbegun)).trans (hunfinished j hbegun)
      simp [view, taken, hbegun, hget]
    · have hne : k ≠ j := by
        rintro rfl
        exact hbegun List.mem_cons_self
      rcases h.known j hj with hj | hj | hj
      · rw [h.grows.same] at hj
        exact absurd hj hbegun
      · obtain ⟨u, hu⟩ := Option.isSome_iff_exists.1 hj
        simp [view, taken, hbegun, Workshop.get_finish, hne, hu]
      · simp [view, taken, hbegun, Workshop.get_finish, hne, shellAt, hj]

theorem answers_new {t : TypeDecl} (hk : d.types[k]? = some t) (hbegun : k ∉ w.begun)
    (hunfinished : ∀ b ∈ k :: w.begun, w.get b = none) (hleads : ∀ b ∈ w.begun, d.Leads b k)
    {r : List (BaseDecl × TypeSymbol) × Workshop}
    (h : d.Answers (k :: w.begun) (d.references k) { w with begun := k :: w.begun } r
      fun σ => d.basesWith σ k) :
    d.Answers (k :: w.begun) [k] w (assemble t r.1, r.2.finish k (assemble t r.1))
      fun σ => σ k := by
  have hget : w.get k = none := hunfinished k List.mem_cons_self
  refine ⟨⟨?_, ?_, ?_⟩, ?_, ?_⟩
  · rw [Workshop.finish, h.grows.same]
    exact List.erase_cons_head k w.begun
  · intro j hj
    have hne : k ≠ j := by
      rintro rfl
      rcases hj with hj | hj | hj
      · exact hbegun hj
      · simp [hget] at hj
      · simp [hk] at hj
    have hj' : d.Known { w with begun := k :: w.begun } j := by
      rcases hj with hj | hj
      · exact .inl (List.mem_cons_of_mem k hj)
      · exact .inr hj
    rw [Workshop.get_finish, if_neg hne]
    exact h.grows.kept j hj'
  · intro j u hnone hsome
    by_cases hne : k = j
    · subst hne
      rw [Workshop.get_finish, if_pos rfl] at hsome
      cases hsome
      exact ⟨k :: w.begun, List.Subset.refl _, made_new hk hunfinished hleads h⟩
    · rw [Workshop.get_finish, if_neg hne] at hsome
      obtain ⟨begun', hsub, hmade⟩ := h.grows.fresh j u hnone hsome
      exact ⟨begun', hsub, hmade.finish (hsub List.mem_cons_self) _⟩
  · intro j hj
    rw [List.mem_singleton.1 hj]
    exact .inr (.inl (by simp [Workshop.get_finish]))
  · simp [view, Workshop.get_finish]

end

/-- Any declaration can be asked for. What is made on the way is made when the declaration, and those
begun before it, have been begun. -/
theorem buildSymbol_answers (d : Declarations) {fuel k : Nat} {w : Workshop}
    (hready : d.Ready fuel w) (hleads : ∀ b ∈ w.begun, d.Leads b k) :
    d.Answers (k :: w.begun) [k] w ((d.buildSymbol fuel k).run w) fun σ => σ k := by
  induction fuel generalizing w k with
  | zero => exact absurd hready.fuel_pos (Nat.lt_irrefl 0)
  | succ fuel ih =>
    cases hget : w.get k with
    | some u =>
      have hknown : d.Known w k := .inr (.inl (by simp [hget]))
      have hview : u = d.view w k := by simp [view, hget]
      rw [buildSymbol_of_get hget, hview]
      exact answers_known hknown _
    | none =>
      cases hk : d.types[k]? with
      | none =>
        have hknown : d.Known w k := .inr (.inr hk)
        have hview : default = d.view w k := by simp [view, hget, shellAt, hk]
        rw [buildSymbol_of_outside hget hk, hview]
        exact answers_known hknown _
      | some t =>
        by_cases hbegun : k ∈ w.begun
        · have hknown : d.Known w k := .inl hbegun
          have hview : shell t = d.view w k := by simp [view, hget, shellAt, hk]
          rw [buildSymbol_of_begun hget hk hbegun, hview]
          exact answers_known hknown _
        · have hready' := hready.begin hk hget hbegun
          have hserves : ∀ j ∈ d.references k, d.Serves (k :: w.begun) (d.buildSymbol fuel)
              { w with begun := k :: w.begun } j := by
            intro j hj w' hw'
            have hj' : ∀ b ∈ w'.begun, d.Leads b j := by
              rw [hw'.same]
              exact List.forall_mem_cons.2 ⟨.single hj, fun b hb => (hleads b hb).tail hj⟩
            have hanswers := ih (hready'.grows hw') hj'
            rw [hw'.same] at hanswers
            exact hanswers.weaken (List.subset_cons_self j _)
          have hbases := resolveBases_answers hserves (.refl _ _ _)
          rw [buildSymbol_of_new hget hk hbegun rfl]
          exact answers_new hk hbegun hready'.unfinished hleads hbases

/-! ### All declarations -/

section
variable {d : Declarations} {order : List Nat} {w : Workshop}

theorem ready_of_begun_eq_nil (h : w.begun = []) : d.Ready (d.types.size + 1) w where
  nodup := by simp [h]
  inside := by simp [h]
  unfinished := by simp [h]
  room := by omega

theorem buildAll_answers (h : w.begun = []) :
    d.Answers [] order w ((d.buildAll (d.types.size + 1) order).run w) fun σ => order.map σ := by
  induction order generalizing w with
  | nil => exact answers_pure d [] w []
  | cons i order ih =>
    have hfirst := d.buildSymbol_answers (k := i) (ready_of_begun_eq_nil h) (by simp [h])
    have hfirst' := hfirst.weaken (List.nil_subset _)
    have hrest := ih (hfirst.grows.same.trans h)
    exact hfirst'.both (fun σ τ hsame => hsame i List.mem_cons_self) hrest List.cons

/-- The building of all declarations in some order. -/
def built (d : Declarations) (order : List Nat) : Workshop :=
  ((d.buildAll (d.types.size + 1) order).run {}).2

/-- The type of a declaration when all are built in some order. -/
def symbolIn (d : Declarations) (order : List Nat) (i : Nat) : TypeSymbol :=
  ((d.built order).get i).getD default

theorem built_grows (d : Declarations) (order : List Nat) : d.Grows [] {} (d.built order) :=
  (buildAll_answers rfl).grows

theorem begun_built (d : Declarations) (order : List Nat) : (d.built order).begun = [] :=
  (d.built_grows order).same

theorem get_built {i : Nat} {t : TypeDecl} (hi : i ∈ order) (ht : d.types[i]? = some t) :
    (d.built order).get i = some (d.symbolIn order i) := by
  have hknown : d.Known (d.built order) i := (buildAll_answers rfl).known i hi
  rcases hknown with hbegun | hget | houtside
  · simp [begun_built] at hbegun
  · obtain ⟨u, hu⟩ := Option.isSome_iff_exists.1 hget
    simp [symbolIn, hu]
  · simp [ht] at houtside

/-- The type of a declaration is made of the types of the others, some of them taken without what
they are based on. -/
theorem Made.symbolIn_eq {begun : List Nat} {i : Nat} {u : TypeSymbol}
    (h : d.Made (d.built order) begun i u) (hget : (d.built order).get i = some u) :
    d.symbolIn order i =
      d.symbolWith (fun k => if k ∈ begun then d.shellAt k else d.symbolIn order k) i := by
  have hu : d.symbolIn order i = u := by simp [symbolIn, hget]
  rw [hu]
  exact h.symbol

/-- A declaration that is taken without what it is based on leads to the one it is taken for. -/
theorem exists_symbolIn_eq {i : Nat} {t : TypeDecl} (hi : i ∈ order) (ht : d.types[i]? = some t) :
    ∃ begun : List Nat, (∀ b ∈ begun, d.Leads b i) ∧ d.symbolIn order i =
      d.symbolWith (fun k => if k ∈ begun then d.shellAt k else d.symbolIn order k) i := by
  have hget := get_built hi ht
  obtain ⟨begun, -, hmade⟩ := (d.built_grows order).fresh i _ rfl hget
  exact ⟨begun, hmade.leads, hmade.symbolIn_eq hget⟩

/-- All that a declaration leads to is finished when it is. -/
theorem Grows.known_of_leads {begun : List Nat} {e i : Nat} (hw : d.Grows begun {} w)
    (he : d.Known w e) (h : d.Leads e i) : d.Known w i := by
  induction h with
  | refl => exact he
  | @tail j k _ hk ih =>
    rcases ih with hbegun | hget | houtside
    · rw [hw.same] at hbegun
      cases hbegun
    · obtain ⟨u, hu⟩ := Option.isSome_iff_exists.1 hget
      obtain ⟨begun', -, hmade⟩ := hw.fresh j u rfl hu
      exact hmade.known k hk
    · simp [references, basesAt, houtside] at hk

/-- The declaration that is built first is taken without what it is based on for all that it leads
to. -/
theorem exists_symbolIn_cons_eq {e i : Nat} {t : TypeDecl} (h : d.Leads e i)
    (ht : d.types[i]? = some t) (order : List Nat) :
    ∃ begun : List Nat, e ∈ begun ∧ d.symbolIn (e :: order) i =
      d.symbolWith (fun k => if k ∈ begun then d.shellAt k else d.symbolIn (e :: order) k) i := by
  have hfirst := d.buildSymbol_answers (k := e) (w := {}) (ready_of_begun_eq_nil rfl) (by simp)
  have hrest : d.Grows [] ((d.buildSymbol (d.types.size + 1) e).run {}).2 (d.built (e :: order)) :=
    (buildAll_answers hfirst.grows.same).grows
  have hknown := hfirst.grows.known_of_leads (hfirst.known e List.mem_cons_self) h
  rcases hknown with hbegun | hget | houtside
  · rw [hfirst.grows.same] at hbegun
    cases hbegun
  · obtain ⟨u, hu⟩ := Option.isSome_iff_exists.1 hget
    obtain ⟨begun, hsub, hmade⟩ := hfirst.grows.fresh i u rfl hu
    have hkept := hrest.kept i (.inr (.inl hget))
    rw [hu] at hkept
    exact ⟨begun, hsub List.mem_cons_self, (hmade.grows hrest).symbolIn_eq hkept⟩
  · simp [ht] at houtside

/-- The types of all declarations are those that are built in the order of the declarations. -/
theorem buildSymbols_eq (d : Declarations) :
    d.buildSymbols =
      (List.range d.types.size).map (d.symbolIn (List.range d.types.size)) := by
  have hanswers : d.Answers [] (List.range d.types.size) {}
      ((d.buildAll (d.types.size + 1) (List.range d.types.size)).run {})
      fun σ => (List.range d.types.size).map σ := buildAll_answers rfl
  rw [buildSymbols, hanswers.value]
  refine List.map_congr_left fun i hi => ?_
  obtain ⟨t, ht⟩ : ∃ t, d.types[i]? = some t :=
    ⟨_, Array.getElem?_eq_getElem (List.mem_range.1 hi)⟩
  have hget := get_built hi ht
  exact congrArg (fun found => found.getD (d.shellAt i)) hget

end

end Declarations

end PluginLint.Binding
