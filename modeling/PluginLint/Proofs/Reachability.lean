import Mathlib.Data.List.Nodup
import PluginLint.Proofs.Binding.BaseChains

/-!
# What is above a type

The search for a name goes on above a type only if no type of the same full name has been met. So it
finds what can be reached wherever types that share a full name have the same above them. There the
walk along base types meets all of them as well, as no full name can come back.
-/
namespace PluginLint.TypeSymbol
open Relation

/-- The second type is the first, or stands above it as a base type or an interface. -/
def Reaches : TypeSymbol → TypeSymbol → Prop := ReflTransGen fun t u => u ∈ t.above

/-- Two types have the same name in the same namespace, and the same types directly above them.
Those are the same if their full names are. -/
structure Alike (t u : TypeSymbol) : Prop where
  name : t.name = u.name
  space : t.space = u.space
  base : t.base.map fullName = u.base.map fullName
  interfaces : t.interfaces.map fullName = u.interfaces.map fullName

/-- A full name stands for one type among all that a type reaches. -/
def Coherent (t : TypeSymbol) : Prop :=
  ∀ u v, t.Reaches u → t.Reaches v → u.fullName = v.fullName → Alike u v

theorem mem_above {t u : TypeSymbol} : u ∈ t.above ↔ t.base = some u ∨ u ∈ t.interfaces := by
  simp [above, or_comm]

theorem Alike.fullNames_above {t u : TypeSymbol} (h : Alike t u) :
    t.above.map fullName = u.above.map fullName := by
  have hbase := congrArg Option.toList h.base
  simp only [above, List.map_append, List.map_reverse, h.interfaces, Option.toList_map] at hbase ⊢
  rw [hbase]

/-- It is enough that the types have different full names in some list that holds the type and what
is above its members. -/
theorem coherent_of_closed {t : TypeSymbol} (all : List TypeSymbol) (ht : t ∈ all)
    (hall : ∀ u ∈ all, u.above ⊆ all) (hnodup : (all.map fullName).Nodup) :
    t.Coherent := by
  have hmem : ∀ u, t.Reaches u → u ∈ all := by
    intro u hu
    induction hu with
    | refl => exact ht
    | tail _ hw ih => exact hall _ ih hw
  intro u v hu hv hname
  rw [List.inj_on_of_nodup_map hnodup (hmem u hu) (hmem v hv) hname]
  exact ⟨rfl, rfl, rfl, rfl⟩

/-! ### The search -/

/-- What a search that has found nothing knows: the full names it has met. For each that is new there
is a type above which all names have been met, too. -/
structure Settled (name : String) (seen : List String) (pending : List TypeSymbol)
    (met : List String) : Prop where
  old : seen ⊆ met
  fresh : ∀ t ∈ pending, t.fullName ∈ met
  behind : ∀ full ∈ met, full ∈ seen ∨ ∃ t ∈ pending, ∃ u, t.Reaches u ∧ u.fullName = full ∧
    u.name ≠ name ∧ ∀ v ∈ u.above, v.fullName ∈ met

section
variable {name : String} {seen met : List String} {t : TypeSymbol} {pending : List TypeSymbol}

theorem Settled.skip (h : Settled name seen pending met) (ht : t.fullName ∈ seen) :
    Settled name seen (t :: pending) met where
  old := h.old
  fresh := List.forall_mem_cons.2 ⟨h.old ht, h.fresh⟩
  behind := by
    intro full hfull
    obtain hseen | ⟨u, hu, hbehind⟩ := h.behind full hfull
    · exact .inl hseen
    · exact .inr ⟨u, List.mem_cons_of_mem t hu, hbehind⟩

/-- The types above a type take its place among those that wait. -/
theorem Settled.expand (h : Settled name (t.fullName :: seen) (t.above ++ pending) met)
    (hne : t.name ≠ name) : Settled name seen (t :: pending) met where
  old := (List.cons_subset.1 h.old).2
  fresh := by
    refine List.forall_mem_cons.2 ⟨h.old List.mem_cons_self, fun u hu => ?_⟩
    exact h.fresh u (List.mem_append_right _ hu)
  behind := by
    intro full hfull
    obtain hseen | ⟨u, hu, v, hreaches, hbehind⟩ := h.behind full hfull
    · rcases List.mem_cons.1 hseen with rfl | hseen
      · have habove : ∀ v ∈ t.above, v.fullName ∈ met := fun v hv =>
          h.fresh v (List.mem_append_left _ hv)
        exact .inr ⟨t, List.mem_cons_self, t, .refl, rfl, hne, habove⟩
      · exact .inl hseen
    · rcases List.mem_append.1 hu with hu | hu
      · exact .inr ⟨t, List.mem_cons_self, v, .head hu hreaches, hbehind⟩
      · exact .inr ⟨u, List.mem_cons_of_mem t hu, v, hreaches, hbehind⟩

theorem exists_settled (h : anyNamed name seen pending = false) :
    ∃ met, Settled name seen pending met := by
  induction seen, pending using anyNamed.induct name with
  | case1 seen =>
    exact ⟨seen, List.Subset.refl _, by simp, fun full hfull => .inl hfull⟩
  | case2 seen t pending hseen ih =>
    rw [anyNamed, if_pos hseen] at h
    obtain ⟨met, hmet⟩ := ih h
    exact ⟨met, hmet.skip (List.contains_iff_mem.1 hseen)⟩
  | case3 seen t pending hseen hname =>
    rw [anyNamed, if_neg hseen, if_pos hname] at h
    cases h
  | case4 seen t pending hseen hname ih =>
    rw [anyNamed, if_neg hseen, if_neg hname] at h
    obtain ⟨met, hmet⟩ := ih h
    exact ⟨met, hmet.expand fun heq => hname (beq_iff_eq.2 heq)⟩

/-- Nothing is found that cannot be reached. -/
theorem exists_of_anyNamed (h : anyNamed name seen pending = true) :
    ∃ t ∈ pending, ∃ u, t.Reaches u ∧ u.name = name := by
  induction seen, pending using anyNamed.induct name with
  | case1 seen =>
    rw [anyNamed] at h
    cases h
  | case2 seen t pending hseen ih =>
    rw [anyNamed, if_pos hseen] at h
    obtain ⟨u, hu, hfound⟩ := ih h
    exact ⟨u, List.mem_cons_of_mem t hu, hfound⟩
  | case3 seen t pending hseen hname =>
    exact ⟨t, List.mem_cons_self, t, .refl, beq_iff_eq.1 hname⟩
  | case4 seen t pending hseen hname ih =>
    rw [anyNamed, if_neg hseen, if_neg hname] at h
    obtain ⟨u, hu, v, hreaches, hv⟩ := ih h
    rcases List.mem_append.1 hu with hu | hu
    · exact ⟨t, List.mem_cons_self, v, .head hu hreaches, hv⟩
    · exact ⟨u, List.mem_cons_of_mem t hu, v, hreaches, hv⟩

/-- A search that starts at a type and finds nothing has met the full name of every type that is
reached. -/
theorem Coherent.fullName_mem (h : t.Coherent) (hmet : Settled name [] [t] met) {u : TypeSymbol}
    (hu : t.Reaches u) : u.fullName ∈ met := by
  induction hu with
  | refl => exact hmet.fresh t List.mem_cons_self
  | @tail v w hv hw ih =>
    obtain hnil | ⟨t', ht', v', hv', hfull, -, habove⟩ := hmet.behind v.fullName ih
    · cases hnil
    · rw [List.mem_singleton.1 ht'] at hv'
      have halike := h v' v hv' hv hfull
      have hmem := List.mem_map_of_mem (f := fullName) hw
      rw [← halike.fullNames_above] at hmem
      obtain ⟨w', hw', hname⟩ := List.mem_map.1 hmem
      exact hname ▸ habove w' hw'

theorem Coherent.implements_iff (h : t.Coherent) (name : String) :
    t.implements name = true ↔ ∃ u, t.Reaches u ∧ u.name = name := by
  constructor
  · intro hfound
    obtain ⟨t', ht', u, hu, hname⟩ := exists_of_anyNamed hfound
    rw [List.mem_singleton.1 ht'] at hu
    exact ⟨u, hu, hname⟩
  · rintro ⟨u, hu, hname⟩
    by_contra hmissed
    obtain ⟨met, hmet⟩ := exists_settled (Bool.eq_false_iff.2 hmissed)
    obtain hnil | ⟨t', ht', v, hv, hfull, hne, -⟩ := hmet.behind _ (h.fullName_mem hmet hu)
    · cases hnil
    · rw [List.mem_singleton.1 ht'] at hv
      exact hne ((h v u hv hu hfull).name.trans hname)

end

/-! ### The walk along base types -/

theorem lineage_of_base {t b : TypeSymbol} (h : t.base = some b) : t.lineage = t :: b.lineage := by
  rw [lineage, ascent_of_base h]

theorem lineage_of_base_eq_none {t : TypeSymbol} (h : t.base = none) : t.lineage = [t] := by
  rw [lineage, ascent_of_base_eq_none h]

theorem reaches_of_mem_lineage {t u : TypeSymbol} (h : u ∈ t.lineage) : t.Reaches u := by
  cases hb : t.base with
  | none =>
    rw [lineage_of_base_eq_none hb, List.mem_singleton] at h
    exact h ▸ .refl
  | some b =>
    rw [lineage_of_base hb] at h
    rcases List.mem_cons.1 h with rfl | h
    · exact .refl
    · have hrank := rank_of_base hb
      exact .head (mem_above.2 (.inl hb)) (reaches_of_mem_lineage h)
termination_by t.rank

theorem length_lineage_le {t u : TypeSymbol} (h : u ∈ t.lineage) :
    u.lineage.length ≤ t.lineage.length := by
  cases hb : t.base with
  | none =>
    rw [lineage_of_base_eq_none hb, List.mem_singleton] at h
    exact h ▸ Nat.le_refl _
  | some b =>
    rw [lineage_of_base hb] at h
    rcases List.mem_cons.1 h with rfl | h
    · exact Nat.le_refl _
    · have hrank := rank_of_base hb
      rw [lineage_of_base hb]
      exact Nat.le_succ_of_le (length_lineage_le h)
termination_by t.rank

/-- Types of one full name have equally many types above them. -/
theorem Coherent.length_lineage_eq {t u v : TypeSymbol} (h : t.Coherent) (hu : t.Reaches u)
    (hv : t.Reaches v) (hname : u.fullName = v.fullName) : u.lineage.length = v.lineage.length := by
  have halike := (h u v hu hv hname).base
  cases hb : u.base with
  | none =>
    rw [hb, Option.map_none, eq_comm, Option.map_eq_none_iff] at halike
    rw [lineage_of_base_eq_none hb, lineage_of_base_eq_none halike]
    rfl
  | some b =>
    rw [hb, Option.map_some, eq_comm, Option.map_eq_some_iff] at halike
    obtain ⟨c, hc, hsame⟩ := halike
    have hrank := rank_of_base hb
    have ih := h.length_lineage_eq (hu.tail (mem_above.2 (.inl hb)))
      (hv.tail (mem_above.2 (.inl hc))) hsame.symm
    rw [lineage_of_base hb, lineage_of_base hc, List.length_cons, List.length_cons, ih]
termination_by u.rank

theorem Coherent.nodup_lineage {t u : TypeSymbol} (h : t.Coherent) (hu : t.Reaches u) :
    (u.lineage.map fullName).Nodup := by
  cases hb : u.base with
  | none => simp [lineage_of_base_eq_none hb]
  | some b =>
    have hrank := rank_of_base hb
    have hbelow : t.Reaches b := hu.tail (mem_above.2 (.inl hb))
    have ih := h.nodup_lineage hbelow
    rw [lineage_of_base hb, List.map_cons, List.nodup_cons]
    refine ⟨fun hmem => ?_, ih⟩
    -- A type further up with the name of this one would have as many types above it.
    obtain ⟨w, hw, hname⟩ := List.mem_map.1 hmem
    have hlength := h.length_lineage_eq (hbelow.trans (reaches_of_mem_lineage hw)) hu hname
    have hle := length_lineage_le hw
    rw [lineage_of_base hb, List.length_cons] at hlength
    omega
termination_by u.rank

theorem Coherent.baseChain_eq {t : TypeSymbol} (h : t.Coherent) : t.baseChain = t.lineage :=
  (baseChain_eq_lineage_iff t).2 (h.nodup_lineage .refl)

theorem Coherent.baseChainContains_iff {t : TypeSymbol} (h : t.Coherent)
    (space name : String) : t.baseChainContains space name = true ↔
      ∃ u ∈ t.lineage, u.name = name ∧ u.space.getD "" = space := by
  simp [baseChainContains, h.baseChain_eq, isNamed]

/-! ### Both questions -/

/-- Where a full name stands for one type, a type implements exactly the names of the types that it
reaches, and its base chain holds exactly what the type, its base type and so on are named. -/
theorem queries_iff_reaches (t : TypeSymbol) (h : t.Coherent) :
    (∀ name, t.implements name = true ↔ ∃ u, t.Reaches u ∧ u.name = name) ∧
    ∀ space name, t.baseChainContains space name = true ↔
      ∃ u ∈ t.lineage, u.name = name ∧ u.space.getD "" = space :=
  ⟨h.implements_iff, h.baseChainContains_iff⟩

/-- An interface that is met again above a base class. -/
def disposable : TypeSymbol :=
  { name := "IDisposable", space := some "System", kind := .interfaceType }

def repository : TypeSymbol :=
  { name := "IRepository", space := some "App", kind := .interfaceType, interfaces := [disposable] }

def repositoryBase : TypeSymbol :=
  { name := "RepositoryBase", space := some "App", kind := .classType
    base := some (.ofSpecial .object), interfaces := [repository, disposable] }

def accountRepository : TypeSymbol :=
  { name := "AccountRepository", space := some "App", kind := .classType
    base := some repositoryBase, interfaces := [repository] }

/-- A class that comes to an interface by itself, through its base class, and through another
interface of both. -/
theorem queries_iff_reaches_diamond :
    accountRepository.Coherent ∧
    (∃ u, accountRepository.Reaches u ∧ u.name = "IDisposable") ∧
    (¬∃ u, accountRepository.Reaches u ∧ u.name = "IPlugin") ∧
    (∃ u ∈ accountRepository.lineage, u.name = "Object" ∧ u.space.getD "" = "System") ∧
    ¬∃ u ∈ accountRepository.lineage, u.name = "IRepository" ∧ u.space.getD "" = "App" := by
  have hclass : accountRepository.above = [repository, repositoryBase] := rfl
  have hbase : repositoryBase.above = [disposable, repository, .ofSpecial .object] := rfl
  have hinterface : repository.above = [disposable] := rfl
  have hobject : (ofSpecial .object).above = [] := rfl
  have hlast : disposable.above = [] := rfl
  have hcoherent : accountRepository.Coherent := by
    refine coherent_of_closed
      [accountRepository, repositoryBase, .ofSpecial .object, repository, disposable]
      List.mem_cons_self ?_ (by decide +kernel)
    simp [hclass, hbase, hinterface, hobject, hlast]
  obtain ⟨himplements, hchain⟩ := queries_iff_reaches accountRepository hcoherent
  refine ⟨hcoherent, (himplements _).1 ?_, fun h => ?_, (hchain _ _).1 ?_, fun h => ?_⟩
  · decide +kernel
  · exact absurd ((himplements _).2 h) (by decide +kernel)
  · decide +kernel
  · exact absurd ((hchain _ _).2 h) (by decide +kernel)

end PluginLint.TypeSymbol
