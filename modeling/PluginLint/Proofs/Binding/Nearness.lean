import Mathlib.Data.List.Shortlex
import PluginLint.Proofs.Binding.Depth
import PluginLint.Proofs.Binding.FrameworkTypes

/-!
# Which member is nearest

The types above a type are listed in the order of the ways to them: a shorter way comes first, and of
two that are equally long the one that takes a base type where they part. So an interface stands in
front of every base class that is further away, and a member of it is found before that of the base
class.
-/
namespace PluginLint.Binding
open TypeSymbol

/-! ### Ways -/

theorem shortlex_trans {u v w : List Nat} (huv : List.Shortlex (· < ·) u v)
    (hvw : List.Shortlex (· < ·) v w) : List.Shortlex (· < ·) u w := by
  rcases List.shortlex_def.1 huv with huv | ⟨huv, hlex⟩
  · rcases List.shortlex_def.1 hvw with hvw | ⟨hvw, -⟩ <;> exact .of_length_lt (by omega)
  · rcases List.shortlex_def.1 hvw with hvw | ⟨hvw, hlex'⟩
    · exact .of_length_lt (by omega)
    · exact .of_lex (huv.trans hvw) (List.lex_trans Nat.lt_trans hlex hlex')

/-- One more step keeps the order, whatever the steps are. -/
theorem shortlex_concat {v w : List Nat} (h : List.Shortlex (· < ·) v w) (i j : Nat) :
    List.Shortlex (· < ·) (v ++ [i]) (w ++ [j]) := by
  rcases List.shortlex_def.1 h with hlength | ⟨hlength, hlex⟩
  · exact .of_length_lt (by simpa using hlength)
  · refine .of_lex (by simpa using hlength) ?_
    clear h
    induction hlex with
    | nil => simp at hlength
    | cons _ ih => exact .cons (ih (Nat.succ.inj hlength))
    | rel hlt => exact .rel hlt

theorem shortlex_concat_self (w : List Nat) (i : Nat) :
    List.Shortlex (· < ·) w (w ++ [i]) :=
  .of_length_lt (by simp)

/-- A way of base types alone comes before all others that are not shorter. -/
theorem shortlex_bases_iff {w : List Nat} {n : Nat} (hw : ∀ k, w ≠ List.replicate k 0) :
    List.Shortlex (· < ·) (List.replicate n 0) w ↔ n ≤ w.length := by
  rw [List.shortlex_def, List.length_replicate]
  constructor
  · rintro (h | ⟨h, -⟩) <;> omega
  · intro h
    refine (Nat.lt_or_eq_of_le h).imp_right fun heq => ⟨heq, ?_⟩
    subst heq
    induction w with
    | nil => exact absurd rfl (hw 0)
    | cons i w ih =>
      rw [List.length_cons, List.replicate_succ]
      cases i with
      | zero =>
        refine .cons (ih (fun k hk => hw (k + 1) ?_) (Nat.le_refl _))
        rw [hk, List.replicate_succ]
      | succ i => exact .rel (Nat.succ_pos i)

/-- Something above a type and the way to it: what is taken at each step, where 0 is the base type
and the interfaces are counted from 1. -/
structure Away (α : Type) where
  item : α
  way : List Nat

namespace Away

variable {α β γ : Type} {x : Away α} {y : Away β} {z : Away γ}

def map (f : α → β) (x : Away α) : Away β := ⟨f x.item, x.way⟩

/-- A shorter way comes first, and of equally long ones the smaller. -/
def Before (x : Away α) (y : Away β) : Prop := List.Shortlex (· < ·) x.way y.way

theorem Before.trans (hxy : Before x y) (hyz : Before y z) : Before x z :=
  shortlex_trans hxy hyz

theorem Before.asymm (h : Before x y) : ¬ Before y x :=
  Std.Asymm.asymm x.way y.way h

end Away

namespace Compilation

/-- The type that one step from another leads to. -/
def above? (c : Compilation) (t : TypeSymbol) (link : Nat) : Option TypeSymbol := do
  let a ← c.ancestor? t
  let declared := c.symbol a.index
  let u ← match link with
    | 0 => declared.base
    | i + 1 => declared.interfaces[i]?
  return substitute a.arguments u

/-- The type at the end of a way. -/
def follow? (c : Compilation) (t : TypeSymbol) (way : List Nat) : Option TypeSymbol :=
  way.foldlM c.above? t

/-- A full name is that of the type, of its base type, of the base type of that and so on. -/
def OnBaseChain (c : Compilation) (t : TypeSymbol) (full : String) : Prop :=
  ∃ n u, c.follow? t (List.replicate n 0) = some u ∧ u.fullName = full

/-- Behind a type that is not on the base chain comes none that is. -/
def BasesFirst (c : Compilation) (t : TypeSymbol) : Prop :=
  (c.ancestors t).Pairwise fun a b =>
    c.OnBaseChain t b.type.fullName → c.OnBaseChain t a.type.fullName

/-! ### The list with the ways -/

/-- The types directly above one, with a step more: its base type, then its interfaces. -/
def leads (c : Compilation) (e : Away Ancestor) : List (Away TypeSymbol) :=
  let declared := c.symbol e.item.index
  let above := substitute e.item.arguments
  (declared.base.toList.map fun t => ⟨above t, e.way ++ [0]⟩) ++
    declared.interfaces.mapIdx fun i t => ⟨above t, e.way ++ [i + 1]⟩

/-- The pending types and all above them, each name once and at most `room` of them, with the way to
each. -/
def metUpTo (c : Compilation) (room : Nat) (seen : List String)
    (pending : List (Away TypeSymbol)) : List (Away Ancestor) :=
  match room, pending with
  | 0, _ => []
  | _ + 1, [] => []
  | room + 1, x :: pending =>
    if seen.contains x.item.fullName then metUpTo c (room + 1) seen pending
    else
      match c.ancestor? x.item with
      | none => metUpTo c (room + 1) (x.item.fullName :: seen) pending
      | some a =>
        let e := x.map fun _ => a
        e :: metUpTo c room (x.item.fullName :: seen) (pending ++ c.leads e)
termination_by (room, pending.length)

/-- The type and all above it, with the way to each. -/
def met (c : Compilation) (t : TypeSymbol) : List (Away Ancestor) :=
  c.metUpTo ancestorLimit [] [⟨t, []⟩]

section
variable {c : Compilation} {e : Away Ancestor} {l : Away TypeSymbol}

theorem map_item_leads (c : Compilation) (e : Away Ancestor) :
    (c.leads e).map Away.item = c.parents e.item := by
  rw [leads, parents, List.map_append, List.map_append, List.map_map]
  congr 1
  exact List.ext_getElem (by simp) (by simp)

theorem map_item_metUpTo (c : Compilation) (room : Nat) (seen : List String)
    (pending : List (Away TypeSymbol)) :
    (c.metUpTo room seen pending).map Away.item =
      c.ancestorsUpTo room seen (pending.map Away.item) := by
  fun_induction metUpTo c room seen pending with
  | case1 => simp [ancestorsUpTo]
  | case2 => simp [ancestorsUpTo]
  | case3 seen room x pending hseen ih => rw [ih, List.map_cons, ancestorsUpTo, if_pos hseen]
  | case4 seen room x pending hseen hnone ih =>
    rw [ih, List.map_cons, ancestorsUpTo, if_neg hseen, hnone]
  | case5 seen room x pending hseen a hsome e ih =>
    rw [List.map_cons, ih, List.map_append, map_item_leads, List.map_cons, ancestorsUpTo,
      if_neg hseen, hsome]
    rfl

/-! ### Every way leads to its type -/

theorem follow?_concat (c : Compilation) (t : TypeSymbol) (way : List Nat) (i : Nat) :
    c.follow? t (way ++ [i]) = (c.follow? t way).bind fun u => c.above? u i := by
  simp [follow?, List.foldlM_append]

theorem type_of_ancestor? {t : TypeSymbol} {a : Ancestor} (h : c.ancestor? t = some a) :
    a.type = t := by
  simp only [ancestor?, Option.bind_eq_bind, Option.bind_eq_some_iff, Option.pure_def,
    Option.some.injEq] at h
  obtain ⟨i, -, d, -, rfl⟩ := h
  rfl

theorem mem_leads (hl : l ∈ c.leads e) : ∃ i, l.way = e.way ++ [i] ∧
    ∀ t, c.ancestor? t = some e.item → c.above? t i = some l.item := by
  simp only [leads, List.mem_append, List.mem_map, Option.mem_toList, List.mem_mapIdx] at hl
  rcases hl with ⟨t, ht, rfl⟩ | ⟨i, hi, rfl⟩
  · exact ⟨0, rfl, fun u hu => by simp [above?, hu, ht]⟩
  · exact ⟨i + 1, rfl, fun u hu => by simp [above?, hu, hi]⟩

theorem follow?_metUpTo {t : TypeSymbol} {room : Nat} {seen : List String}
    {pending : List (Away TypeSymbol)}
    (hpending : ∀ p ∈ pending, c.follow? t p.way = some p.item) :
    ∀ e ∈ c.metUpTo room seen pending, c.follow? t e.way = some e.item.type := by
  fun_induction metUpTo c room seen pending with
  | case1 => simp
  | case2 => simp
  | case3 seen room x pending hseen ih => exact ih fun p hp => hpending p (.tail _ hp)
  | case4 seen room x pending hseen hnone ih => exact ih fun p hp => hpending p (.tail _ hp)
  | case5 seen room x pending hseen a hsome e ih =>
    have hx : c.follow? t e.way = some x.item := hpending x (.head _)
    intro f hf
    rcases List.mem_cons.1 hf with rfl | hf
    · rw [hx, show e.item.type = x.item from type_of_ancestor? hsome]
    · refine ih (fun p hp => ?_) f hf
      rcases List.mem_append.1 hp with hp | hp
      · exact hpending p (.tail _ hp)
      · obtain ⟨i, hway, habove⟩ := mem_leads hp
        rw [hway, follow?_concat, hx, Option.bind_some, habove _ hsome]

/-! ### The ways come in order -/

theorem leads_pairwise (c : Compilation) (e : Away Ancestor) :
    (c.leads e).Pairwise Away.Before := by
  have hstep : ∀ i j, i < j → List.Shortlex (· < ·) (e.way ++ [i]) (e.way ++ [j]) :=
    fun i j hij => .append_left ((List.shortlex_singleton_iff i j).2 hij) e.way
  rw [leads, List.pairwise_append]
  refine ⟨?_, ?_, ?_⟩
  · cases (c.symbol e.item.index).base <;> simp
  · rw [List.pairwise_iff_getElem]
    intro i j hi hj hij
    simpa [Away.Before] using hstep (i + 1) (j + 1) (by omega)
  · simp only [List.mem_map, List.mem_mapIdx]
    rintro _ ⟨-, -, rfl⟩ _ ⟨i, -, rfl⟩
    exact hstep 0 (i + 1) (by omega)

/-- The pending types stand in the order of the ways, and each was put there by a type whose way
comes before all of theirs. -/
structure InOrder (pending : List (Away TypeSymbol)) : Prop where
  sorted : pending.Pairwise Away.Before
  parents : ∀ p ∈ pending, ∀ v i, p.way = v ++ [i] →
    ∀ q ∈ pending, List.Shortlex (· < ·) v q.way

theorem InOrder.tail {x : Away TypeSymbol} {pending : List (Away TypeSymbol)}
    (h : InOrder (x :: pending)) : InOrder pending where
  sorted := h.sorted.tail
  parents p hp v i hv q hq := h.parents p (.tail _ hp) v i hv q (.tail _ hq)

/-- The types above the first one can be put behind all others. -/
theorem InOrder.push {x : Away TypeSymbol} {pending : List (Away TypeSymbol)}
    (h : InOrder (x :: pending)) (he : e.way = x.way) : InOrder (pending ++ c.leads e) := by
  have hfirst : ∀ p ∈ pending, List.Shortlex (· < ·) x.way p.way :=
    (List.pairwise_cons.1 h.sorted).1
  constructor
  · refine List.pairwise_append.2 ⟨h.tail.sorted, leads_pairwise c e, fun p hp l hl => ?_⟩
    obtain ⟨j, hway, -⟩ := mem_leads hl
    rw [Away.Before, hway, he]
    rcases List.eq_nil_or_concat' p.way with hnil | ⟨v, i, hv⟩
    · rw [hnil]
      exact .of_length_lt (by simp)
    · rw [hv]
      exact shortlex_concat (h.parents p (.tail _ hp) v i hv x (.head _)) i j
  · intro p hp v i hv q hq
    have hv : v = x.way ∨ List.Shortlex (· < ·) v x.way := by
      rcases List.mem_append.1 hp with hp | hp
      · exact .inr (h.parents p (.tail _ hp) v i hv x (.head _))
      · obtain ⟨j, hway, -⟩ := mem_leads hp
        rw [hway, he] at hv
        exact .inl (List.append_inj_left' hv rfl).symm
    have hq : List.Shortlex (· < ·) x.way q.way := by
      rcases List.mem_append.1 hq with hq | hq
      · exact hfirst q hq
      · obtain ⟨j, hway, -⟩ := mem_leads hq
        rw [hway, he]
        exact shortlex_concat_self x.way j
    rcases hv with rfl | hv
    · exact hq
    · exact shortlex_trans hv hq

/-- All that is met comes in order, and behind some pending type or in its place. -/
theorem metUpTo_pairwise {room : Nat} {seen : List String} {pending : List (Away TypeSymbol)}
    (h : InOrder pending) :
    (c.metUpTo room seen pending).Pairwise Away.Before ∧
      ∀ f ∈ c.metUpTo room seen pending, ∃ p ∈ pending, p.way = f.way ∨ p.Before f := by
  fun_induction metUpTo c room seen pending with
  | case1 => simp
  | case2 => simp
  | case3 seen room x pending hseen ih =>
    obtain ⟨hsorted, hbehind⟩ := ih h.tail
    exact ⟨hsorted, fun f hf => List.exists_mem_cons_of_exists (hbehind f hf)⟩
  | case4 seen room x pending hseen hnone ih =>
    obtain ⟨hsorted, hbehind⟩ := ih h.tail
    exact ⟨hsorted, fun f hf => List.exists_mem_cons_of_exists (hbehind f hf)⟩
  | case5 seen room x pending hseen a hsome e ih =>
    obtain ⟨hsorted, hbehind⟩ := ih (h.push rfl)
    have hfirst : ∀ f ∈ c.metUpTo room (x.item.fullName :: seen) (pending ++ c.leads e),
        x.Before f := by
      intro f hf
      obtain ⟨p, hp, hpf⟩ := hbehind f hf
      have hxp : x.Before p := by
        rcases List.mem_append.1 hp with hp | hp
        · exact (List.pairwise_cons.1 h.sorted).1 p hp
        · obtain ⟨j, hway, -⟩ := mem_leads hp
          rw [Away.Before, hway]
          exact shortlex_concat_self x.way j
      rcases hpf with hpf | hpf
      · rwa [Away.Before, ← hpf]
      · exact hxp.trans hpf
    refine ⟨List.pairwise_cons.2 ⟨hfirst, hsorted⟩, fun f hf => ⟨x, .head _, ?_⟩⟩
    rcases List.mem_cons.1 hf with rfl | hf
    · exact .inl rfl
    · exact .inr (hfirst f hf)

theorem met_pairwise (c : Compilation) (t : TypeSymbol) : (c.met t).Pairwise Away.Before :=
  (metUpTo_pairwise ⟨List.pairwise_singleton _ _, by simp⟩).1

/-! ### The nearest answer -/

theorem map_item_met (c : Compilation) (t : TypeSymbol) :
    (c.met t).map Away.item = c.ancestors t :=
  map_item_metUpTo c ancestorLimit [] [⟨t, []⟩]

theorem follow?_met {t : TypeSymbol} (he : e ∈ c.met t) :
    c.follow? t e.way = some e.item.type :=
  follow?_metUpTo (by simp [follow?]) e he

/-- Of the types that have an answer the nearest has this one. -/
def Nearest {α : Type} (c : Compilation) (t : TypeSymbol) (ask : Ancestor → Option α) (r : α) :
    Prop :=
  ∃ e ∈ c.met t, ask e.item = some r ∧
    ∀ f ∈ c.met t, (ask f.item).isSome → f = e ∨ e.Before f

theorem findSome?_ancestors_iff {α : Type} {t : TypeSymbol} {ask : Ancestor → Option α} {r : α} :
    (c.ancestors t).findSome? ask = some r ↔ c.Nearest t ask r := by
  rw [← map_item_met, List.findSome?_map, List.findSome?_eq_some_iff]
  have hsorted := met_pairwise c t
  constructor
  · rintro ⟨nearer, e, further, hmet, he, hnearer⟩
    rw [hmet, List.pairwise_append, List.pairwise_cons] at hsorted
    refine ⟨e, by simp [hmet], he, fun f hf hanswer => ?_⟩
    rw [hmet, List.mem_append, List.mem_cons] at hf
    rcases hf with hf | rfl | hf
    · have hnone : ask f.item = none := hnearer f hf
      rw [hnone] at hanswer
      cases hanswer
    · exact .inl rfl
    · exact .inr (hsorted.2.1.1 f hf)
  · rintro ⟨e, hmem, he, hnearest⟩
    obtain ⟨nearer, further, hmet⟩ := List.append_of_mem hmem
    rw [hmet, List.pairwise_append] at hsorted
    refine ⟨nearer, e, further, hmet, he, fun f hf => ?_⟩
    have hfe : f.Before e := hsorted.2.2 f hf e (.head _)
    by_contra hanswer
    rcases hnearest f (by simp [hmet, hf]) (Option.isSome_iff_ne_none.2 hanswer) with rfl | hef
    · exact hfe.asymm hfe
    · exact hfe.asymm hef

/-- The value that a type has under a name. -/
def valueIn? (name : String) (a : Ancestor) : Option (Ancestor × Member) :=
  (a.declaration.members.find? fun m => m.name == name && m.kind.hasValue).map fun m => (a, m)

/-- The type of a value, if it is known. -/
def typeOfValue? (c : Compilation) (p : Ancestor × Member) : Option TypeSymbol :=
  if p.2.kind = .enumMember then some (c.symbol p.1.index) else c.typeOfMember? p.1 p.2

/-- The type of an element that a type says is picked by an index. -/
def elementOf? (c : Compilation) (a : Ancestor) : Option TypeSymbol :=
  (a.declaration.members.find? fun m => m.kind == .indexer).bind (c.typeOfMember? a)

/-- The method of a type that can be called with so many arguments. -/
def methodOf? (c : Compilation) (name : String) (count : Nat) (typeArguments : List TypeSymbol)
    (a : Ancestor) : Option MethodSymbol :=
  (a.declaration.members.find? fun m =>
    m.kind == .method && m.name == name && accepts m.parameters count &&
      (typeArguments.isEmpty || m.typeParameters.length == typeArguments.length)).map
    fun m => c.methodSymbol a.type m a.arguments typeArguments m.parameters

theorem memberType?_eq_some_iff {t u : TypeSymbol} {name : String} :
    c.memberType? t name = some u ↔
      ∃ p, c.Nearest t (valueIn? name) p ∧ c.typeOfValue? p = some u := by
  simp only [← findSome?_ancestors_iff]
  exact Option.bind_eq_some_iff

theorem indexerType?_eq_some_iff {t u : TypeSymbol} (ht : t.kind ≠ .arrayType) :
    c.indexerType? t = some u ↔ c.Nearest t c.elementOf? u := by
  rw [indexerType?, if_neg ht]
  exact findSome?_ancestors_iff

theorem findMethod?_eq_some_iff {t : TypeSymbol} {name : String} {count : Nat}
    {typeArguments : List TypeSymbol} {m : MethodSymbol} :
    c.findMethod? t name count typeArguments = some m ↔
      c.Nearest t (c.methodOf? name count typeArguments) m :=
  findSome?_ancestors_iff

/-! ### Base types first -/

theorem basesFirst_iff {t : TypeSymbol} :
    c.BasesFirst t ↔ ∀ b ∈ c.met t, ∀ e ∈ c.met t, c.OnBaseChain t b.item.type.fullName →
      ¬ c.OnBaseChain t e.item.type.fullName → b.Before e := by
  rw [BasesFirst, ← map_item_met, List.pairwise_map]
  have hsorted := met_pairwise c t
  constructor
  · intro h b hb e he hon hoff
    obtain ⟨nearer, further, hmet⟩ := List.append_of_mem hb
    rw [hmet, List.pairwise_append, List.pairwise_cons] at hsorted h
    rw [hmet, List.mem_append, List.mem_cons] at he
    rcases he with he | rfl | he
    · exact absurd (h.2.2 e he b (.head _) hon) hoff
    · exact absurd hon hoff
    · exact hsorted.2.1.1 e he
  · intro h
    refine hsorted.imp_of_mem fun {e b} he hb hbefore hon => ?_
    by_contra hoff
    exact hbefore.asymm (h b hb e he hon hoff)

/-- Up to a place that is taken by base types alone, a type that is not on the base chain stands in
front if and only if the way to it is shorter. -/
theorem before_iff_steps_le {t : TypeSymbol} {b : Away Ancestor} {n : Nat}
    (hb : b.way = List.replicate n 0) (he : e ∈ c.met t)
    (hoff : ¬ c.OnBaseChain t e.item.type.fullName) : b.Before e ↔ n ≤ e.way.length := by
  rw [Away.Before, hb]
  refine shortlex_bases_iff fun k hk => hoff ⟨k, e.item.type, ?_, rfl⟩
  rw [← hk, follow?_met he]

/-- A base chain that has ended does not go on, so the names on it are those up to there. -/
theorem onBaseChain_iff_of_ended {t : TypeSymbol} {full : String} {m : Nat}
    (hend : c.follow? t (List.replicate m 0) = none) :
    c.OnBaseChain t full ↔ some full ∈ (List.range m).map fun n =>
      (c.follow? t (List.replicate n 0)).map TypeSymbol.fullName := by
  simp only [OnBaseChain, List.mem_map, List.mem_range, Option.map_eq_some_iff]
  refine exists_congr fun n => (and_iff_right_of_imp fun ⟨u, hu, _⟩ => ?_).symm
  by_contra hle
  obtain ⟨k, rfl⟩ := Nat.exists_eq_add_of_le (Nat.le_of_not_lt hle)
  rw [follow?] at hend hu
  rw [List.replicate_add, List.foldlM_append, hend] at hu
  cases hu

/-- The list of what is above the pending types, if it ends within so many types that are looked
at. This is recursion over a number, which can be run. -/
def ancestorsWithin? (c : Compilation) :
    Nat → Nat → List String → List TypeSymbol → Option (List Ancestor)
  | 0, _, _, _ => none
  | _ + 1, 0, _, _ => some []
  | _ + 1, _ + 1, _, [] => some []
  | steps + 1, room + 1, seen, t :: pending =>
    if seen.contains t.fullName then ancestorsWithin? c steps (room + 1) seen pending
    else
      match c.ancestor? t with
      | none => ancestorsWithin? c steps (room + 1) (t.fullName :: seen) pending
      | some a =>
        (ancestorsWithin? c steps room (t.fullName :: seen) (pending ++ c.parents a)).map (a :: ·)

theorem ancestorsUpTo_of_within {steps room : Nat} {seen : List String}
    {pending : List TypeSymbol} {l : List Ancestor}
    (h : c.ancestorsWithin? steps room seen pending = some l) :
    c.ancestorsUpTo room seen pending = l := by
  fun_induction ancestorsWithin? c steps room seen pending generalizing l with
  | case1 => cases h
  | case2 => simpa [ancestorsUpTo] using h
  | case3 => simpa [ancestorsUpTo] using h
  | case4 seen steps room t pending hseen ih => rw [ancestorsUpTo, if_pos hseen, ih h]
  | case5 seen steps room t pending hseen hnone ih =>
    rw [ancestorsUpTo, if_neg hseen, hnone]
    exact ih h
  | case6 seen steps room t pending hseen a hsome ih =>
    obtain ⟨rest, hrest, rfl⟩ := Option.map_eq_some_iff.1 h
    rw [ancestorsUpTo, if_neg hseen, hsome]
    exact congrArg (a :: ·) (ih hrest)

/-- The types above a type are listed in the order of the ways to them, and each look-up takes the
answer of the first that has one. So the base chain stands in front of all other types if and only
if the ways to it come first, which fails for an interface that is nearer than a base class. -/
theorem ancestors_basesFirst_iff (c : Compilation) (t : TypeSymbol) :
    ((c.met t).map Away.item = c.ancestors t ∧ (c.met t).Pairwise Away.Before ∧
      ∀ e ∈ c.met t, c.follow? t e.way = some e.item.type) ∧
    (c.BasesFirst t ↔ ∀ b ∈ c.met t, ∀ e ∈ c.met t, c.OnBaseChain t b.item.type.fullName →
      ¬ c.OnBaseChain t e.item.type.fullName → b.Before e) ∧
    (∀ b ∈ c.met t, ∀ e ∈ c.met t, ∀ n, b.way = List.replicate n 0 →
      ¬ c.OnBaseChain t e.item.type.fullName → (b.Before e ↔ n ≤ e.way.length)) ∧
    (∀ name u, c.memberType? t name = some u ↔
      ∃ p, c.Nearest t (valueIn? name) p ∧ c.typeOfValue? p = some u) ∧
    (∀ u, t.kind ≠ .arrayType →
      (c.indexerType? t = some u ↔ c.Nearest t c.elementOf? u)) ∧
    ∀ name count typeArguments m, c.findMethod? t name count typeArguments = some m ↔
      c.Nearest t (c.methodOf? name count typeArguments) m :=
  ⟨⟨map_item_met c t, met_pairwise c t, fun _ he => follow?_met he⟩, basesFirst_iff,
    fun _ _ _ he _ hb hoff => before_iff_steps_le hb he hoff,
    fun _ _ => memberType?_eq_some_iff, fun _ ht => indexerType?_eq_some_iff ht,
    fun _ _ _ _ => findMethod?_eq_some_iff⟩

end

/-- A class whose base class has a base class, and that implements an interface. -/
def hiddenMember : String :=
  "class A:B,I\x7b\x7dclass B:C\x7b\x7dclass C\x7bpublic int M;\x7dinterface I\x7bstring M\x7bget;\x7d\x7dclass U\x7bobject F(A a)\x7breturn a.M;\x7d\x7d"

/-- The interface of the class stands in front of the base class of its base class, and a member of
it hides the one that the class inherits. -/
theorem ancestors_interface_before_base :
    ∃ f, SourceFile.parse "t.cs" hiddenMember = .ok f ∧ f.errors = [] ∧
      let c := ofFiles [f]
      let t := c.symbol 0
      (c.ancestors t).map (fun a => a.type.fullName) = ["A", "B", "I", "C", "System.Object"] ∧
      c.OnBaseChain t "C" ∧ ¬ c.OnBaseChain t "I" ∧ ¬ c.BasesFirst t ∧
      (c.memberType? t "M").map TypeSymbol.special = some .string ∧
      (c.memberType? (c.symbol 2) "M").map TypeSymbol.special = some .int32 := by
  obtain ⟨f, hf, hseen⟩ := exists_of_layOut "t.cs" hiddenMember (fun f c =>
      let member := fun l : List Ancestor =>
        ((l.findSome? (valueIn? "M")).bind c.typeOfValue?).map TypeSymbol.special
      f.errors.isEmpty &&
        (c.ancestorsWithin? 8 ancestorLimit [] [c.symbol 0]).any (fun l =>
          l.map (fun a => a.type.fullName) == ["A", "B", "I", "C", "System.Object"] &&
            member l == some .string) &&
        (c.ancestorsWithin? 8 ancestorLimit [] [c.symbol 2]).any
          (fun l => member l == some .int32) &&
        (List.range 4).map
            (fun n => (c.follow? (c.symbol 0) (List.replicate n 0)).map TypeSymbol.fullName) ==
          [some "A", some "B", some "C", some "System.Object"] &&
        (c.follow? (c.symbol 0) (List.replicate 4 0)).isNone) (by
    rw [hiddenMember, SourceFile.parse_ofList]
    decide +kernel)
  simp only [Bool.and_eq_true, List.isEmpty_iff, beq_iff_eq, Option.any_eq_true,
    Option.isNone_iff_eq_none] at hseen
  obtain ⟨⟨⟨⟨herrors, l, hl, hlisted, htext⟩, l', hl', hnumber⟩, hchain⟩, hend⟩ := hseen
  have hon : ∀ full, (ofFiles [f]).OnBaseChain ((ofFiles [f]).symbol 0) full ↔
      some full ∈ [some "A", some "B", some "C", some "System.Object"] := fun full => by
    rw [← hchain]
    exact onBaseChain_iff_of_ended hend
  have hl : (ofFiles [f]).ancestors ((ofFiles [f]).symbol 0) = l := ancestorsUpTo_of_within hl
  have hl' : (ofFiles [f]).ancestors ((ofFiles [f]).symbol 2) = l' := ancestorsUpTo_of_within hl'
  have hfirst : ¬ (ofFiles [f]).BasesFirst ((ofFiles [f]).symbol 0) := fun h => by
    have hnames : (l.map fun a => a.type.fullName).Pairwise fun x y =>
        (ofFiles [f]).OnBaseChain ((ofFiles [f]).symbol 0) y →
          (ofFiles [f]).OnBaseChain ((ofFiles [f]).symbol 0) x := by
      rw [List.pairwise_map, ← hl]
      exact h
    rw [hlisted] at hnames
    simp [hon] at hnames
  refine ⟨f, hf, herrors, ?_, (hon "C").2 (by simp), ?_, hfirst, ?_, ?_⟩
  · rw [hl, hlisted]
  · simp [hon]
  · rw [← hl] at htext
    exact htext
  · rw [← hl'] at hnumber
    exact hnumber

end Compilation

end PluginLint.Binding
