import PluginLint.Grammar.Builder
import PluginLint.Proofs.Lexing
import PluginLint.Proofs.Parsing.Shape
import Mathlib.Data.List.Forall2

/-!
# What a parse step can do

A step of a parse takes tokens from the front of those ahead, as they are or read as keywords, and
adds trees to the parts of the open node that have exactly these tokens as leaves. `Grown` says so,
together with the shapes of the new trees. `Yields` says it of a run of a step that does not panic,
with more about its result; there is one rule for each way of putting steps together, and the
functions of the grammar are looked at only through these rules.
-/
namespace PluginLint.Grammar

/-- A token as it is in a tree: as it was read, or an identifier that became a keyword. -/
def Retagged (t u : Token) : Prop := u = t ∨ t.kind = .identifier ∧ u = { t with kind := .keyword }

theorem retagged_asKeyword (t : Token) : Retagged t t.asKeyword := by
  unfold Token.asKeyword
  split
  · exact .inr ⟨‹_›, rfl⟩
  · exact .inl rfl

namespace Retagged

theorem text {t u : Token} (h : Retagged t u) : u.text = t.text := by
  rcases h with rfl | ⟨-, rfl⟩ <;> rfl

theorem leading {t u : Token} (h : Retagged t u) : u.leading = t.leading := by
  rcases h with rfl | ⟨-, rfl⟩ <;> rfl

theorem trailing {t u : Token} (h : Retagged t u) : u.trailing = t.trailing := by
  rcases h with rfl | ⟨-, rfl⟩ <;> rfl

theorem render {t u : Token} (h : Retagged t u) : u.render = t.render := by
  simp [Token.render, h.text, h.leading, h.trailing]

theorem width {t u : Token} (h : Retagged t u) : u.width = t.width := by
  simp [Token.width, h.text, h.leading, h.trailing]

theorem isEnd {t u : Token} (h : Retagged t u) : u.isEnd = t.isEnd := by
  rcases h with rfl | ⟨hk, rfl⟩
  · rfl
  · simp [Token.isEnd, hk]

end Retagged

/-- `b'` comes from `b` by a parse step that adds `new` to the parts of the open node. -/
structure Grown (b b' : Builder) (new : List Tree) : Prop where
  parts : b'.parts.toList = b.parts.toList ++ new
  moved : ∃ moved, b.ahead = moved ++ b'.ahead ∧ List.Forall₂ Retagged moved (Tree.tokensAll new) ∧
    ∀ t ∈ moved, t.isEnd = false
  offset : b'.offset = b.offset + Tree.widthAll new
  errors : b.errors <:+ b'.errors
  formed : Tree.EveryAll Formed new
  complete : b'.errors = [] → Tree.EveryAll Complete new

namespace Grown

theorem refl (b : Builder) : Grown b b [] :=
  ⟨by simp, ⟨[], by simp⟩, by simp, List.suffix_rfl, by simp, by simp⟩

/-- Without new parts the parse has not moved. -/
theorem ahead_eq {b b' : Builder} (h : Grown b b' []) : b'.ahead = b.ahead := by
  obtain ⟨moved, hm, hr, -⟩ := h.moved
  obtain rfl : moved = [] := List.forall₂_nil_right_iff.1 hr
  exact hm.symm

/-- If nothing has been noted in the end, nothing had been noted before. -/
theorem errors_eq_nil {b b' : Builder} {new : List Tree} (h : Grown b b' new)
    (he : b'.errors = []) : b.errors = [] := by
  have := h.errors
  rw [he] at this
  exact List.suffix_nil.1 this

theorem trans {b b' b'' : Builder} {new new' : List Tree} (h : Grown b b' new)
    (h' : Grown b' b'' new') : Grown b b'' (new ++ new') := by
  obtain ⟨moved, hm, hr, he⟩ := h.moved
  obtain ⟨moved', hm', hr', he'⟩ := h'.moved
  refine ⟨?_, ⟨moved ++ moved', ?_, ?_, ?_⟩, ?_, h.errors.trans h'.errors, ?_, fun hc => ?_⟩
  · rw [h'.parts, h.parts, List.append_assoc]
  · rw [hm, hm', List.append_assoc]
  · rw [Tree.tokensAll_append]
    exact List.rel_append hr hr'
  · intro t ht
    rcases List.mem_append.1 ht with ht | ht
    · exact he t ht
    · exact he' t ht
  · rw [h'.offset, h.offset, Tree.widthAll_append, Nat.add_assoc]
  · exact Tree.everyAll_append.2 ⟨h.formed, h'.formed⟩
  · exact Tree.everyAll_append.2 ⟨h.complete (h'.errors_eq_nil hc), h'.complete hc⟩

/-- What is placed in a fresh open node becomes one node. -/
theorem node {b b' : Builder} {inner : List Tree} {kind : NodeKind}
    (h : Grown { b with parts := #[] } b' inner) (hf : Formed kind inner)
    (hc : b'.errors = [] → Complete kind inner) :
    Grown b { b' with parts := b.parts.push (.node kind b'.parts.toList) } [.node kind inner] := by
  have hparts : b'.parts.toList = inner := by simpa using h.parts
  refine ⟨by simp [hparts], by simpa using h.moved, by simpa using h.offset, h.errors, ?_, ?_⟩
  · simpa using ⟨hf, h.formed⟩
  · intro he
    simpa using ⟨hc he, h.complete he⟩

/-- What is placed in a fresh open node is added to the parts around it. -/
theorem inline {b b' : Builder} {inner : List Tree} (h : Grown { b with parts := #[] } b' inner) :
    Grown b { b' with parts := b.parts ++ b'.parts } inner := by
  have hparts : b'.parts.toList = inner := by simpa using h.parts
  exact ⟨by simp [hparts], h.moved, h.offset, h.errors, h.formed, h.complete⟩

/-- The last part and what is placed behind it become one node. -/
theorem wrapLast {o b b' : Builder} {init inner : List Tree} {x : Tree} {kind : NodeKind}
    (h : Grown o b (init ++ [x])) (h' : Grown { b with parts := #[x] } b' inner)
    (hf : Formed kind (x :: inner)) (hc : b'.errors = [] → Complete kind (x :: inner)) :
    Grown o { b' with parts := b.parts.pop.push (.node kind b'.parts.toList) }
      (init ++ [.node kind (x :: inner)]) := by
  have hparts : b'.parts.toList = x :: inner := by simpa using h'.parts
  have hrest : Grown b { b' with parts := b.parts ++ inner.toArray } inner :=
    ⟨by simp, h'.moved, h'.offset, h'.errors, h'.formed, h'.complete⟩
  have hall := h.trans hrest
  have hpop : b.parts.toList.dropLast = o.parts.toList ++ init := by
    simp [h.parts, ← List.append_assoc]
  obtain ⟨⟨hfi, hfx⟩, hfn⟩ : (Tree.EveryAll Formed init ∧ x.Every Formed) ∧
      Tree.EveryAll Formed inner := by simpa [and_assoc] using hall.formed
  refine ⟨by simp [hpop, hparts], by simpa using hall.moved, ?_, hall.errors, ?_, fun he => ?_⟩
  · have := hall.offset
    simp only [Tree.widthAll_append, Tree.widthAll_cons, Tree.width_node, Tree.widthAll_nil] at this ⊢
    omega
  · simpa using ⟨hfi, hf, hfx, hfn⟩
  · have hcl := hall.complete he
    simp only [Tree.everyAll_append, Tree.everyAll_cons, Tree.everyAll_nil, and_true,
      Tree.every_node] at hcl ⊢
    exact ⟨hcl.1.1, hc he, hcl.1.2, hcl.2⟩

end Grown

/-! ### Runs -/

/-- The tokens ahead end with the end of the file, and only there. -/
def Readable (b : Builder) : Prop := Lexer.Ended b.ahead

/-- The file is not at its end. -/
def More (b : Builder) : Prop := startsEnd b.ahead = false

theorem ended_of_append {moved rest : List Token} (h : Lexer.Ended (moved ++ rest))
    (hm : ∀ t ∈ moved, t.isEnd = false) : Lexer.Ended rest := by
  induction moved with
  | nil => exact h
  | cons t moved ih =>
    refine ih ?_ fun u hu => hm u (by simp [hu])
    obtain ⟨init, leading, hts, hinit⟩ := h
    cases init with
    | nil =>
      -- The first token would be the end of the file, and that is never moved.
      simp only [List.nil_append, List.cons_append, List.cons.injEq] at hts
      have := hm t (by simp)
      rw [hts.1] at this
      cases this
    | cons u init =>
      simp only [List.cons_append, List.cons.injEq] at hts
      exact ⟨init, leading, hts.2, fun v hv => hinit v (by simp [hv])⟩

theorem Grown.readable {b b' : Builder} {new : List Tree} (h : Grown b b' new)
    (hb : Readable b) : Readable b' := by
  obtain ⟨moved, hm, -, he⟩ := h.moved
  unfold Readable at hb
  rw [hm] at hb
  exact ended_of_append hb he

theorem exists_of_map {f : α → β} {x : Except Panic α} {c : β} (h : x.map f = .ok c) :
    ∃ a, x = .ok a ∧ c = f a := by
  cases x with
  | error e => cases h
  | ok a =>
    cases h
    exact ⟨a, rfl, rfl⟩

/-- A step that runs through, and one behind it. -/
theorem exists_of_bind {p : Parse α} {f : α → Parse β} {b b'' : Builder} {c : β}
    (h : (p >>= f) b = .ok (c, b'')) : ∃ a b', p b = .ok (a, b') ∧ f a b' = .ok (c, b'') := by
  change (p b >>= fun r => f r.1 r.2) = .ok (c, b'') at h
  cases hp : p b with
  | error e => simp [hp, bind, Except.bind] at h
  | ok r =>
    rw [hp] at h
    exact ⟨r.1, r.2, rfl, h⟩

theorem eq_of_pure {a c : α} {b b' : Builder} (h : (pure a : Parse α) b = .ok (c, b')) :
    c = a ∧ b' = b := by
  cases h
  exact ⟨rfl, rfl⟩

/-- Run at `b`, the step adds parts to the open node unless it panics, and `Q` holds of its result,
of the parse behind it and of the new parts. -/
def Yields (p : Parse α) (b : Builder) (Q : α → Builder → List Tree → Prop) : Prop :=
  Readable b → ∀ a b', p b = .ok (a, b') → ∃ new, Grown b b' new ∧ Q a b' new

/-- The result has a property. -/
def Gives (R : α → Prop) : α → Builder → List Tree → Prop := fun a _ _ => R a

/-- No matter what. -/
def Anything : α → Builder → List Tree → Prop := Gives fun _ => True

/-- At least one new part. -/
def Something : α → Builder → List Tree → Prop := fun _ _ new => new ≠ []

/-- The new parts all have a property. -/
def Each (P : Tree → Prop) : α → Builder → List Tree → Prop := fun _ _ new => ∀ t ∈ new, P t

/-- Exactly one new part, a node whose kind is in a class. -/
def One (K : NodeKind → Prop) : α → Builder → List Tree → Prop :=
  fun _ _ new => ∃ x, new = [x] ∧ x.HasKind K

/-- Either exactly one new part, or nothing happened at all. -/
def Tried (K : NodeKind → Prop) (b : Builder) : Bool → Builder → List Tree → Prop :=
  fun found b' new => if found then ∃ x, new = [x] ∧ x.HasKind K else b' = b ∧ new = []

/-- Either exactly one new part, or none and a problem was noted. -/
def Required (P : Tree → Prop) : Bool → Builder → List Tree → Prop :=
  fun found b' new => if found then ∃ x, new = [x] ∧ P x else b'.errors ≠ [] ∧ new = []

theorem Required.exists_of_clean {P : Tree → Prop} {found : Bool} {b' : Builder} {new : List Tree}
    (h : Required P found b' new) (he : b'.errors = []) : ∃ x, new = [x] ∧ P x := by
  cases found with
  | true => exact h
  | false => exact absurd he h.1

/-- If the open node had no parts and has none now, nothing happened at all. -/
def Quiet (b : Builder) : α → Builder → List Tree → Prop :=
  fun _ b' new => b.parts = #[] → new = [] → b' = b

/-- The step adds parts wherever it is run. -/
def Steady (p : Parse α) : Prop := ∀ b, Yields p b Anything

/-- The step adds parts or, at the start of a node, does nothing. -/
def Careful (p : Parse α) : Prop := ∀ b, Yields p b (Quiet b)

namespace Yields

variable {p : Parse α} {f : α → Parse β} {b : Builder}

theorem imp {Q R : α → Builder → List Tree → Prop} (h : Yields p b Q)
    (hr : ∀ a b' new, Grown b b' new → Q a b' new → R a b' new) : Yields p b R := by
  intro hb a b' hrun
  obtain ⟨new, hg, hq⟩ := h hb a b' hrun
  exact ⟨new, hg, hr _ _ _ hg hq⟩

/-- What is known of a run from two sides. The new parts are the same, as the open node shows. -/
theorem and {Q R : α → Builder → List Tree → Prop} (hq : Yields p b Q) (hr : Yields p b R) :
    Yields p b fun a b' new => Q a b' new ∧ R a b' new := by
  intro hb a b' hrun
  obtain ⟨new, hg, hnew⟩ := hq hb a b' hrun
  obtain ⟨new', hg', hnew'⟩ := hr hb a b' hrun
  have hsame : new = new' := List.append_cancel_left (hg.parts.symm.trans hg'.parts)
  subst hsame
  exact ⟨new, hg, hnew, hnew'⟩

theorem congr {p q : Parse α} {Q : α → Builder → List Tree → Prop} (h : p b = q b)
    (hq : Yields q b Q) : Yields p b Q := by
  unfold Yields
  rw [h]
  exact hq

theorem of_readable {Q : α → Builder → List Tree → Prop} (h : Readable b → Yields p b Q) :
    Yields p b Q := fun hb => h hb hb

theorem pure {Q : α → Builder → List Tree → Prop} {a : α} (h : Q a b []) :
    Yields (Pure.pure a) b Q := by
  intro _ c b' hrun
  obtain ⟨rfl, rfl⟩ := eq_of_pure hrun
  exact ⟨[], .refl b', h⟩

/-- Nothing is left to be said of a panic. -/
theorem panic {Q : α → Builder → List Tree → Prop} (e : Panic) : Yields (throw e) b Q := by
  intro _ a b' hrun
  cases hrun

/-- One step after the other. -/
theorem bind {Q : α → Builder → List Tree → Prop} {R : β → Builder → List Tree → Prop}
    (hp : Yields p b Q)
    (hf : ∀ a b' new, Grown b b' new → Q a b' new →
      Yields (f a) b' fun c b'' new' => R c b'' (new ++ new')) : Yields (p >>= f) b R := by
  intro hb c b'' hrun
  obtain ⟨a, b', hrun, hrun'⟩ := exists_of_bind hrun
  obtain ⟨new, hg, hq⟩ := hp hb a b' hrun
  obtain ⟨new', hg', hr⟩ := hf a b' new hg hq (hg.readable hb) c b'' hrun'
  exact ⟨new ++ new', hg.trans hg', hr⟩

theorem discard {Q : α → Builder → List Tree → Prop} (hp : Yields p b Q) :
    Yields (Functor.discard p) b fun _ b' new => ∃ a, Q a b' new :=
  hp.bind fun a _ new _ h => .pure ⟨a, by simpa using h⟩

theorem anything {Q : α → Builder → List Tree → Prop} (h : Yields p b Q) : Yields p b Anything :=
  h.imp fun _ _ _ _ _ => trivial

theorem something {K : NodeKind → Prop} (h : Yields p b (One K)) : Yields p b Something :=
  h.imp fun _ _ _ _ ⟨x, hx, _⟩ => by simp [Something, hx]

theorem quiet_of_something (h : Yields p b Something) : Yields p b (Quiet b) :=
  h.imp fun _ _ _ _ hne _ h => absurd h hne

/-- A step that adds something, and any steps behind it. -/
theorem then_steady (hp : Yields p b Something) (hf : ∀ a, Steady (f a)) :
    Yields (p >>= f) b Something :=
  hp.bind fun a b' _ _ hne => (hf a b').imp fun _ _ _ _ _ h =>
    hne (List.append_eq_nil_iff.1 h).1

/-- A step whose result does not matter, and one with a known result. -/
theorem gives {R : β → Prop} (hp : Yields p b Anything) (hf : ∀ a b', Yields (f a) b' (Gives R)) :
    Yields (p >>= f) b (Gives R) :=
  hp.bind fun a b' _ _ _ => hf a b'

theorem ite {c : Prop} [Decidable c] {p q : Parse α} {Q : α → Builder → List Tree → Prop}
    (hp : c → Yields p b Q) (hq : ¬c → Yields q b Q) : Yields (if c then p else q) b Q := by
  split
  · exact hp ‹_›
  · exact hq ‹_›

end Yields

namespace Steady

variable {p q : Parse α} {f : α → Parse β}

theorem pure (a : α) : Steady (Pure.pure a) := fun _ => .pure trivial

theorem bind (hp : Steady p) (hf : ∀ a, Steady (f a)) : Steady (p >>= f) :=
  fun b => (hp b).gives fun a b' => hf a b'

theorem ite {c : Prop} [Decidable c] (hp : Steady p) (hq : Steady q) :
    Steady (if c then p else q) :=
  fun b => .ite (fun _ => hp b) fun _ => hq b

theorem discard (hp : Steady p) : Steady (Functor.discard p) := hp.bind fun _ => .pure _

theorem panic (e : Panic) : Steady (throw e : Parse α) := fun _ => .panic e

end Steady

namespace Careful

variable {p q : Parse α} {f : α → Parse β}

theorem steady (hp : Careful p) : Steady p := fun b => (hp b).anything

theorem pure (a : α) : Careful (Pure.pure a) := fun _ => .pure fun _ _ => rfl

theorem bind (hp : Careful p) (hf : ∀ a, Careful (f a)) : Careful (p >>= f) := by
  refine fun b => (hp b).bind fun a b' new _ hq => (hf a b').imp fun _ b'' new' _ hq' hb hnew => ?_
  obtain ⟨hn, hn'⟩ := List.append_eq_nil_iff.1 hnew
  obtain rfl := hq hb hn
  exact hq' hb hn'

theorem ite {c : Prop} [Decidable c] (hp : Careful p) (hq : Careful q) :
    Careful (if c then p else q) :=
  fun b => .ite (fun _ => hp b) fun _ => hq b

theorem panic (e : Panic) : Careful (throw e : Parse α) := fun _ => .panic e

/-- What is found makes the node start, so that anything may follow it. -/
theorem found {K : NodeKind → Prop} {p : Parse Bool} {f : Bool → Parse α}
    (hp : ∀ b, Yields p b (Tried K b)) (ht : Steady (f true)) (hf : Careful (f false)) :
    Careful (p >>= f) := by
  refine fun b => (hp b).bind fun found b' new _ h => ?_
  cases found with
  | true =>
    obtain ⟨x, rfl, -⟩ := h
    exact (ht b').imp fun _ _ _ _ _ _ h => by simp at h
  | false =>
    obtain ⟨rfl, rfl⟩ := h
    exact hf b'

end Careful

end PluginLint.Grammar
