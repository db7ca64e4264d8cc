import Mathlib.Data.List.TakeWhile
import PluginLint.Proofs.Lexing.Offsets
import PluginLint.Proofs.Lexing.Runs

/-!
# Offsets stay between characters

A scan by offsets is followed with the text that is ahead of it: the offset is the number of bytes of
the characters behind, and it stays so when whole characters are taken. One rule for each way of
putting scans together, and one for each way of looking and moving.
-/
namespace PluginLint

namespace Lexer.ByOffset

open Cursor (start)
open Text (byteLength)

/-- The offset is between two characters of the text or at one of its ends. -/
def Boundary (s : List Char) (o : Nat) : Prop := ∃ u v, s = u ++ v ∧ o = byteLength u

theorem Boundary.le_byteLength {s : List Char} {o : Nat} (h : Boundary s o) : o ≤ byteLength s := by
  obtain ⟨u, v, rfl, rfl⟩ := h
  simp

/-- Behind the text `u`, with `r` ahead, the scan gives `a` and leaves `r'` ahead. All offsets on
the way are boundaries. -/
def Moves (s u : List Char) (p : Scan α) (r : List Char) (a : α) (r' : List Char) : Prop :=
  s = u ++ r → ∀ visited, ∃ v more, r = v ++ r' ∧
    p ⟨byteLength u, visited⟩ = .ok (a, ⟨byteLength (u ++ v), more ++ visited⟩) ∧
    ∀ o ∈ more, Boundary s o

/-- Behind the text `u`, with `r` ahead, the scan comes to look at the text from an offset that is
no boundary. -/
def Strays (s u : List Char) (p : Scan α) (r : List Char) : Prop :=
  s = u ++ r → ∀ visited, p ⟨byteLength u, visited⟩ = .error .outside

theorem bind_eq_of_ok {p : Scan α} {f : α → Scan β} {h h' : Head} {a : α} (hp : p h = .ok (a, h')) :
    (p >>= f) h = f a h' := by
  simp only [bind, StateT.bind, hp, Except.bind]

theorem bind_eq_of_error {p : Scan α} {f : α → Scan β} {h : Head} {e : Fault}
    (hp : p h = .error e) : (p >>= f) h = .error e := by
  simp only [bind, StateT.bind, hp, Except.bind]

section

variable {α β : Type} {s u r r' r'' : List Char} {a : α} {b : β} {p : Scan α} {f : α → Scan β}
  {fuel n : Nat} {c : Char}

/-! ### Rules -/

/-- A scan that stays where it is. -/
theorem Moves.of_run (h : s = u ++ r → ∀ visited, p ⟨byteLength u, visited⟩ =
    .ok (a, ⟨byteLength u, visited⟩)) : Moves s u p r a r := by
  intro hs visited
  exact ⟨[], [], rfl, by simpa using h hs visited, by simp⟩

theorem Moves.pure : Moves s u (pure a) r a r := .of_run fun _ _ => rfl

theorem Moves.bindFrom (h : Moves s u p r a r')
    (h' : ∀ v, r = v ++ r' → Moves s (u ++ v) (f a) r' b r'') : Moves s u (p >>= f) r b r'' := by
  intro hs visited
  obtain ⟨v, more, hv, hrun, hmore⟩ := h hs visited
  obtain ⟨w, more', hw, hrun', hmore'⟩ :=
    h' v hv (by rw [hs, hv, List.append_assoc]) (more ++ visited)
  refine ⟨v ++ w, more' ++ more, by rw [hv, hw, List.append_assoc], ?_, ?_⟩
  · rw [bind_eq_of_ok hrun, hrun']
    simp
  · intro o ho
    rcases List.mem_append.1 ho with ho | ho
    · exact hmore' o ho
    · exact hmore o ho

/-- What comes next does not depend on what is behind. -/
theorem Moves.bind (h : Moves s u p r a r') (h' : ∀ u, Moves s u (f a) r' b r'') :
    Moves s u (p >>= f) r b r'' :=
  h.bindFrom fun v _ => h' (u ++ v)

/-- A scan that only looks. -/
theorem Moves.look (h : Moves s u p r a r) (h' : Moves s u (f a) r b r') :
    Moves s u (p >>= f) r b r' := by
  refine h.bindFrom fun v hv => ?_
  obtain rfl : v = [] := by simpa using hv
  simpa using h'

theorem Moves.bindStrays {v : List Char} (h : Moves s u p r a r') (hv : r = v ++ r')
    (h' : Strays s (u ++ v) (f a) r') : Strays s u (p >>= f) r := by
  intro hs visited
  obtain ⟨w, more, hw, hrun, -⟩ := h hs visited
  obtain rfl : v = w := List.append_cancel_right (hv.symm.trans hw)
  rw [bind_eq_of_ok hrun]
  exact h' (by rw [hs, hv, List.append_assoc]) _

theorem Moves.lookStrays (h : Moves s u p r a r) (h' : Strays s u (f a) r) :
    Strays s u (p >>= f) r :=
  h.bindStrays (v := []) rfl (by simpa using h')

theorem Strays.bind (h : Strays s u p r) : Strays s u (p >>= f) r := by
  intro hs visited
  rw [bind_eq_of_error (h hs visited)]

/-- Both scanners choose in the same way. -/
theorem Moves.ite {b : Prop} [Decidable b] {q : Scan α} {k m : Cursor}
    (h : b → Moves s u p r a k.ahead) (h' : ¬b → Moves s u q r a m.ahead) :
    Moves s u (if b then p else q) r a (if b then k else m).ahead := by
  by_cases hb : b
  · rw [if_pos hb, if_pos hb]
    exact h hb
  · rw [if_neg hb, if_neg hb]
    exact h' hb

/-! ### Moving and looking -/

theorem here_run (h : Head) : here h = .ok (h.pos, h) := rfl

theorem advance_run (n : Nat) (h : Head) :
    advance n h = .ok ((), ⟨h.pos + n, (h.pos + n) :: h.visited⟩) := rfl

theorem Moves.here : Moves s u here r (byteLength u) r := .of_run fun _ _ => rfl

theorem Moves.advance {v : List Char} (hv : byteLength v = n) :
    Moves s u (advance n) (v ++ r) () r := by
  rintro rfl visited
  refine ⟨v, [byteLength (u ++ v)], rfl, ?_, ?_⟩
  · rw [advance_run]
    simp [hv]
  · simp only [List.mem_singleton, forall_eq]
    exact ⟨u ++ v, r, by simp, rfl⟩

theorem Moves.advanceOne (hc : c.utf8Size = 1) : Moves s u (ByOffset.advance 1) (c :: r) () r :=
  .advance (v := [c]) (by simp [hc])

/-- All of its characters are one byte wide. -/
def Narrow (lit : List Char) : Prop := ∀ c ∈ lit, c.utf8Size = 1

instance (lit : List Char) : Decidable (Narrow lit) :=
  List.decidableBAll (fun c : Char => c.utf8Size = 1) lit

theorem Narrow.byteLength_eq {lit : List Char} (h : Narrow lit) : byteLength lit = lit.length := by
  induction lit with
  | nil => rfl
  | cons c lit ih =>
    have hlit : byteLength lit = lit.length := ih fun d hd => h d (List.mem_cons_of_mem c hd)
    rw [Text.byteLength_cons, h c List.mem_cons_self, hlit, List.length_cons, Nat.add_comm]

theorem Moves.advanceOver {lit : List Char} (h : lit.isPrefixOf r = true) (hlit : Narrow lit) :
    Moves s u (ByOffset.advance lit.length) r () (r.drop lit.length) := by
  obtain ⟨r, rfl⟩ := List.isPrefixOf_iff_prefix.1 h
  rw [List.drop_left]
  exact .advance hlit.byteLength_eq

theorem Moves.moveToEnd : Moves s u (moveToEnd s) r () [] := by
  rintro rfl visited
  refine ⟨r, [byteLength (u ++ r)], by simp, rfl, ?_⟩
  simp only [List.mem_singleton, forall_eq]
  exact ⟨u ++ r, [], by simp, rfl⟩

theorem byteLength_eq_zero_iff : byteLength r = 0 ↔ r = [] := by
  cases r with
  | nil => simp
  | cons c r =>
    have hc := c.utf8Size_pos
    simp only [Text.byteLength_cons, reduceCtorEq, iff_false]
    omega

theorem Moves.atEnd : Moves s u (atEnd s) r r.isEmpty r := by
  refine .look .here ?_
  rintro rfl
  have hend : decide (byteLength (u ++ r) ≤ byteLength u) = r.isEmpty := by
    rw [Bool.eq_iff_iff, decide_eq_true_iff, List.isEmpty_iff, ← byteLength_eq_zero_iff,
      Text.byteLength_append]
    omega
  rw [hend]
  exact Moves.pure rfl

theorem Moves.rest : Moves s u (rest s) r r r := by
  refine .look .here (.of_run ?_)
  rintro rfl visited
  rw [Text.dropBytes?_append]
  rfl

theorem Moves.before : Moves s u (before s) r u r := by
  refine .look .here (.of_run ?_)
  rintro rfl visited
  rw [Text.takeBytes?_append]
  rfl

theorem Moves.take (v : List Char) :
    Moves s (u ++ v) (take s (byteLength u)) r (String.ofList v) r := by
  refine .look .here (.of_run ?_)
  rintro rfl visited
  rw [Text.byteLength_append, Text.slice?_append]
  rfl

theorem Moves.peek : Moves s u (peek s) r r.head? r := Moves.rest.look .pure

theorem Moves.peekAt (n : Nat) : Moves s u (peekAt s n) r r[n]? r := Moves.rest.look .pure

theorem Moves.startsWith (lit : String) :
    Moves s u (startsWith s lit) r (lit.toList.isPrefixOf r) r := Moves.rest.look .pure

theorem Moves.countQuotes : Moves s u (countQuotes s) r (r.takeWhile (· == '"')).length r :=
  Moves.rest.look .pure

theorem Moves.bump : Moves s u (bump s) r r.head? r.tail := by
  refine .look .peek ?_
  cases r with
  | nil => exact .pure
  | cons c r => exact Moves.bind (.advance (v := [c]) (by simp)) fun _ => .pure

theorem Moves.eatWhile (p : Char → Bool) (hf : r.length < fuel) :
    Moves s u (eatWhile s p fuel) r () (r.dropWhile p) := by
  induction fuel generalizing u r with
  | zero => omega
  | succ fuel ih =>
    rw [ByOffset.eatWhile]
    refine .look .peek ?_
    cases r with
    | nil => exact .pure
    | cons c r =>
      simp only [List.length_cons] at hf
      by_cases hc : p c = true
      · simp only [List.head?_cons, Option.any_some, hc, if_true, List.dropWhile_cons]
        exact Moves.bump.bind fun _ => ih (by simpa using hf)
      · simp only [List.head?_cons, Option.any_some, hc, Bool.false_eq_true, if_false,
          List.dropWhile_cons]
        exact .pure

end

end Lexer.ByOffset

end PluginLint
