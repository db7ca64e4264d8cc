import Mathlib.Tactic.ByContra
import PluginLint.Proofs.Lexing

/-!
# Scanners in step

Two cursors stand on texts that agree up to some point and go on differently behind it. A scanner
moves both in the same way unless it takes the first one beyond that point. What stands there on the
second side is the end of the text or a character with which no scanner goes on, so that the rest
cannot be noticed; on the first side it is any character but a line break.
-/
namespace PluginLint

namespace Cursor

/-- How two texts go on behind the point up to which they agree. -/
inductive Joint (R : Char → Char → Prop) : List Char → List Char → Prop
  | nil : Joint R [] []
  | cons {c c' : Char} {s s' : List Char} (h : R c c') : Joint R (c :: s) (c' :: s')

/-- The cursors have taken the same, and ahead of them is the same up to `z` and `z'`. -/
def Tied (z z' : List Char) (k k' : Cursor) : Prop :=
  k.taken = k'.taken ∧ ∃ mid, k.ahead = mid ++ z ∧ k'.ahead = mid ++ z'

/-- The cursor has taken some of `z`. -/
def Beyond (z : List Char) (k : Cursor) : Prop := k.ahead.length < z.length

/-- The cursors are still tied, or the first one is beyond the point up to which they can be. -/
def Abreast (z z' : List Char) (k k' : Cursor) : Prop := k.Beyond z ∨ Tied z z' k k'

section joint

variable {R : Char → Char → Prop} {z z' : List Char} {k k' m m' : Cursor}

theorem Tied.abreast (h : Tied z z' k k') : Abreast z z' k k' := .inr h

theorem Tied.lexeme_eq (h : Tied z z' k k') : k.lexeme = k'.lexeme := by
  unfold lexeme
  rw [h.1]

theorem Beyond.of_reaches (h : k.Beyond z) (hr : k.Reaches m) : m.Beyond z :=
  Nat.lt_of_le_of_lt hr.length_le h

theorem Reaches.beyond {taken s : List Char} {c : Char} (h : Reaches ⟨taken, s⟩ m) :
    m.Beyond (c :: s) := Nat.lt_succ_of_le h.length_le

/-- One scanner after the other. -/
theorem Abreast.andThen (h : Abreast z z' k k') (hr : k.Reaches m)
    (hm : Tied z z' k k' → Abreast z z' m m') : Abreast z z' m m' := by
  rcases h with h | h
  · exact .inl (h.of_reaches hr)
  · exact hm h

/-- Both sides choose in the same way. -/
theorem Abreast.ite {c : Prop} [Decidable c] {l l' : Cursor} (h : c → Abreast z z' k k')
    (h' : ¬c → Abreast z z' l l') :
    Abreast z z' (if c then k else l) (if c then k' else l') := by
  by_cases hc : c
  · rw [if_pos hc, if_pos hc]
    exact h hc
  · rw [if_neg hc, if_neg hc]
    exact h' hc

theorem Tied.next (hz : Joint R z z') (h : Tied z z' k k') : Abreast z z' k.next k'.next := by
  obtain ⟨taken, ahead⟩ := k
  obtain ⟨taken', ahead'⟩ := k'
  obtain ⟨rfl, mid, rfl, rfl⟩ := h
  cases mid with
  | cons d mid => exact .inr ⟨rfl, mid, rfl, rfl⟩
  | nil =>
    cases hz with
    | nil => exact .inr ⟨rfl, [], rfl, rfl⟩
    | cons h => exact .inl (by simp [Beyond, Cursor.next])

theorem Tied.skip (hz : Joint R z z') (n : Nat) (h : Tied z z' k k') :
    Abreast z z' (k.skip n) (k'.skip n) := by
  induction n generalizing k k' with
  | zero => exact h.abreast
  | succ n ih => exact (h.next hz).andThen (reaches_skip n _) ih

theorem Tied.skipWhile (hz : Joint R z z') {p : Char → Bool}
    (hp : ∀ c c', R c c' → p c = false → p c' = false) (h : Tied z z' k k') :
    Abreast z z' (k.skipWhile p) (k'.skipWhile p) := by
  obtain ⟨taken, ahead⟩ := k
  obtain ⟨taken', ahead'⟩ := k'
  obtain ⟨rfl, mid, rfl, rfl⟩ := h
  induction mid generalizing taken with
  | nil =>
    cases hz with
    | nil => exact .inr ⟨rfl, [], rfl, rfl⟩
    | @cons c c' s s' h =>
      by_cases hc : p c = true
      · left
        have := (List.dropWhile_suffix p (l := s)).length_le
        simp only [Beyond, Cursor.skipWhile, List.nil_append, List.dropWhile_cons, hc, if_true,
          List.length_cons]
        omega
      · have hc : p c = false := by simpa using hc
        have hc' := hp c c' h hc
        exact .inr ⟨by simp [Cursor.skipWhile, hc, hc'], [], by simp [Cursor.skipWhile, hc],
          by simp [Cursor.skipWhile, hc']⟩
  | cons d mid ih =>
    by_cases hd : p d = true
    · simpa [Cursor.skipWhile, hd] using ih (d :: taken)
    · have hd : p d = false := by simpa using hd
      exact .inr ⟨by simp [Cursor.skipWhile, hd], d :: mid, by simp [Cursor.skipWhile, hd],
        by simp [Cursor.skipWhile, hd]⟩

@[simp] theorem ahead_next (k : Cursor) : k.next.ahead = k.ahead.tail := by
  unfold next
  split <;> simp_all

@[simp] theorem ahead_skip (n : Nat) (k : Cursor) : (k.skip n).ahead = k.ahead.drop n := by
  induction n generalizing k with
  | zero => rfl
  | succ n ih => rw [skip, ih, ahead_next, List.drop_tail]

@[simp] theorem ahead_skipWhile (p : Char → Bool) (k : Cursor) :
    (k.skipWhile p).ahead = k.ahead.dropWhile p := rfl

theorem skip_succ (n : Nat) (k : Cursor) : k.skip (n + 1) = (k.skip n).next := by
  induction n generalizing k with
  | zero => rfl
  | succ n ih => rw [skip, ih, skip]

/-- A run that is not empty goes over its first character. -/
theorem next_reaches_skipWhile {p : Char → Bool} {c : Char} (hk : k.ahead.head? = some c)
    (hc : p c = true) : k.next.Reaches (k.skipWhile p) := by
  obtain ⟨taken, ahead⟩ := k
  obtain ⟨rest, rfl⟩ := List.head?_eq_some_iff.1 hk
  exact ⟨rest.takeWhile p, by simp [Cursor.next, Cursor.skipWhile, hc],
    by simp [Cursor.next, Cursor.skipWhile, hc]⟩

/-- Where both texts end there is nothing in which the cursors could differ. -/
theorem Tied.eq_of_nil (h : Tied [] [] k k') : k = k' := by
  obtain ⟨taken, ahead⟩ := k
  obtain ⟨taken', ahead'⟩ := k'
  obtain ⟨rfl, mid, rfl, rfl⟩ := h
  rfl

theorem tied_nil (k : Cursor) : Tied [] [] k k := ⟨rfl, k.ahead, by simp, by simp⟩

/-! ### Answers -/

/-- A test that sees fewer than `n` characters in front of the point where the texts part. -/
def Short (z : List Char) (n : Nat) (k : Cursor) : Prop :=
  z ≠ [] ∧ k.ahead.length < z.length + n

theorem Short.beyond {n : Nat} (h : Short z n k) : (k.skip n).Beyond z := by
  obtain ⟨hne, hlt⟩ := h
  have hpos := List.length_pos_iff.2 hne
  rw [Beyond, ahead_skip, List.length_drop]
  omega

/-- Both sides get the same answer, or the first one a yes that rests on a character beyond the
point where the texts part. -/
def Agrees (z : List Char) (n : Nat) (k : Cursor) (b b' : Bool) : Prop :=
  b = b' ∨ b = true ∧ b' = false ∧ Short z n k

theorem Agrees.eq_of_not {n : Nat} {b b' : Bool} (h : Agrees z n k b b') (hb : ¬b = true) :
    b = b' := h.resolve_right fun h => hb h.1

theorem Agrees.mono {n n' : Nat} {b b' : Bool} (h : Agrees z n k b b') (hn : n ≤ n') :
    Agrees z n' k b b' := by
  refine h.imp_right ?_
  rintro ⟨hb, hb', hne, hlt⟩
  exact ⟨hb, hb', hne, by omega⟩

theorem Agrees.or {n : Nat} {b b' d d' : Bool} (h : Agrees z n k b b') (h' : Agrees z n k d d') :
    Agrees z n k (b || d) (b' || d') := by
  obtain rfl | ⟨rfl, rfl, hs⟩ := h
  · obtain rfl | ⟨rfl, rfl, hs⟩ := h'
    · exact .inl rfl
    · cases b
      · exact .inr ⟨rfl, rfl, hs⟩
      · exact .inl rfl
  · obtain rfl | ⟨rfl, rfl, -⟩ := h'
    · cases d
      · exact .inr ⟨rfl, rfl, hs⟩
      · exact .inl rfl
    · exact .inr ⟨rfl, rfl, hs⟩

theorem Agrees.and {n : Nat} {b b' d d' : Bool} (h : Agrees z n k b b') (h' : Agrees z n k d d') :
    Agrees z n k (b && d) (b' && d') := by
  obtain rfl | ⟨rfl, rfl, hs⟩ := h
  · obtain rfl | ⟨rfl, rfl, hs⟩ := h'
    · exact .inl rfl
    · cases b
      · exact .inl rfl
      · exact .inr ⟨rfl, rfl, hs⟩
  · obtain rfl | ⟨rfl, rfl, -⟩ := h'
    · cases d
      · exact .inl rfl
      · exact .inr ⟨rfl, rfl, hs⟩
    · exact .inr ⟨rfl, rfl, hs⟩

/-- What a scanner does after a test. After a yes it takes all the characters that were tested. -/
theorem Agrees.ite {n : Nat} {b b' : Bool} {l l' : Cursor} (h : Agrees z n k b b')
    (htakes : b = true → (k.skip n).Reaches m) (hm : b = true → Abreast z z' m m')
    (hl : b = false → Abreast z z' l l') :
    Abreast z z' (if b then m else l) (if b' then m' else l') := by
  obtain rfl | ⟨rfl, rfl, hs⟩ := h
  · cases b
    · exact hl rfl
    · exact hm rfl
  · exact .inl (hs.beyond.of_reaches (htakes rfl))

/-- No character of a text stands at the point where the second side goes on differently. -/
def Spares (R : Char → Char → Prop) (lit : List Char) : Prop := ∀ c c', R c c' → c' ∉ lit

/-- A text that is ahead on one side only reaches beyond the point where the texts part. -/
theorem isPrefixOf_cases (hz : Joint R z z') {lit : List Char} (hlit : Spares R lit)
    (mid : List Char) :
    lit.isPrefixOf (mid ++ z) = lit.isPrefixOf (mid ++ z') ∨
      lit.isPrefixOf (mid ++ z) = true ∧ lit.isPrefixOf (mid ++ z') = false ∧ z ≠ [] ∧
        mid <+: lit ∧ mid.length < lit.length := by
  induction lit generalizing mid with
  | nil => simp
  | cons a lit ih =>
    have hrest : Spares R lit := fun c c' h hc => hlit c c' h (List.mem_cons_of_mem _ hc)
    cases mid with
    | cons d mid =>
      by_cases had : a = d
      · subst had
        simpa [List.isPrefixOf] using ih hrest mid
      · left
        simp [List.isPrefixOf, beq_eq_false_iff_ne.2 had]
    | nil =>
      cases hz with
      | nil => exact .inl rfl
      | @cons c c' s s' h =>
        have hne : (a == c') = false := by
          rw [beq_eq_false_iff_ne]
          rintro rfl
          exact hlit c a h List.mem_cons_self
        cases hold : (a :: lit).isPrefixOf ([] ++ c :: s) with
        | false => simp [List.isPrefixOf, hne]
        | true => simp [List.isPrefixOf, hne]

theorem Tied.startsWith_agrees (hz : Joint R z z') {lit : String} (hlit : Spares R lit.toList)
    {n : Nat} (hn : lit.toList.length = n) (h : Tied z z' k k') :
    Agrees z n k (k.startsWith lit) (k'.startsWith lit) := by
  obtain ⟨-, mid, hk, hk'⟩ := h
  rw [startsWith, startsWith, hk, hk']
  refine (isPrefixOf_cases hz hlit mid).imp_right ?_
  rintro ⟨hold, hnew, hne, -, hlt⟩
  refine ⟨hold, hnew, hne, ?_⟩
  rw [hk, List.length_append]
  omega

/-- A run of characters of a class is the same on both sides, or reaches beyond the point where the
texts part. -/
theorem takeWhile_cases (hz : Joint R z z') {p : Char → Bool}
    (hp : ∀ c c', R c c' → p c' = false) (mid : List Char) :
    (mid ++ z).takeWhile p = (mid ++ z').takeWhile p ∨
      z ≠ [] ∧ mid.all p = true ∧ mid.length < ((mid ++ z).takeWhile p).length ∧
        (mid ++ z').takeWhile p = mid := by
  induction mid with
  | nil =>
    cases hz with
    | nil => exact .inl rfl
    | @cons c c' s s' h =>
      have hc' := hp c c' h
      by_cases hc : p c = true
      · exact .inr (by simp [hc, hc'])
      · left
        simp [hc, hc']
  | cons d mid ih =>
    by_cases hd : p d = true
    · simpa [hd] using ih
    · left
      simp [hd]

/-- Where a run ends in front of the point where the texts part, it does so on both sides. -/
theorem exists_dropWhile {p : Char → Bool} {mid : List Char} (h : mid.all p = false) :
    ∃ d rest, p d = false ∧
      ∀ w, (mid ++ w).takeWhile p = mid.takeWhile p ∧ (mid ++ w).dropWhile p = d :: (rest ++ w) := by
  induction mid with
  | nil => simp at h
  | cons a mid ih =>
    by_cases ha : p a = true
    · obtain ⟨d, rest, hd, hw⟩ := ih (by simpa [ha] using h)
      exact ⟨d, rest, hd, fun w => by simp [ha, hw w]⟩
    · have ha : p a = false := by simpa using ha
      exact ⟨a, mid, ha, fun w => by simp [ha]⟩

end joint

end Cursor

namespace Lexer

open Cursor

/-! ### Literals -/

/-- Characters with which no scanner goes on outside of a literal. -/
def halts : List Char := [')', ';', '\x7b', '\x7d']

/-- A scanner that stops in front of the first character stops in front of the second one, at which
it looks no further; a letter can be that only if it is the same on both sides. -/
def Stop (c c' : Char) : Prop := isInLine c = true ∧ (c' ∈ halts ∨ c' = 's' ∧ c = 's')

theorem forall_mem_halts {P : Char → Prop} :
    (∀ c ∈ halts, P c) ↔ P ')' ∧ P ';' ∧ P '\x7b' ∧ P '\x7d' := by
  simp [halts]

theorem Stop.refl {c : Char} (h : c ∈ halts ∨ c = 's') : Stop c c := by
  have hline : ∀ c ∈ halts, isInLine c = true := forall_mem_halts.2 (by decide)
  rcases h with h | rfl
  · exact ⟨hline c h, .inl h⟩
  · exact ⟨by decide, .inr ⟨rfl, rfl⟩⟩

theorem Stop.mem {c c' : Char} (h : Stop c c') : c' ∈ 's' :: halts := by
  obtain ⟨-, h | ⟨rfl, -⟩⟩ := h
  · exact List.mem_cons_of_mem _ h
  · exact List.mem_cons_self

theorem Stop.forall {P : Char → Prop} (hP : P 's' ∧ P ')' ∧ P ';' ∧ P '\x7b' ∧ P '\x7d') :
    ∀ c c', Stop c c' → P c' := fun _ c' h =>
  List.forall_mem_cons.2 ⟨hP.1, forall_mem_halts.2 hP.2⟩ c' h.mem

theorem Stop.keeps {p : Char → Bool} (hp : halts.any p = false) :
    ∀ c c', Stop c c' → p c = false → p c' = false := by
  rintro c c' ⟨-, h | ⟨rfl, rfl⟩⟩ hc
  · rw [List.any_eq_false] at hp
    simpa using hp c' h
  · exact hc

/-- A word without any of the characters at which scanners stop. -/
def isSparing (lit : String) : Bool := !lit.toList.any ('s' :: halts).contains

theorem Stop.spares {lit : String} (hlit : isSparing lit = true) : Spares Stop lit.toList := by
  intro c c' h hmem
  rw [isSparing, Bool.not_eq_true', List.any_eq_false] at hlit
  exact hlit c' hmem (by simpa using h.mem)

theorem startsWith_agrees {z z' : List Char} {k k' : Cursor} (hz : Joint Stop z z')
    (h : Tied z z' k k') (lit : String) {n : Nat} (hlit : isSparing lit = true)
    (hn : lit.toList.length = n) : Agrees z n k (k.startsWith lit) (k'.startsWith lit) :=
  h.startsWith_agrees hz (Stop.spares hlit) hn

/-- How many characters stand between the mark of an exponent and its digits, if there are any. -/
def exponentSign? : List Char → Option Nat
  | '+' :: d :: _ | '-' :: d :: _ => if d.isDigit then some 1 else none
  | d :: _ => if d.isDigit then some 0 else none
  | [] => none

/-- The same from in front of the mark. -/
def exponentMark? : List Char → Option Nat
  | 'e' :: rest | 'E' :: rest => (exponentSign? rest).map (· + 1)
  | _ => none

theorem exponent_eq (k : Cursor) : exponent k =
    match exponentMark? k.ahead with
    | some n => (k.skip n).skipWhile Char.isDigit
    | none => k := by
  unfold exponent
  split
  · rename_i rest hk
    rw [hk, exponentMark?]
    split <;> first | rfl | (split <;> simp_all [exponentSign?, skip])
  · rename_i rest hk
    rw [hk, exponentMark?]
    split <;> first | rfl | (split <;> simp_all [exponentSign?, skip])
  · rename_i h₁ h₂
    have hnone : exponentMark? k.ahead = none := by
      unfold exponentMark?
      split
      · exact absurd (by assumption) (h₁ _)
      · exact absurd (by assumption) (h₂ _)
      · rfl
    rw [hnone]

theorem exponentSign?_eq (t : List Char) : exponentSign? t =
    if t[if t.head?.any (fun c => c == '+' || c == '-') then 1 else 0]?.any Char.isDigit then
      some (if t.head?.any (fun c => c == '+' || c == '-') then 1 else 0)
    else none := by
  match t with
  | [] => rfl
  | [d] =>
    by_cases hp : d = '+'
    · subst hp
      rfl
    by_cases hm : d = '-'
    · subst hm
      rfl
    simp [exponentSign?, hp, hm]
  | d :: e :: t =>
    by_cases hp : d = '+'
    · subst hp
      simp [exponentSign?]
    by_cases hm : d = '-'
    · subst hm
      simp [exponentSign?]
    simp [exponentSign?, hp, hm]

theorem exponentMark?_cons (c : Char) (t : List Char) : exponentMark? (c :: t) =
    if c == 'e' || c == 'E' then (exponentSign? t).map (· + 1) else none := by
  by_cases he : c = 'e'
  · subst he
    rfl
  by_cases hE : c = 'E'
  · subst hE
    rfl
  simp [exponentMark?, he, hE]

theorem any_isDigit_of_exponentSign? {t : List Char} {n : Nat} (h : exponentSign? t = some n) :
    t[n]?.any Char.isDigit = true := by
  rw [exponentSign?_eq, Option.ite_none_right_eq_some] at h
  obtain ⟨hdigit, hn⟩ := h
  rwa [Option.some.inj hn] at hdigit

/-- Behind the mark and the sign of an exponent there is a digit, which is taken too. -/
theorem skip_reaches_exponent {k : Cursor} {n : Nat} (h : exponentMark? k.ahead = some n) :
    (k.skip (n + 1)).Reaches ((k.skip n).skipWhile Char.isDigit) := by
  have hdigit : k.ahead[n]?.any Char.isDigit = true := by
    cases hk : k.ahead with
    | nil =>
      rw [hk] at h
      cases h
    | cons c t =>
      rw [hk, exponentMark?_cons, Option.ite_none_right_eq_some, Option.map_eq_some_iff] at h
      obtain ⟨-, m, hm, rfl⟩ := h
      simpa using any_isDigit_of_exponentSign? hm
  obtain ⟨d, hd, hdigit⟩ := (Option.any_eq_true _ _).1 hdigit
  rw [skip_succ]
  exact next_reaches_skipWhile (by simpa [List.head?_drop] using hd) hdigit

section stop

variable {z z' : List Char} {k k' m m' : Cursor}

/-- A sign of an exponent is seen on both sides, or its digit stands beyond the point where the
texts part. -/
theorem exponentSign?_cases (hz : Joint Stop z z') (mid : List Char) :
    exponentSign? (mid ++ z) = exponentSign? (mid ++ z') ∨
      ∃ n, exponentSign? (mid ++ z) = some n ∧ z ≠ [] ∧ mid.length ≤ n := by
  cases hz with
  | nil => exact .inl rfl
  | @cons c c' s s' h =>
    have hnew : (c' == '+' || c' == '-') = false ∧ c'.isDigit = false :=
      Stop.forall (P := fun a => (a == '+' || a == '-') = false ∧ a.isDigit = false) (by decide) c c' h
    match mid with
    | [] =>
      have hnone : exponentSign? (c' :: s') = none := by simp [exponentSign?_eq, hnew]
      cases hold : exponentSign? (c :: s) with
      | none => exact .inl (by simp [hold, hnone])
      | some n => exact .inr ⟨n, hold, by simp, by simp⟩
    | [b] =>
      by_cases hb : (b == '+' || b == '-') = true
      · by_cases hc : c.isDigit = true
        · exact .inr ⟨1, by simp [exponentSign?_eq, hb, hc], by simp, by simp⟩
        · left
          simp [exponentSign?_eq, hb, hc, hnew.2]
      · left
        simp [exponentSign?_eq, hb]
    | b :: d :: mid =>
      left
      by_cases hb : (b == '+' || b == '-') = true <;> simp [exponentSign?_eq, hb]

theorem exponentMark?_cases (hz : Joint Stop z z') (mid : List Char) :
    exponentMark? (mid ++ z) = exponentMark? (mid ++ z') ∨
      ∃ n, exponentMark? (mid ++ z) = some n ∧ z ≠ [] ∧ mid.length ≤ n := by
  cases mid with
  | nil =>
    cases hz with
    | nil => exact .inl rfl
    | @cons c c' s s' h =>
      have hmark : (c' == 'e' || c' == 'E') = false :=
        Stop.forall (P := fun a => (a == 'e' || a == 'E') = false) (by decide) c c' h
      have hnone : exponentMark? (c' :: s') = none := by simp [exponentMark?_cons, hmark]
      cases hold : exponentMark? (c :: s) with
      | none => exact .inl (by simp [hold, hnone])
      | some n => exact .inr ⟨n, hold, by simp, by simp⟩
  | cons a mid =>
    simp only [List.cons_append, exponentMark?_cons]
    split
    · obtain heq | ⟨n, hn, hne, hle⟩ := exponentSign?_cases hz mid
      · exact .inl (by rw [heq])
      · exact .inr ⟨n + 1, by rw [hn]; rfl, hne, by simpa using hle⟩
    · exact .inl rfl

theorem exponent_inStep (hz : Joint Stop z z') (h : Tied z z' k k') :
    Abreast z z' (exponent k) (exponent k') := by
  obtain ⟨-, mid, hk, hk'⟩ := id h
  rw [exponent_eq, exponent_eq, hk, hk']
  obtain heq | ⟨n, hn, hne, hle⟩ := exponentMark?_cases hz mid
  · rw [heq]
    split
    · exact (h.skip hz _).andThen (reaches_skipWhile _ _) fun h =>
        h.skipWhile hz (Stop.keeps (by decide))
    · exact h.abreast
  · rw [hn]
    have hshort : Short z (n + 1) k := ⟨hne, by rw [hk, List.length_append]; omega⟩
    exact .inl (hshort.beyond.of_reaches (skip_reaches_exponent (by rw [hk, hn])))

theorem startsNumber_agrees (hz : Joint Stop z z') (h : Tied z z' k k') :
    Agrees z 2 k (startsNumber k.ahead) (startsNumber k'.ahead) := by
  obtain ⟨-, mid, hk, hk'⟩ := h
  rw [hk, hk', Agrees, Short, hk]
  cases hz with
  | nil => exact .inl rfl
  | @cons c c' s s' h =>
    have hnew : c' ≠ '.' ∧ c'.isDigit = false :=
      Stop.forall (P := fun a => a ≠ '.' ∧ a.isDigit = false) (by decide) c c' h
    match mid with
    | [] =>
      have hno : startsNumber (c' :: s') = false := by simp [startsNumber, hnew]
      cases hold : startsNumber (c :: s) with
      | false => exact .inl (by simp [hold, hno])
      | true => exact .inr ⟨hold, hno, by simp, by simp⟩
    | [a] =>
      by_cases ha : a = '.'
      · subst ha
        by_cases hc : c.isDigit = true
        · exact .inr ⟨hc, hnew.2, by simp, by simp⟩
        · left
          simp [startsNumber, hc, hnew.2]
      · left
        simp [startsNumber, ha]
    | a :: b :: mid =>
      left
      by_cases ha : a = '.'
      · subst ha
        rfl
      · simp [startsNumber, ha]

theorem fraction_eq (k : Cursor) : fraction k =
    if k.startsWith "." && startsNumber k.ahead then k.next.skipWhile isDigitOrBar else k := by
  unfold fraction
  split
  · rename_i d rest hk
    simp [startsWith, hk, startsNumber]
  · rename_i hk
    have hnone : (k.startsWith "." && startsNumber k.ahead) = false := by
      unfold startsNumber startsWith
      split
      · exact absurd (by assumption) (hk _ _)
      · rename_i c rest _ hc
        by_cases hdot : c = '.'
        · subst hdot
          simp [hc]
        · simp [hc, Ne.symm hdot]
      · simp
    rw [hnone]
    rfl

/-- The digit behind a point is taken with it. -/
theorem skip_reaches_fraction (h : (k.startsWith "." && startsNumber k.ahead) = true) :
    (k.skip 2).Reaches (k.next.skipWhile isDigitOrBar) := by
  obtain ⟨taken, ahead⟩ := k
  rw [Bool.and_eq_true] at h
  obtain ⟨t, rfl⟩ := List.isPrefixOf_iff_prefix.1 h.1
  cases t with
  | nil => exact absurd (show startsNumber ['.'] = true from h.2) (by decide)
  | cons d t =>
    have hd : d.isDigit = true := h.2
    exact next_reaches_skipWhile (k := Cursor.next ⟨taken, '.' :: d :: t⟩) rfl
      (by simp [isDigitOrBar, hd])

theorem fraction_inStep (hz : Joint Stop z z') (h : Tied z z' k k') :
    Abreast z z' (fraction k) (fraction k') := by
  have hpoint : Agrees z 2 k (k.startsWith ".") (k'.startsWith ".") :=
    (startsWith_agrees hz h "." (by decide) rfl).mono (by decide)
  rw [fraction_eq, fraction_eq]
  refine (hpoint.and (startsNumber_agrees hz h)).ite skip_reaches_fraction (fun _ => ?_)
    fun _ => h.abreast
  exact (h.next hz).andThen (reaches_skipWhile _ _) fun h =>
    h.skipWhile hz (Stop.keeps (by decide))

theorem number_inStep (hz : Joint Stop z z') (h : Tied z z' k k') :
    Abreast z z' (number k) (number k') := by
  have hx := (startsWith_agrees hz h "0x" (by decide) rfl).or
    (startsWith_agrees hz h "0X" (by decide) rfl)
  have hb := (startsWith_agrees hz h "0b" (by decide) rfl).or
    (startsWith_agrees hz h "0B" (by decide) rfl)
  unfold number
  refine Abreast.andThen ?_ (reaches_skipWhile _ _) fun h => h.skipWhile hz (Stop.keeps (by decide))
  refine hx.ite (fun _ => reaches_skipWhile _ _) (fun _ => ?_) fun _ =>
    hb.ite (fun _ => reaches_skipWhile _ _) (fun _ => ?_) fun _ => ?_
  · exact (h.skip hz 2).andThen (reaches_skipWhile _ _) fun h =>
      h.skipWhile hz (Stop.keeps (by decide))
  · exact (h.skip hz 2).andThen (reaches_skipWhile _ _) fun h =>
      h.skipWhile hz (Stop.keeps (by decide))
  · refine Abreast.andThen ?_ (reaches_exponent _) (exponent_inStep hz)
    exact (h.skipWhile hz (Stop.keeps (by decide))).andThen (reaches_fraction _)
      (fraction_inStep hz)

/-- A number that begins with a point takes the digit behind it. -/
theorem skip_reaches_number (h : (k.startsWith "." && startsNumber k.ahead) = true) :
    (k.skip 2).Reaches (number k) := by
  obtain ⟨taken, ahead⟩ := k
  have hpoint := h
  rw [Bool.and_eq_true] at hpoint
  obtain ⟨t, rfl⟩ := List.isPrefixOf_iff_prefix.1 hpoint.1
  have hskip : Cursor.skipWhile isDigitOrBar ⟨taken, '.' :: t⟩ = ⟨taken, '.' :: t⟩ := by
    have hp : isDigitOrBar '.' = false := by decide
    simp [Cursor.skipWhile, hp]
  have hbody : ((Cursor.mk taken (".".toList ++ t)).skip 2).Reaches
      (exponent (fraction ⟨taken, ".".toList ++ t⟩)) := by
    rw [fraction_eq, if_pos h]
    exact (skip_reaches_fraction h).trans (reaches_exponent _)
  unfold number
  simpa [startsWith, hskip] using hbody.trans (reaches_skipWhile isNumberSuffix _)

theorem charLiteral_go_cons {c : Char} (hc : c ≠ '\\') (taken rest : List Char) :
    charLiteral.go taken (c :: rest) =
      if c == '\'' || c == '\n' then ⟨c :: taken, rest⟩ else charLiteral.go (c :: taken) rest := by
  rw [charLiteral.go]
  · intro h
    exact absurd h hc
  · intro _ _ h
    exact absurd h hc

/-- A character literal takes the next character, whatever it is. -/
theorem beyond_charLiteral_go (c : Char) (s taken : List Char) :
    (charLiteral.go taken (c :: s)).Beyond (c :: s) := by
  by_cases hc : c = '\\'
  · subst hc
    cases s with
    | nil => simp [charLiteral.go, Beyond]
    | cons d s =>
      rw [charLiteral.go]
      exact Nat.lt_of_le_of_lt (reaches_charLiteral_go _ s).length_le (by simp only [List.length_cons]; omega)
  · rw [charLiteral_go_cons hc]
    split
    · simp [Beyond]
    · exact (reaches_charLiteral_go _ _).beyond

theorem charLiteral_go_inStep (hz : Joint Stop z z') (mid taken : List Char) :
    Abreast z z' (charLiteral.go taken (mid ++ z)) (charLiteral.go taken (mid ++ z')) := by
  match mid with
  | [] =>
    cases hz with
    | nil => exact .inr ⟨rfl, [], rfl, rfl⟩
    | cons h => exact .inl (beyond_charLiteral_go _ _ _)
  | a :: mid =>
    by_cases ha : a = '\\'
    · subst ha
      match mid with
      | [] =>
        cases hz with
        | nil => exact .inr ⟨rfl, [], rfl, rfl⟩
        | cons h =>
          simp only [List.cons_append, List.nil_append, charLiteral.go]
          exact .inl (reaches_charLiteral_go _ _).beyond
      | b :: mid =>
        simp only [List.cons_append, charLiteral.go]
        exact charLiteral_go_inStep hz mid _
    · rw [List.cons_append, List.cons_append, charLiteral_go_cons ha, charLiteral_go_cons ha]
      split
      · exact .inr ⟨rfl, mid, rfl, rfl⟩
      · exact charLiteral_go_inStep hz mid _
termination_by mid.length

theorem charLiteral_inStep (hz : Joint Stop z z') (h : Tied z z' k k') :
    Abreast z z' (charLiteral k) (charLiteral k') := by
  refine (h.next hz).andThen (reaches_charLiteral_go _ _) fun h => ?_
  obtain ⟨htaken, mid, hk, hk'⟩ := h
  rw [charLiteral, charLiteral, hk, hk', htaken]
  exact charLiteral_go_inStep hz mid _

/-- Quotes that close a raw literal are all taken. -/
theorem skip_reaches_quotes {n : Nat} (h : (List.replicate n '"').isPrefixOf k.ahead = true) :
    (k.skip n).Reaches (k.skipWhile (· == '"')) := by
  induction n generalizing k with
  | zero => exact reaches_skipWhile _ _
  | succ n ih =>
    obtain ⟨taken, ahead⟩ := k
    obtain ⟨t, rfl⟩ := List.isPrefixOf_iff_prefix.1 h
    have hnext := ih (k := ⟨'"' :: taken, List.replicate n '"' ++ t⟩)
      (List.isPrefixOf_iff_prefix.2 (List.prefix_append _ _))
    simpa [Cursor.skip, Cursor.next, Cursor.skipWhile, List.replicate_succ] using hnext

theorem rawBody_inStep (hz : Joint Stop z z') {n : Nat} (hn : n ≠ 0) (h : Tied z z' k k') :
    Abreast z z' (rawBody n k) (rawBody n k') := by
  have hquote : ∀ c c', Stop c c' → c' ≠ '"' := Stop.forall (P := fun a => a ≠ '"') (by decide)
  have hspares : Spares Stop (List.replicate n '"') := by
    intro c c' h hmem
    exact hquote c c' h (List.eq_of_mem_replicate hmem)
  have hkeeps : ∀ c c', Stop c c' → (c == '"') = false → (c' == '"') = false :=
    Stop.keeps (p := (· == '"')) (by decide)
  have go : ∀ mid taken, Abreast z z' (rawBody.go n taken (mid ++ z))
      (rawBody.go n taken (mid ++ z')) := by
    intro mid
    induction mid with
    | nil =>
      intro taken
      cases hz with
      | nil => exact .inr ⟨rfl, [], rfl, rfl⟩
      | @cons c c' s s' hc =>
        left
        rw [List.nil_append, rawBody.go]
        split
        · rename_i hclose
          have hshort : Short (c :: s) n ⟨taken, c :: s⟩ := ⟨by simp, by simp; omega⟩
          exact hshort.beyond.of_reaches (skip_reaches_quotes hclose)
        · exact (reaches_rawBody_go _ _ _).beyond
    | cons a mid ih =>
      intro taken
      have htied : Tied z z' ⟨taken, a :: mid ++ z⟩ ⟨taken, a :: mid ++ z'⟩ := ⟨rfl, _, rfl, rfl⟩
      have hagrees : Agrees z n ⟨taken, a :: mid ++ z⟩
          ((List.replicate n '"').isPrefixOf (a :: mid ++ z))
          ((List.replicate n '"').isPrefixOf (a :: mid ++ z')) := by
        refine (isPrefixOf_cases hz hspares (a :: mid)).imp_right ?_
        rintro ⟨hold, hnew, hne, -, hlt⟩
        rw [List.length_replicate] at hlt
        exact ⟨hold, hnew, hne, by simp at hlt ⊢; omega⟩
      simp only [List.cons_append] at hagrees htied ⊢
      rw [rawBody.go, rawBody.go]
      exact hagrees.ite (fun h => skip_reaches_quotes h) (fun _ => htied.skipWhile hz hkeeps)
        fun _ => ih (a :: taken)
  obtain ⟨htaken, mid, hk, hk'⟩ := h
  rw [rawBody, rawBody, hk, hk', htaken]
  exact go mid _

theorem encodingMark_inStep (hz : Joint Stop z z') (h : Tied z z' k k') :
    Abreast z z' (encodingMark k) (encodingMark k') := by
  have hmark := (startsWith_agrees hz h "u8" (by decide) rfl).or
    (startsWith_agrees hz h "U8" (by decide) rfl)
  exact hmark.ite (fun _ => .refl _) (fun _ => h.skip hz 2) fun _ => h.abreast

/-! ### Strings -/

theorem three_le_of_stringForm {s : List Char} {n : Nat} (h : stringForm s = .raw n) : 3 ≤ n := by
  simp only [stringForm] at h
  split at h
  · simp only [StringForm.raw.injEq] at h
    omega
  · cases h

/-- Behind marks that reach up to the point where the texts part, a literal takes one more
character. -/
theorem beyond_openString {mid : List Char} (hz : z ≠ []) (hk : k.ahead = mid ++ z)
    (hmid : mid.all isSigil = true) : (openString k).Beyond z := by
  obtain ⟨c, s, rfl⟩ := List.exists_cons_of_ne_nil hz
  have hdrop : (k.skipWhile isSigil).ahead = (c :: s).dropWhile isSigil := by
    rw [ahead_skipWhile, hk, List.dropWhile_append_of_pos (List.all_eq_true.1 hmid)]
  have hle := (List.dropWhile_suffix isSigil (l := s)).length_le
  unfold openString
  by_cases hc : isSigil c = true
  · have hbeyond : (k.skipWhile isSigil).Beyond (c :: s) := by
      rw [Beyond, hdrop, List.dropWhile_cons_of_pos hc, List.length_cons]
      omega
    dsimp only
    split
    · exact hbeyond.of_reaches (reaches_skip _ _)
    · exact hbeyond.of_reaches (reaches_next _)
  · have hone : Short (c :: s) 1 (k.skipWhile isSigil) := by
      refine ⟨by simp, ?_⟩
      rw [hdrop, List.dropWhile_cons_of_neg hc]
      omega
    dsimp only
    split
    · rename_i n hform
      have hn := three_le_of_stringForm hform
      obtain ⟨m, rfl⟩ : ∃ m, n = m + 1 := ⟨n - 1, by omega⟩
      exact hone.beyond.of_reaches (reaches_skip m _)
    · exact hone.beyond

/-- A literal is opened in the same way on both sides, or the first side is beyond the point where the
texts part. -/
theorem openString_inStep (hz : Joint Stop z z') (h : Tied z z' k k') :
    (openString k).Beyond z ∨
      stringForm k.ahead = stringForm k'.ahead ∧ Tied z z' (openString k) (openString k') := by
  obtain ⟨-, mid, hk, hk'⟩ := id h
  by_cases hnil : z = []
  · subst hnil
    cases hz
    obtain rfl := h.eq_of_nil
    exact .inr ⟨rfl, tied_nil _⟩
  cases hmid : mid.all isSigil with
  | true => exact .inl (beyond_openString hnil hk hmid)
  | false =>
    obtain ⟨d, rest, -, hw⟩ := exists_dropWhile hmid
    have hopened : Tied z z' (k.skipWhile isSigil) (k'.skipWhile isSigil) := by
      refine ⟨?_, d :: rest, ?_, ?_⟩
      · rw [Cursor.skipWhile, Cursor.skipWhile, hk, hk', (hw z).1, (hw z').1, h.1]
      · rw [ahead_skipWhile, hk, (hw z).2, List.cons_append]
      · rw [ahead_skipWhile, hk', (hw z').2, List.cons_append]
    have hquote : ∀ c c', Stop c c' → (c' == '"') = false :=
      Stop.forall (P := fun a => (a == '"') = false) (by decide)
    -- The marks are the same, and the quotes are if they end in front of where the texts part.
    unfold openString stringForm
    dsimp only
    rw [hk, hk', (hw z).1, (hw z').1, (hw z).2, (hw z').2]
    obtain heq | ⟨-, -, hlt, hnew⟩ := takeWhile_cases hz hquote (d :: rest)
    · rw [List.cons_append, List.cons_append] at heq
      rw [heq]
      split
      · exact (hopened.skip hz _).imp_right fun h => ⟨rfl, h⟩
      · exact (hopened.next hz).imp_right fun h => ⟨rfl, h⟩
    · rw [List.cons_append] at hlt hnew
      rw [hnew]
      generalize ((d :: (rest ++ z)).takeWhile (· == '"')).length = n at hlt ⊢
      by_cases hn : 3 ≤ n
      · left
        rw [if_pos hn]
        have hshort : Short z n (k.skipWhile isSigil) := by
          refine ⟨hnil, ?_⟩
          rw [ahead_skipWhile, hk, (hw z).2]
          simp only [List.length_cons, List.length_append] at hlt ⊢
          omega
        exact hshort.beyond
      · rw [if_neg hn, if_neg (by omega)]
        exact (hopened.next hz).imp_right fun h => ⟨rfl, h⟩

/-- Marks that reach up to the point where the texts part. -/
def Marked (z : List Char) (k : Cursor) : Prop :=
  z ≠ [] ∧ ∃ mid, k.ahead = mid ++ z ∧ mid.all isSigil = true

theorem Marked.beyond (h : Marked z k) : (openString k).Beyond z := by
  obtain ⟨hne, mid, hk, hmid⟩ := h
  exact beyond_openString hne hk hmid

theorem startsString_cases (hz : Joint Stop z z') (h : Tied z z' k k') :
    startsString k = startsString k' ∨ startsString k = true ∧ Marked z k := by
  obtain ⟨-, mid, hk, hk'⟩ := id h
  -- In front of the quote there are only marks.
  have hlit : ∀ lit ∈ ["\"", "@\"", "$\"", "$@\"", "@$\""],
      k.startsWith lit = k'.startsWith lit ∨ k.startsWith lit = true ∧ Marked z k := by
    intro lit hmem
    have hsigils : isSparing lit = true ∧ lit.toList.dropLast.all isSigil = true :=
      (by decide : ∀ lit ∈ ["\"", "@\"", "$\"", "$@\"", "@$\""], isSparing lit = true ∧
        lit.toList.dropLast.all isSigil = true) lit hmem
    rw [startsWith, startsWith, hk, hk']
    refine (isPrefixOf_cases hz (Stop.spares hsigils.1) mid).imp_right ?_
    rintro ⟨hold, -, hne, ⟨t, ht⟩, hlt⟩
    refine ⟨hold, hne, mid, hk, ?_⟩
    have hlast : t ≠ [] := by
      rintro rfl
      rw [← ht, List.append_nil] at hlt
      exact Nat.lt_irrefl _ hlt
    have hall := hsigils.2
    rw [← ht, List.dropLast_append_of_ne_nil hlast, List.all_append, Bool.and_eq_true] at hall
    exact hall.1
  have hor : ∀ {b b' d d' : Bool}, (b = b' ∨ b = true ∧ Marked z k) →
      (d = d' ∨ d = true ∧ Marked z k) →
      ((b || d) = (b' || d') ∨ (b || d) = true ∧ Marked z k) := by
    rintro b b' d d' (rfl | ⟨rfl, hmarked⟩) h
    · rcases h with rfl | ⟨rfl, hmarked⟩
      · exact .inl rfl
      · exact .inr ⟨Bool.or_true b, hmarked⟩
    · exact .inr ⟨Bool.true_or d, hmarked⟩
  exact hor (hor (hor (hor (hlit _ (by decide)) (hlit _ (by decide))) (hlit _ (by decide)))
    (hlit _ (by decide))) (hlit _ (by decide))

theorem opensString_of_startsString {k : Cursor} (h : startsString k = true) :
    opensString k.ahead = true := by
  unfold startsString startsWith at h
  simp only [Bool.or_eq_true, List.isPrefixOf_iff_prefix] at h
  rcases h with (((⟨t, ht⟩ | ⟨t, ht⟩) | ⟨t, ht⟩) | ⟨t, ht⟩) | ⟨t, ht⟩ <;> rw [← ht] <;> rfl

theorem reaches_stringLiteral (fuel : Nat) (k : Cursor) :
    (openString k).Reaches (stringLiteral fuel k) := by
  unfold stringLiteral
  refine Reaches.trans ?_ (reaches_encodingMark _)
  split
  · exact reaches_rawBody _ _
  · exact (reaches_quotedBody_interpolation fuel).1 _ _ _

/-- A string literal keeps in step if the bodies of quoted literals do. -/
theorem stringLiteral_inStep_of (hz : Joint Stop z z') {fuel fuel' : Nat} (h : Tied z z' k k')
    (hbody : Tied z z' (openString k) (openString k') → ∀ v i,
      Abreast z z' (quotedBody v i fuel (openString k)) (quotedBody v i fuel' (openString k'))) :
    Abreast z z' (stringLiteral fuel k) (stringLiteral fuel' k') := by
  obtain hbeyond | ⟨hform, hopen⟩ := openString_inStep hz h
  · exact .inl (hbeyond.of_reaches (reaches_stringLiteral fuel k))
  unfold stringLiteral
  dsimp only
  refine Abreast.andThen ?_ (reaches_encodingMark _) (encodingMark_inStep hz)
  rw [← hform]
  split
  · rename_i n hraw
    have hn := three_le_of_stringForm hraw
    exact rawBody_inStep hz (by omega) hopen
  · exact hbody hopen _ _

theorem quotedBody_cons {v i : Bool} {fuel : Nat} {c : Char} {r : List Char}
    (hk : k.ahead = c :: r) : quotedBody v i (fuel + 1) k =
    if c == '"' && v && r.head? == some '"' then quotedBody v i fuel (k.skip 2)
    else if c == '"' then k.next
    else if c == '\\' && !v then quotedBody v i fuel (k.skip 2)
    else if c == '\n' && !v then k
    else if c == '\x7b' && i then
      if r.head? == some '\x7b' then quotedBody v i fuel (k.skip 2)
      else quotedBody v i fuel (interpolation 0 fuel k.next)
    else quotedBody v i fuel k.next := by
  rw [quotedBody, hk]
  by_cases hquote : c = '"'
  · subst hquote
    cases r with
    | nil => simp
    | cons d r =>
      by_cases hd : d = '"'
      · subst hd
        cases v <;> simp
      · simp [hd]
  by_cases hslash : c = '\\'
  · subst hslash
    cases v <;> simp
  by_cases hline : c = '\n'
  · subst hline
    cases v <;> simp
  by_cases hbrace : c = '\x7b'
  · subst hbrace
    cases r with
    | nil => simp
    | cons d r =>
      by_cases hd : d = '\x7b'
      · subst hd
        cases i <;> simp
      · simp [hd]
  simp [hquote, hslash, hline, hbrace]

theorem interpolation_succ (depth fuel : Nat) (k : Cursor) :
    interpolation depth (fuel + 1) k =
      match k.ahead.head? with
      | none => k
      | some c =>
        if c == '\x7b' || c == '(' || c == '[' then interpolation (depth + 1) fuel k.next
        else if c == ')' || c == ']' then interpolation (depth - 1) fuel k.next
        else if c == '\x7d' then
          if depth == 0 then k.next else interpolation (depth - 1) fuel k.next
        else if startsString k then interpolation depth fuel (stringLiteral fuel k)
        else if c == '\'' then interpolation depth fuel (charLiteral k)
        else if c == '\n' && depth == 0 then k
        else interpolation depth fuel k.next := by
  rw [interpolation]
  unfold stringLiteral
  cases k.ahead <;> rfl

/-- Only a line break can be left over by the body of a literal and by an interpolation in it. -/
theorem advances_quotedBody_interpolation (fuel : Nat) {c : Char} {r : List Char}
    (hk : k.ahead = c :: r) (hc : isInLine c = true) :
    (∀ v i, k.Advances (quotedBody v i (fuel + 1) k)) ∧
      ∀ depth, k.Advances (interpolation depth (fuel + 1) k) := by
  have hne : k.ahead ≠ [] := by simp [hk]
  have hline : c ≠ '\n' := by
    rintro rfl
    exact absurd hc (by decide)
  obtain ⟨hquoted, hinner⟩ := reaches_quotedBody_interpolation fuel
  have hnext := advances_next hne
  have htwo := advances_skip (n := 2) (by decide) hne
  refine ⟨fun v i => ?_, fun depth => ?_⟩
  · rw [quotedBody_cons hk]
    split
    · exact htwo.reaches (hquoted _ _ _)
    split
    · exact hnext
    split
    · exact htwo.reaches (hquoted _ _ _)
    split
    · simp_all
    split
    · split
      · exact htwo.reaches (hquoted _ _ _)
      · exact (hnext.reaches (hinner _ _)).reaches (hquoted _ _ _)
    · exact hnext.reaches (hquoted _ _ _)
  · rw [interpolation_succ, hk]
    dsimp only [List.head?_cons]
    split
    · exact hnext.reaches (hinner _ _)
    split
    · exact hnext.reaches (hinner _ _)
    split
    · split
      · exact hnext
      · exact hnext.reaches (hinner _ _)
    split
    · rename_i hstring
      exact (advances_stringLiteral (opensString_of_startsString hstring)).reaches (hinner _ _)
    split
    · exact (advances_charLiteral hne).reaches (hinner _ _)
    split
    · simp_all
    · exact hnext.reaches (hinner _ _)

/-- Where the second of two quotes is seen on one side only, it stands beyond the point where the
texts part. -/
theorem doubledQuote_agrees (hz : Joint Stop z z') {a : Char} {mid : List Char}
    (hk : k.ahead = a :: (mid ++ z)) (v : Bool) :
    Agrees z 2 k (a == '"' && v && (mid ++ z).head? == some '"')
      (a == '"' && v && (mid ++ z').head? == some '"') := by
  cases mid with
  | cons b mid => exact .inl rfl
  | nil =>
    cases hz with
    | nil => exact .inl rfl
    | @cons c c' s s' hc =>
      have hquote : (c' == '"') = false :=
        Stop.forall (P := fun a => (a == '"') = false) (by decide) c c' hc
      cases hold : (a == '"' && v && ([] ++ c :: s).head? == some '"') with
      | false => exact .inl (by simp [hquote])
      | true => exact .inr ⟨rfl, by simp [hquote], by simp, by simp [hk]⟩

/-- An opening brace in a literal right in front of the point where the texts part takes the first
side beyond it, whether it is doubled or begins an interpolation. -/
theorem brace_inStep (hz : Joint Stop z z') {a : Char} {mid : List Char} {v i : Bool} {fuel : Nat}
    {m m' : Cursor} (hk : k.ahead = a :: (mid ++ z)) (hf : k.ahead.length < fuel + 1)
    (htwo : Abreast z z' (quotedBody v i fuel (k.skip 2)) m)
    (hinner : Abreast z z' (quotedBody v i fuel (interpolation 0 fuel k.next)) m') :
    Abreast z z'
      (if (mid ++ z).head? == some '\x7b' then quotedBody v i fuel (k.skip 2)
        else quotedBody v i fuel (interpolation 0 fuel k.next))
      (if (mid ++ z').head? == some '\x7b' then m else m') := by
  have hreach := (reaches_quotedBody_interpolation fuel).1
  cases mid with
  | cons b mid => exact .ite (fun _ => htwo) fun _ => hinner
  | nil =>
    cases hz with
    | nil => exact .ite (fun _ => htwo) fun _ => hinner
    | @cons c c' s s' hc =>
      left
      split
      · have hshort : Short (c :: s) 2 k := ⟨by simp, by simp [hk]⟩
        exact hshort.beyond.of_reaches (hreach _ _ _)
      · have hrest : k.next.ahead = c :: s := by simp [hk]
        obtain ⟨fuel, rfl⟩ : ∃ n, fuel = n + 1 := by
          refine ⟨fuel - 1, ?_⟩
          simp only [hk, List.nil_append, List.length_cons] at hf
          omega
        have hadv := (advances_quotedBody_interpolation fuel hrest hc.1).2 0
        have hbeyond : (interpolation 0 (fuel + 1) k.next).Beyond (c :: s) := hrest ▸ hadv.2
        exact hbeyond.of_reaches (hreach _ _ _)

/-- The body of a literal and the interpolations in it keep in step from two places on. -/
structure BodiesAbreast (z z' : List Char) (fuel fuel' : Nat) (k k' : Cursor) : Prop where
  quoted : ∀ v i, Abreast z z' (quotedBody v i fuel k) (quotedBody v i fuel' k')
  inner : ∀ depth, Abreast z z' (interpolation depth fuel k) (interpolation depth fuel' k')

/-- At the point where the texts part only a line break could be left over. -/
theorem bodiesAbreast_at_joint (hz : Joint Stop z z') (h : Tied z z' k k') (hk : k.ahead = z)
    (hk' : k'.ahead = z') (fuel fuel' : Nat) :
    BodiesAbreast z z' (fuel + 1) (fuel' + 1) k k' := by
  cases hz with
  | nil =>
    have hquoted : ∀ {k : Cursor} {fuel : Nat} v i, k.ahead = [] →
        quotedBody v i (fuel + 1) k = k := fun v i hk => by rw [quotedBody, hk]
    have hinner : ∀ {k : Cursor} {fuel : Nat} depth, k.ahead = [] →
        interpolation depth (fuel + 1) k = k := fun depth hk => by rw [interpolation, hk]
    refine ⟨fun v i => ?_, fun depth => ?_⟩
    · rw [hquoted v i hk, hquoted v i hk']
      exact h.abreast
    · rw [hinner depth hk, hinner depth hk']
      exact h.abreast
  | cons hc =>
    obtain ⟨hquoted, hinner⟩ := advances_quotedBody_interpolation fuel hk hc.1
    exact ⟨fun v i => .inl (hk ▸ (hquoted v i).2), fun depth => .inl (hk ▸ (hinner depth).2)⟩

section step

variable {a : Char} {mid : List Char} {fuel fuel' : Nat}

/-- The body of a literal takes what comes next in step, if all is in step behind it. -/
theorem quotedBody_inStep (hz : Joint Stop z z') (h : Tied z z' k k')
    (hk : k.ahead = a :: (mid ++ z)) (hk' : k'.ahead = a :: (mid ++ z'))
    (hf : k.ahead.length < fuel + 1)
    (step : ∀ {m m' : Cursor}, Abreast z z' m m' → k.Advances m → k'.Advances m' →
      BodiesAbreast z z' fuel fuel' m m') (v i : Bool) :
    Abreast z z' (quotedBody v i (fuel + 1) k) (quotedBody v i (fuel' + 1) k') := by
  have hadv := advances_next (k := k) (by simp [hk])
  have hadv' := advances_next (k := k') (by simp [hk'])
  have hnext := step (h.next hz) hadv hadv'
  have htwo := step (h.skip hz 2) (advances_skip (by decide) (by simp [hk]))
    (advances_skip (by decide) (by simp [hk']))
  have hreach := fun fuel => (reaches_quotedBody_interpolation fuel).2 0
  have hinner := (step (hnext.inner 0) (hadv.reaches (hreach _ _))
    (hadv'.reaches (hreach _ _))).quoted v i
  have hbrace := brace_inStep hz hk hf (htwo.quoted v i) hinner
  have hskip := (reaches_quotedBody_interpolation fuel).1
  rw [quotedBody_cons hk, quotedBody_cons hk']
  exact (doubledQuote_agrees hz hk v).ite (fun _ => hskip _ _ _) (fun _ => htwo.quoted _ _) fun _ =>
    .ite (fun _ => h.next hz) fun _ => .ite (fun _ => htwo.quoted _ _) fun _ =>
    .ite (fun _ => h.abreast) fun _ => .ite (fun _ => hbrace) fun _ => hnext.quoted _ _

/-- An interpolation takes what comes next in step, if all is in step behind it. -/
theorem interpolation_inStep (hz : Joint Stop z z') (h : Tied z z' k k')
    (hk : k.ahead = a :: (mid ++ z)) (hk' : k'.ahead = a :: (mid ++ z'))
    (step : ∀ {m m' : Cursor}, Abreast z z' m m' → k.Advances m → k'.Advances m' →
      BodiesAbreast z z' fuel fuel' m m') (depth : Nat) :
    Abreast z z' (interpolation depth (fuel + 1) k) (interpolation depth (fuel' + 1) k') := by
  have hne : k.ahead ≠ [] := by simp [hk]
  have hne' : k'.ahead ≠ [] := by simp [hk']
  have hnext := (step (h.next hz) (advances_next hne) (advances_next hne')).inner
  have hchar := (step (charLiteral_inStep hz h) (advances_charLiteral hne)
    (advances_charLiteral hne')).inner depth
  rw [interpolation_succ, interpolation_succ, hk, hk']
  dsimp only [List.head?_cons]
  refine .ite (fun _ => hnext _) fun _ => .ite (fun _ => hnext _) fun _ =>
    .ite (fun _ => .ite (fun _ => h.next hz) fun _ => hnext _) fun _ => ?_
  obtain heq | ⟨hold, hmarked⟩ := startsString_cases hz h
  · rw [← heq]
    refine .ite (fun hold => ?_) fun _ => .ite (fun _ => hchar) fun _ =>
      .ite (fun _ => h.abreast) fun _ => hnext _
    have hopens := opensString_of_startsString hold
    have hopens' := opensString_of_startsString (heq ▸ hold)
    refine (step (stringLiteral_inStep_of hz h fun hopen => ?_)
      (advances_stringLiteral hopens) (advances_stringLiteral hopens')).inner _
    exact (step hopen.abreast (advances_openString hopens) (advances_openString hopens')).quoted
  · left
    rw [if_pos hold]
    exact (hmarked.beyond.of_reaches (reaches_stringLiteral _ _)).of_reaches
      ((reaches_quotedBody_interpolation fuel).2 _ _)

end step

/-- The body of a literal and the interpolations in it keep in step, whatever the bounds are, as
long as they suffice for what is ahead. -/
theorem bodiesAbreast (hz : Joint Stop z z') {fuel fuel' : Nat} (h : Tied z z' k k')
    (hf : k.ahead.length < fuel) (hf' : k'.ahead.length < fuel') :
    BodiesAbreast z z' fuel fuel' k k' := by
  induction fuel generalizing fuel' k k' with
  | zero => omega
  | succ fuel ih =>
    cases fuel' with
    | zero => omega
    | succ fuel' =>
      obtain ⟨-, mid, hk, hk'⟩ := id h
      cases mid with
      | nil => exact bodiesAbreast_at_joint hz h hk hk' fuel fuel'
      | cons a mid =>
        obtain ⟨hquoted, hinner⟩ := reaches_quotedBody_interpolation fuel
        -- Whatever is scanned next, the bounds suffice for what is ahead then.
        have step : ∀ {m m' : Cursor}, Abreast z z' m m' → k.Advances m → k'.Advances m' →
            BodiesAbreast z z' fuel fuel' m m' := by
          intro m m' hm hadv hadv'
          have hlt := hadv.2
          have hlt' := hadv'.2
          exact ⟨fun v i => hm.andThen (hquoted v i m) fun h =>
              (ih h (by omega) (by omega)).quoted v i,
            fun depth => hm.andThen (hinner depth m) fun h =>
              (ih h (by omega) (by omega)).inner depth⟩
        exact ⟨quotedBody_inStep hz h hk hk' hf step, interpolation_inStep hz h hk hk' step⟩

theorem stringLiteral_inStep (hz : Joint Stop z z') {fuel fuel' : Nat} (h : Tied z z' k k')
    (hf : k.ahead.length < fuel) (hf' : k'.ahead.length < fuel') :
    Abreast z z' (stringLiteral fuel k) (stringLiteral fuel' k') := by
  refine stringLiteral_inStep_of hz h fun hopen v i => ?_
  have hle := (reaches_openString k).length_le
  have hle' := (reaches_openString k').length_le
  exact (bodiesAbreast hz hopen (by omega) (by omega)).quoted v i

/-! ### Tokens -/

/-- The characters with which no scanner goes on are tokens of their own. -/
theorem token_of_mem_halts {c : Char} (hc : c ∈ halts) (fuel : Nat) (rest : List Char) :
    token fuel (c :: rest) = .ok (.punct, ⟨[c], rest⟩) := by
  have hfind : punctuators.find? (start (c :: rest)).startsWith = none := by
    have hfirst : ∀ p ∈ punctuators, p.toList.head?.any (fun d => !halts.contains d) = true := by
      decide
    rw [List.find?_eq_none]
    intro p hp hstarts
    obtain ⟨d, hd, hout⟩ := (Option.any_eq_true _ _).1 (hfirst p hp)
    obtain ⟨ds, hp⟩ := List.head?_eq_some_iff.1 hd
    simp only [startsWith, start, hp, List.isPrefixOf, Bool.and_eq_true, beq_iff_eq] at hstarts
    rw [hstarts.1] at hout
    simp [hc] at hout
  obtain ⟨hopens, hnumber, hword, hpunct, htick, hat⟩ : opensString (c :: rest) = false ∧
      startsNumber (c :: rest) = false ∧ isWordStart c = false ∧ isPunct c = true ∧
      (c == '\'') = false ∧ (c == '@') = false := by
    simp only [halts, List.mem_cons, List.not_mem_nil, or_false] at hc
    rcases hc with rfl | rfl | rfl | rfl <;> exact ⟨rfl, rfl, by decide, by decide, rfl, rfl⟩
  simp only [token, hopens, hnumber, hword, htick, hat, hfind, hpunct, Bool.false_and,
    Bool.false_eq_true, if_false, if_true]
  rfl

theorem opensString_cases (hz : Joint Stop z z') (h : Tied z z' k k') :
    opensString k.ahead = opensString k'.ahead ∨ opensString k.ahead = true ∧ Marked z k := by
  obtain ⟨-, mid, hk, hk'⟩ := h
  rw [Marked, hk, hk']
  cases hz with
  | nil => exact .inl rfl
  | @cons c c' s s' h =>
    have hnew : c' ≠ '"' ∧ c' ≠ '@' ∧ c' ≠ '$' :=
      Stop.forall (P := fun a => a ≠ '"' ∧ a ≠ '@' ∧ a ≠ '$') (by decide) c c' h
    match mid with
    | [] =>
      have hno : opensString (c' :: s') = false := by simp [opensString, hnew]
      cases hold : opensString (c :: s) with
      | false => exact .inl (by simp [hold, hno])
      | true => exact .inr ⟨hold, by simp, [], rfl, rfl⟩
    | [a] =>
      by_cases ha : isSigil a = true
      · have hno : opensString (a :: c' :: s') = false := by
          simp only [isSigil, Bool.or_eq_true, beq_iff_eq] at ha
          rcases ha with rfl | rfl <;> simp [opensString, hnew]
        cases hold : opensString (a :: c :: s) with
        | false => exact .inl (by simp [hold, hno])
        | true => exact .inr ⟨hold, by simp, [a], rfl, by simp [ha]⟩
      · left
        simp only [isSigil, Bool.or_eq_true, beq_iff_eq, not_or] at ha
        by_cases hq : a = '"'
        · subst hq
          rfl
        · simp [opensString, hq, ha.1, ha.2]
    | a :: b :: mid =>
      left
      by_cases hq : a = '"'
      · subst hq
        rfl
      by_cases ht : a = '@'
      · subst ht
        rfl
      by_cases hd : a = '$'
      · subst hd
        rfl
      simp [opensString, hq, ht, hd]

theorem isBrokenString_congr {mid : List Char} (hmid : mid.all isSigil = false) :
    isBrokenString (mid ++ z) = isBrokenString (mid ++ z') ∧
      stringKind (mid ++ z) = stringKind (mid ++ z') := by
  obtain ⟨d, rest, -, hw⟩ := exists_dropWhile hmid
  exact ⟨by rw [isBrokenString, isBrokenString, (hw z).2, (hw z').2],
    by rw [stringKind, stringKind, (hw z).1, (hw z').1]⟩

/-- Behind the sign of a verbatim word the same is seen, or the word goes beyond the point where the
texts part. -/
theorem atWord_agrees (hz : Joint Stop z z') {a : Char} {mid : List Char}
    (hk : k.ahead = a :: (mid ++ z)) :
    Agrees z 2 k (a == '@' && (mid ++ z).head?.any isWordStart)
      (a == '@' && (mid ++ z').head?.any isWordStart) := by
  cases mid with
  | cons b mid => exact .inl rfl
  | nil =>
    cases hz with
    | nil => exact .inl rfl
    | @cons c c' s s' hc =>
      obtain ⟨-, hc' | ⟨rfl, rfl⟩⟩ := hc
      · have hhalts : ∀ a ∈ halts, isWordStart a = false := forall_mem_halts.2 (by decide)
        have hnot := hhalts c' hc'
        cases hold : (a == '@' && ([] ++ c :: s).head?.any isWordStart) with
        | false => exact .inl (by simp [hnot])
        | true => exact .inr ⟨rfl, by simp [hnot], by simp, by simp [hk]⟩
      · exact .inl rfl

theorem isWordPart_of_isWordStart {c : Char} (h : isWordStart c = true) : isWordPart c = true := by
  simp only [isWordStart, isWordPart, Bool.or_eq_true] at h ⊢
  exact h.imp_right Text.isWordChar_of_isLetter

/-- A verbatim word takes the character behind its sign. -/
theorem skip_reaches_atWord {a : Char} {t : List Char}
    (h : (a == '@' && t.head?.any isWordStart) = true) :
    ((start (a :: t)).skip 2).Reaches ((start (a :: t)).next.skipWhile isWordPart) := by
  rw [Bool.and_eq_true, Option.any_eq_true] at h
  obtain ⟨-, c, hc, hword⟩ := h
  exact next_reaches_skipWhile hc (isWordPart_of_isWordStart hword)

/-- A text is a number or not because of what stands behind its first character only if that is a
point. -/
theorem startsWith_point {a : Char} {t t' : List Char} (h : startsNumber (a :: t) = true)
    (h' : startsNumber (a :: t') = false) :
    ((start (a :: t)).startsWith "." && startsNumber (a :: t)) = true := by
  by_cases ha : a = '.'
  · subst ha
    rw [h]
    rfl
  · have hdigit : ∀ s, startsNumber (a :: s) = a.isDigit := fun s => by simp [startsNumber, ha]
    rw [hdigit] at h h'
    rw [h] at h'
    cases h'

/-- The same mark is found on both sides, or one that goes beyond the point where the texts part. -/
theorem find?_punctuators_cases (hz : Joint Stop z z') (h : Tied z z' k k') :
    punctuators.find? k.startsWith = punctuators.find? k'.startsWith ∨
      ∃ p, punctuators.find? k.startsWith = some p ∧ (k.skip p.length).Beyond z := by
  have hlit : ∀ p ∈ punctuators, isSparing p = true := by decide
  have hagrees : ∀ p ∈ punctuators, Agrees z p.length k (k.startsWith p) (k'.startsWith p) :=
    fun p hp => startsWith_agrees hz h p (hlit p hp) String.length_toList
  generalize punctuators = ps at hagrees ⊢
  induction ps with
  | nil => exact .inl rfl
  | cons p ps ih =>
    have ih := ih fun q hq => hagrees q (List.mem_cons_of_mem _ hq)
    obtain heq | ⟨hold, -, hshort⟩ := hagrees p List.mem_cons_self
    · rw [List.find?_cons, List.find?_cons, ← heq]
      split
      · exact .inl rfl
      · exact ih
    · exact .inr ⟨p, by rw [List.find?_cons, hold], hshort.beyond⟩

/-- What ends before the texts go on differently is read as the same kind on both sides. -/
theorem read_of_abreast {kind kind₀ kind₁ : TokenKind} (hk : ¬k.Beyond z) (hm : Abreast z z' m m')
    (hkind : Tied z z' m m' → kind₁ = kind₀)
    (h : Except.ok (ε := Error) (kind₀, m) = .ok (kind, k)) :
    ∃ k', Except.ok (ε := Error) (kind₁, m') = .ok (kind, k') ∧ Tied z z' k k' := by
  simp only [Except.ok.injEq, Prod.mk.injEq] at h
  obtain ⟨rfl, rfl⟩ := h
  have hm := hm.resolve_left hk
  exact ⟨m', by rw [hkind hm], hm⟩

/-- What goes beyond the point where the texts part is not what ends before it. -/
theorem not_read_of_beyond {kind kind₀ : TokenKind} (hk : ¬k.Beyond z) (hm : m.Beyond z) :
    Except.ok (ε := Error) (kind₀, m) ≠ .ok (kind, k) := by
  intro h
  simp only [Except.ok.injEq, Prod.mk.injEq] at h
  exact hk (h.2 ▸ hm)

section token

variable {fuel fuel' : Nat} {mid : List Char} {kind : TokenKind}

/-- The marks in front of a literal do not end where the texts part. -/
theorem not_marked_of_token (h : token fuel (mid ++ z) = .ok (kind, k)) (hk : ¬k.Beyond z)
    (hopens : opensString (mid ++ z) = true) : ¬Marked z (start (mid ++ z)) := by
  intro hmarked
  simp only [token, hopens, if_true] at h
  split at h
  · cases h
  · exact not_read_of_beyond hk (hmarked.beyond.of_reaches (reaches_stringLiteral _ _)) h

theorem opensString_eq_of_token (hz : Joint Stop z z')
    (h : token fuel (mid ++ z) = .ok (kind, k)) (hk : ¬k.Beyond z) :
    opensString (mid ++ z) = opensString (mid ++ z') := by
  have htied : Tied z z' (start (mid ++ z)) (start (mid ++ z')) := ⟨rfl, mid, rfl, rfl⟩
  obtain heq | ⟨hopens, hmarked⟩ := opensString_cases hz htied
  · exact heq
  · exact absurd hmarked (not_marked_of_token h hk hopens)

/-- A literal of text is read on both sides. -/
theorem stringToken_inStep (hz : Joint Stop z z') (hf : (mid ++ z).length < fuel)
    (hf' : (mid ++ z').length < fuel') (hopens : opensString (mid ++ z) = true)
    (h : token fuel (mid ++ z) = .ok (kind, k)) (hk : ¬k.Beyond z) :
    ∃ k', token fuel' (mid ++ z') = .ok (kind, k') ∧ Tied z z' k k' := by
  have htied : Tied z z' (start (mid ++ z)) (start (mid ++ z')) := ⟨rfl, mid, rfl, rfl⟩
  have hopens' := opensString_eq_of_token hz h hk ▸ hopens
  have hsame : isBrokenString (mid ++ z) = isBrokenString (mid ++ z') ∧
      stringKind (mid ++ z) = stringKind (mid ++ z') := by
    by_cases hnil : z = []
    · subst hnil
      cases hz
      exact ⟨rfl, rfl⟩
    · refine isBrokenString_congr ?_
      by_contra hall
      exact not_marked_of_token h hk hopens ⟨hnil, mid, rfl, by simpa using hall⟩
  simp only [token, hopens, hopens', if_true, ← hsame.1, ← hsame.2] at h ⊢
  split at h
  · cases h
  · rename_i hbroken
    rw [if_neg hbroken]
    exact read_of_abreast hk (stringLiteral_inStep hz htied hf hf') (fun _ => rfl) h

/-- A token that is no literal of text is read on both sides, from its first character on. -/
theorem plainToken_inStep (hz : Joint Stop z z') {a : Char}
    (hopens : opensString (a :: (mid ++ z)) = false)
    (h : token fuel (a :: (mid ++ z)) = .ok (kind, k)) (hk : ¬k.Beyond z) :
    ∃ k', token fuel' (a :: (mid ++ z')) = .ok (kind, k') ∧ Tied z z' k k' := by
  have htied : Tied z z' (start (a :: (mid ++ z))) (start (a :: (mid ++ z'))) :=
    ⟨rfl, a :: mid, rfl, rfl⟩
  have hopens' : opensString (a :: mid ++ z) = opensString (a :: mid ++ z') :=
    opensString_eq_of_token hz h hk
  rw [List.cons_append, List.cons_append, hopens] at hopens'
  have hat : Agrees z 2 (start (a :: (mid ++ z))) _ _ := atWord_agrees hz rfl
  have hnumber := startsNumber_agrees hz htied
  have hpunct := find?_punctuators_cases hz htied
  simp only [token, hopens, ← hopens', Bool.false_eq_true, if_false] at h ⊢
  split at h
  · rename_i hc
    rw [if_pos hc]
    exact read_of_abreast hk (charLiteral_inStep hz htied) (fun _ => rfl) h
  rename_i hc
  rw [if_neg hc]
  split at h
  · rename_i hword
    obtain heq | ⟨-, -, hshort⟩ := hat
    · rw [if_pos (heq ▸ hword)]
      exact read_of_abreast hk ((htied.next hz).andThen (reaches_skipWhile _ _) fun h =>
        h.skipWhile hz (Stop.keeps (by decide))) (fun _ => rfl) h
    · exact (not_read_of_beyond hk (hshort.beyond.of_reaches (skip_reaches_atWord hword)) h).elim
  rename_i hword
  rw [if_neg (hat.eq_of_not hword ▸ hword)]
  split at h
  · rename_i hc
    rw [if_pos hc]
    refine read_of_abreast hk (htied.skipWhile hz (Stop.keeps (by decide))) (fun hm => ?_) h
    rw [hm.lexeme_eq]
  rename_i hc
  rw [if_neg hc]
  split at h
  · rename_i hdigits
    obtain heq | ⟨-, hno, hshort⟩ := hnumber
    · rw [if_pos (heq ▸ hdigits)]
      exact read_of_abreast hk (number_inStep hz htied) (fun _ => rfl) h
    · exact (not_read_of_beyond hk (hshort.beyond.of_reaches (skip_reaches_number
        (startsWith_point hdigits hno))) h).elim
  rename_i hdigits
  rw [if_neg (hnumber.eq_of_not hdigits ▸ hdigits)]
  obtain heq | ⟨p, hp, hbeyond⟩ := hpunct
  · rw [← heq]
    split at h
    · exact read_of_abreast hk (htied.skip hz _) (fun _ => rfl) h
    · exact read_of_abreast hk (htied.next hz) (fun _ => rfl) h
  · rw [hp] at h
    exact (not_read_of_beyond hk hbeyond h).elim

/-- A token that ends before the texts go on differently is read on both sides. -/
theorem token_inStep (hz : Joint Stop z z') (hf : (mid ++ z).length < fuel)
    (hf' : (mid ++ z').length < fuel') (h : token fuel (mid ++ z) = .ok (kind, k))
    (hk : ¬k.Beyond z) : ∃ k', token fuel' (mid ++ z') = .ok (kind, k') ∧ Tied z z' k k' := by
  cases hopens : opensString (mid ++ z) with
  | true => exact stringToken_inStep hz hf hf' hopens h hk
  | false =>
    cases mid with
    | cons a mid => exact plainToken_inStep hz hopens h hk
    | nil =>
      cases hz with
      | nil => exact ⟨k, h, by cases h; exact ⟨rfl, [], rfl, rfl⟩⟩
      -- At the point where the texts part a token would go beyond it.
      | cons hc => exact absurd (advances_token h (List.cons_ne_nil _ _)).1.2 hk

end token

end stop

end Lexer

end PluginLint
