import PluginLint.Text.Message
import Mathlib.Data.Nat.Digits.Defs

/-!
# Messages from templates

A template is cut into pieces before any argument is known: characters that stay, and places for
arguments. `Cuts` says where the cuts are, from the left: a place is an opening brace, a number of an
argument that is there, and the first closing brace behind; any other opening brace stays, and the
text behind it is cut in its turn. A message is what is in the pieces, so nothing in an argument is
ever taken for a place.
-/
namespace PluginLint.Text

/-! ### Numbers of arguments -/

/-- The value of decimal digits, the most significant first. -/
def decimalValue (digits : List Char) : Nat :=
  Nat.ofDigits 10 (digits.reverse.map fun c => c.toNat - '0'.toNat)

/-- The text spells a number: decimal digits, with or without a plus sign in front, for a number that
is a word of 64 bits. -/
def Spells (word : List Char) (number : Nat) : Prop :=
  (∃ digits, (word = digits ∨ word = '+' :: digits) ∧ digits ≠ [] ∧
    (∀ c ∈ digits, c.isDigit = true) ∧ decimalValue digits = number) ∧ number < wordLimit

theorem foldl_digits_eq_decimalValue (digits : List Char) :
    digits.foldl (fun n c => 10 * n + (c.toNat - '0'.toNat)) 0 = decimalValue digits := by
  rw [decimalValue, Nat.ofDigits_eq_foldr, List.foldr_map, List.foldr_reverse]
  simp only [Nat.cast_id, Nat.add_comm]

theorem digitsValue?_eq_some_iff {s : List Char} {number : Nat} :
    digitsValue? s = some number ↔
      s ≠ [] ∧ (∀ c ∈ s, c.isDigit = true) ∧ decimalValue s = number := by
  rw [digitsValue?, foldl_digits_eq_decimalValue]
  split
  · rename_i h
    simp only [Bool.or_eq_true, List.isEmpty_iff, Bool.not_eq_true', List.all_eq_false] at h
    refine iff_of_false (by simp) ?_
    rintro ⟨hne, hall, -⟩
    obtain ⟨c, hc, hdigit⟩ := h.resolve_left hne
    exact hdigit (hall c hc)
  · rename_i h
    simp only [Bool.or_eq_true, List.isEmpty_iff, Bool.not_eq_true', not_or,
      Bool.not_eq_false, List.all_eq_true] at h
    rw [Option.some_inj]
    exact ⟨fun hvalue => ⟨h.1, h.2, hvalue⟩, fun hvalue => hvalue.2.2⟩

/-- Digits may be spelled with a sign, and a sign is no digit. -/
theorem parseWord?_eq_some_iff {word : List Char} {number : Nat} :
    parseWord? word = some number ↔ Spells word number := by
  have hbound : ∀ value : Option Nat,
      (value.bind fun n => if n < wordLimit then some n else none) = some number ↔
        value = some number ∧ number < wordLimit := by
    intro value
    cases value with
    | none => simp
    | some n => simpa [and_comm] using fun h : n = number => by rw [h]
  unfold parseWord? Spells
  split
  · rename_i rest
    refine (hbound _).trans (and_congr_left fun _ => digitsValue?_eq_some_iff.trans ?_)
    refine ⟨fun h => ⟨rest, .inr rfl, h⟩, ?_⟩
    rintro ⟨digits, rfl | hsigned, h⟩
    · exact absurd (h.2.1 '+' (by simp)) (by decide)
    · obtain rfl := List.tail_eq_of_cons_eq hsigned
      exact h
  · rename_i hplain
    refine (hbound _).trans (and_congr_left fun _ => digitsValue?_eq_some_iff.trans ?_)
    refine ⟨fun h => ⟨word, .inl rfl, h⟩, ?_⟩
    rintro ⟨digits, rfl | hsigned, h⟩
    · exact h
    · exact absurd hsigned (hplain digits)

/-- A place is found up to the first closing brace, and only with the number of an argument. -/
theorem placeholder?_eq_some_iff {count index : Nat} {s rest : List Char} :
    placeholder? count s = some (index, rest) ↔
      ∃ word, s = word ++ '}' :: rest ∧ '}' ∉ word ∧ Spells word index ∧ index < count := by
  have hsplit : ∀ {word tail : List Char}, '}' ∉ word →
      (word ++ '}' :: tail).takeWhile (· != '}') = word ∧
        (word ++ '}' :: tail).dropWhile (· != '}') = '}' :: tail := by
    intro word tail hword
    have hall : ∀ c ∈ word, (c != '}') = true := fun c hc => by
      simpa using ne_of_mem_of_not_mem hc hword
    exact ⟨by simp [List.takeWhile_append_of_pos hall], by simp [List.dropWhile_append_of_pos hall]⟩
  unfold placeholder?
  split
  · rename_i hnone
    refine iff_of_false (by simp) ?_
    rintro ⟨word, rfl, hword, -⟩
    rw [(hsplit hword).2] at hnone
    cases hnone
  · rename_i c tail hsome
    have hhead := List.head?_dropWhile_not (· != '}') s
    obtain rfl : c = '}' := by simpa [hsome] using hhead
    have hsplits : s = s.takeWhile (· != '}') ++ '}' :: tail := by
      rw [← hsome, List.takeWhile_append_dropWhile]
    have hno : '}' ∉ s.takeWhile (· != '}') := fun hmem => by
      simpa using List.all_eq_true.1 List.all_takeWhile _ hmem
    simp only [Option.bind_eq_bind, Option.bind_eq_some_iff, parseWord?_eq_some_iff,
      Option.ite_none_right_eq_some, Option.some.injEq, Prod.mk.injEq]
    constructor
    · rintro ⟨_, hspells, hlt, rfl, rfl⟩
      exact ⟨_, hsplits, hno, hspells, hlt⟩
    · rintro ⟨word, rfl, hword, hspells, hlt⟩
      rw [(hsplit hword).2] at hsome
      rw [(hsplit hword).1]
      exact ⟨index, hspells, hlt, rfl, (List.tail_eq_of_cons_eq hsome).symm⟩

theorem placeholder?_eq_none_iff {count : Nat} {s : List Char} :
    placeholder? count s = none ↔ ∀ (word rest : List Char) (index : Fin count),
      s = word ++ '}' :: rest → '}' ∉ word → ¬Spells word index := by
  rw [Option.eq_none_iff_forall_ne_some]
  constructor
  · intro hnone word rest index hsplits hword hspells
    exact hnone _ (placeholder?_eq_some_iff.2 ⟨word, hsplits, hword, hspells, index.isLt⟩)
  · rintro hnone ⟨index, rest⟩ hfound
    obtain ⟨word, hsplits, hword, hspells, hlt⟩ := placeholder?_eq_some_iff.1 hfound
    exact hnone word rest ⟨index, hlt⟩ hsplits hword hspells

/-! ### Pieces -/

/-- A piece of a template that is filled with `count` arguments. -/
inductive Piece (count : Nat) where
  | literal (c : Char)
  /-- The place of an argument, and how its number is written. -/
  | place (index : Fin count) (word : List Char)

namespace Piece

variable {count : Nat}

/-- How the piece stands in the template. -/
def written : Piece count → List Char
  | literal c => [c]
  | place _ word => '{' :: (word ++ ['}'])

/-- What the piece is in a message. -/
def filled (arguments : Vector String count) : Piece count → List Char
  | literal c => [c]
  | place index _ => arguments[index].toList

end Piece

/-- How a template is cut into pieces. -/
inductive Cuts {count : Nat} : List Char → List (Piece count) → Prop
  | nil : Cuts [] []
  | plain {c : Char} {s : List Char} {pieces : List (Piece count)} (hc : c ≠ '{')
    (h : Cuts s pieces) : Cuts (c :: s) (.literal c :: pieces)
  | place {word rest : List Char} {index : Fin count} {pieces : List (Piece count)}
    (hword : '}' ∉ word) (hnumber : Spells word index) (h : Cuts rest pieces) :
    Cuts ('{' :: (word ++ '}' :: rest)) (.place index word :: pieces)
  | brace {s : List Char} {pieces : List (Piece count)}
    (hnone : ∀ (word rest : List Char) (index : Fin count), s = word ++ '}' :: rest →
      '}' ∉ word → ¬Spells word index) (h : Cuts s pieces) :
    Cuts ('{' :: s) (.literal '{' :: pieces)

namespace Cuts

variable {count : Nat} {s : List Char} {pieces pieces' : List (Piece count)}

/-- The pieces stand in the template one behind the other. -/
theorem written (h : Cuts s pieces) : pieces.flatMap Piece.written = s := by
  induction h with
  | nil => rfl
  | plain _ _ ih | brace _ _ ih => simp [Piece.written, ih]
  | place _ _ _ ih => simp [Piece.written, ih]

/-- An opening brace opens a place or stays, as what is behind it decides. -/
theorem cases_brace (h : Cuts ('{' :: s) pieces) :
    (∃ word rest, ∃ index : Fin count, ∃ behind, placeholder? count s = some (index.val, rest) ∧
      s = word ++ '}' :: rest ∧ pieces = .place index word :: behind ∧ Cuts rest behind) ∨
    ∃ behind, placeholder? count s = none ∧ pieces = .literal '{' :: behind ∧ Cuts s behind := by
  generalize hs : '{' :: s = t at h
  cases h with
  | nil => cases hs
  | plain hc => exact absurd (List.head_eq_of_cons_eq hs).symm hc
  | @place word rest index behind hword hnumber h =>
    obtain rfl := List.tail_eq_of_cons_eq hs
    refine .inl ⟨word, rest, index, behind, ?_, rfl, rfl, h⟩
    exact placeholder?_eq_some_iff.2 ⟨word, rfl, hword, hnumber, index.isLt⟩
  | @brace _ behind hnone h =>
    obtain rfl := List.tail_eq_of_cons_eq hs
    exact .inr ⟨behind, placeholder?_eq_none_iff.2 hnone, rfl, h⟩

/-- What opens a place and what stays is settled by the template and the number of arguments. -/
theorem unique (h : Cuts s pieces) (h' : Cuts s pieces') : pieces' = pieces := by
  induction h generalizing pieces' with
  | nil =>
    cases h'
    rfl
  | plain hc _ ih =>
    cases h' with
    | plain _ h' => rw [ih h']
    | place | brace => exact absurd rfl hc
  | @place word rest index behind hword hnumber _ ih =>
    have hfound : placeholder? count (word ++ '}' :: rest) = some (index.val, rest) :=
      placeholder?_eq_some_iff.2 ⟨word, rfl, hword, hnumber, index.isLt⟩
    rcases h'.cases_brace with ⟨word', rest', index', behind', hfound', hsplits, rfl, hrest⟩ |
      ⟨_, hnone, -, -⟩
    · obtain ⟨hindex, rfl⟩ := Prod.mk.inj (Option.some.inj (hfound.symm.trans hfound'))
      obtain rfl := Fin.ext hindex
      obtain rfl := List.append_cancel_right hsplits
      rw [ih hrest]
    · rw [hfound] at hnone
      cases hnone
  | brace hnone _ ih =>
    rcases h'.cases_brace with ⟨_, _, _, _, hfound, -⟩ | ⟨behind', -, rfl, hrest⟩
    · rw [placeholder?_eq_none_iff.2 hnone] at hfound
      cases hfound
    · rw [ih hrest]

end Cuts

theorem exists_cuts (count : Nat) : (s : List Char) → ∃ pieces : List (Piece count), Cuts s pieces
  | [] => ⟨[], .nil⟩
  | c :: s => by
    by_cases hc : c = '{'
    · subst hc
      cases hfound : placeholder? count s with
      | some found =>
        have hshorter := length_lt_of_placeholder? hfound
        obtain ⟨behind, h⟩ := exists_cuts count found.2
        obtain ⟨word, rfl, hword, hnumber, hlt⟩ := placeholder?_eq_some_iff.1 hfound
        exact ⟨.place ⟨found.1, hlt⟩ word :: behind, .place hword hnumber h⟩
      | none =>
        obtain ⟨behind, h⟩ := exists_cuts count s
        exact ⟨.literal '{' :: behind, .brace (placeholder?_eq_none_iff.1 hfound) h⟩
    · obtain ⟨behind, h⟩ := exists_cuts count s
      exact ⟨.literal c :: behind, .plain hc h⟩
termination_by s => s.length

/-! ### Messages -/

section Filling

variable {arguments : List String} {s rest : List Char}

theorem formatChars_plain {c : Char} (hc : c ≠ '{') :
    formatChars arguments (c :: s) = c :: formatChars arguments s := by
  rw [formatChars, if_neg (by simpa using hc)]

theorem formatChars_place {index : Nat}
    (h : placeholder? arguments.length s = some (index, rest)) :
    formatChars arguments ('{' :: s) =
      (arguments.getD index "").toList ++ formatChars arguments rest := by
  rw [formatChars, if_pos (by simp)]
  split
  · rename_i hfound
    cases h.symm.trans hfound
    rfl
  · rename_i hnone
    cases h.symm.trans hnone

theorem formatChars_brace (h : placeholder? arguments.length s = none) :
    formatChars arguments ('{' :: s) = '{' :: formatChars arguments s := by
  rw [formatChars, if_pos (by simp)]
  split
  · rename_i hfound
    cases h.symm.trans hfound
  · rfl

end Filling

/-- A message is what is in the pieces. The arguments are not looked at before that. -/
theorem Cuts.formatChars {count : Nat} {s : List Char} {pieces : List (Piece count)}
    (h : Cuts s pieces) (arguments : Vector String count) :
    formatChars arguments.toList s = pieces.flatMap (Piece.filled arguments) := by
  have hcount : arguments.toList.length = count := Vector.length_toList
  induction h with
  | nil => simp [Text.formatChars]
  | plain hc _ ih => simp [formatChars_plain hc, Piece.filled, ih]
  | @place word rest index _ hword hnumber _ ih =>
    have hfound : placeholder? arguments.toList.length (word ++ '}' :: rest) =
        some (index.val, rest) :=
      placeholder?_eq_some_iff.2 ⟨word, rfl, hword, hnumber, by simp⟩
    rw [formatChars_place hfound, ih]
    simp [Piece.filled]
  | @brace s _ hnone _ ih =>
    have hstays : placeholder? arguments.toList.length s = none := by
      rw [hcount]
      exact placeholder?_eq_none_iff.2 hnone
    rw [formatChars_brace hstays, ih]
    simp [Piece.filled]

/-- For each number of arguments a template is cut into pieces in exactly one way. The pieces spell
the template, and whatever the arguments are, the message is the pieces in their order, each place
filled with its argument as it is. -/
theorem formatMessage_fills_pieces (template : String) (count : Nat) :
    ∃ pieces : List (Piece count), Cuts template.toList pieces ∧
      (∀ pieces' : List (Piece count), Cuts template.toList pieces' → pieces' = pieces) ∧
      String.ofList (pieces.flatMap Piece.written) = template ∧
      ∀ arguments : Vector String count, formatMessage template arguments.toList =
        String.ofList (pieces.flatMap (Piece.filled arguments)) := by
  obtain ⟨pieces, h⟩ := exists_cuts count template.toList
  refine ⟨pieces, h, fun _ h' => h.unique h', ?_, fun arguments => ?_⟩
  · rw [h.written, String.ofList_toList]
  · rw [formatMessage, h.formatChars]

/-- A place in an argument stays as it is, and so do one without an argument and a brace alone. -/
example : formatMessage "\x7b0\x7d \x7b1\x7d\x7b2\x7d\x7b" ["\x7b1\x7d", "\x7d"] =
    "\x7b1\x7d \x7d\x7b2\x7d\x7b" := by cbv

end PluginLint.Text
