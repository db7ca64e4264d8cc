import PluginLint.Text.Total

/-!
# Text measured in bytes

Offsets into a text count the bytes of its UTF-8 form. A cut is possible only between characters.
-/
namespace PluginLint.Text

/-- The number of bytes of a list of characters. -/
def byteLength (s : List Char) : Nat := total Char.utf8Size s

@[simp] theorem byteLength_nil : byteLength [] = 0 := rfl

@[simp] theorem byteLength_cons (c : Char) (s : List Char) :
    byteLength (c :: s) = c.utf8Size + byteLength s := rfl

@[simp] theorem byteLength_append (s t : List Char) :
    byteLength (s ++ t) = byteLength s + byteLength t := by
  simp [byteLength]

/-- The text after its first `n` bytes, unless that is inside a character or past the end. -/
def dropBytes? : Nat → List Char → Option (List Char)
  | 0, s => some s
  | _ + 1, [] => none
  | n + 1, c :: s => if c.utf8Size ≤ n + 1 then dropBytes? (n + 1 - c.utf8Size) s else none
termination_by _ s => s.length

/-- The first `n` bytes of a text, unless that is inside a character or past the end. -/
def takeBytes? : Nat → List Char → Option (List Char)
  | 0, _ => some []
  | _ + 1, [] => none
  | n + 1, c :: s =>
    if c.utf8Size ≤ n + 1 then (takeBytes? (n + 1 - c.utf8Size) s).map (c :: ·) else none
termination_by _ s => s.length

/-- A cut further on is a cut in what is behind the first characters. -/
theorem dropBytes?_append_add (s t : List Char) (n : Nat) :
    dropBytes? (byteLength s + n) (s ++ t) = dropBytes? n t := by
  induction s with
  | nil => simp
  | cons c s ih =>
    have hc := c.utf8Size_pos
    obtain ⟨k, hk⟩ : ∃ k, byteLength (c :: s) + n = k + 1 :=
      ⟨byteLength (c :: s) + n - 1, by simp; omega⟩
    rw [hk, List.cons_append, dropBytes?]
    simp only [byteLength_cons] at hk
    rw [if_pos (by omega), show k + 1 - c.utf8Size = byteLength s + n by omega, ih]

theorem takeBytes?_append_add (s t : List Char) (n : Nat) :
    takeBytes? (byteLength s + n) (s ++ t) = (takeBytes? n t).map (s ++ ·) := by
  induction s with
  | nil => simp
  | cons c s ih =>
    have hc := c.utf8Size_pos
    obtain ⟨k, hk⟩ : ∃ k, byteLength (c :: s) + n = k + 1 :=
      ⟨byteLength (c :: s) + n - 1, by simp; omega⟩
    rw [hk, List.cons_append, takeBytes?]
    simp only [byteLength_cons] at hk
    rw [if_pos (by omega), show k + 1 - c.utf8Size = byteLength s + n by omega, ih]
    simp [Function.comp_def]

/-- A cut behind whole characters is possible. -/
theorem dropBytes?_append (s t : List Char) : dropBytes? (byteLength s) (s ++ t) = some t := by
  rw [← Nat.add_zero (byteLength s), dropBytes?_append_add, dropBytes?]

/-- The first bytes of a text are its first characters. -/
theorem takeBytes?_append (s t : List Char) : takeBytes? (byteLength s) (s ++ t) = some s := by
  rw [← Nat.add_zero (byteLength s), takeBytes?_append_add, takeBytes?, Option.map_some,
    List.append_nil]

/-- The bytes from `start` up to `stop`, if both lie between characters. -/
def slice? (s : String) (start stop : Nat) : Option String := do
  if stop < start then none
  let rest ← dropBytes? start s.toList
  let part ← takeBytes? (stop - start) rest
  return String.ofList part

/-- The bytes between two texts are the text between them. -/
theorem slice?_append (s t u : List Char) :
    slice? (String.ofList (s ++ t ++ u)) (byteLength s) (byteLength s + byteLength t) =
      some (String.ofList t) := by
  simp [slice?, List.append_assoc, dropBytes?_append, takeBytes?_append]

/-- Offsets and lengths are words of 64 bits. -/
def wordLimit : Nat := 0x10000000000000000

end PluginLint.Text
