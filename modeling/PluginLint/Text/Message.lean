import PluginLint.Text.Bytes

/-!
# Messages with arguments

A template holds places such as `{0}` for arguments. A place without an argument stays as written,
and arguments are never looked into.
-/
namespace PluginLint.Text

/-- The value of a run of decimal digits. -/
def digitsValue? (s : List Char) : Option Nat :=
  if s.isEmpty || !s.all Char.isDigit then none
  else some (s.foldl (fun n c => 10 * n + (c.toNat - '0'.toNat)) 0)

/-- A word: decimal digits, with or without a plus sign in front. -/
def parseWord? (s : List Char) : Option Nat := do
  let n ← match s with
    | '+' :: rest => digitsValue? rest
    | _ => digitsValue? s
  if n < wordLimit then some n else none

/-- The number of a place, and the text behind it; the opening brace is behind already. -/
def placeholder? (count : Nat) (s : List Char) : Option (Nat × List Char) :=
  match s.dropWhile (· != '}') with
  | [] => none
  | _ :: rest => do
    let i ← parseWord? (s.takeWhile (· != '}'))
    if i < count then some (i, rest) else none

theorem length_lt_of_placeholder? {count i : Nat} {s rest : List Char}
    (h : placeholder? count s = some (i, rest)) : rest.length < s.length := by
  unfold placeholder? at h
  split at h
  · cases h
  · rename_i c r hd
    have hle : (s.dropWhile (· != '}')).length ≤ s.length :=
      (List.dropWhile_sublist _).length_le
    rw [hd, List.length_cons] at hle
    cases hp : parseWord? (s.takeWhile (· != '}')) with
    | none => simp [hp] at h
    | some j =>
      simp only [hp, Option.bind_eq_bind, Option.bind_some] at h
      split at h
      · simp only [Option.some.injEq, Prod.mk.injEq] at h
        rw [← h.2]
        omega
      · cases h

/-- The template with its arguments. -/
def formatChars (arguments : List String) : List Char → List Char
  | [] => []
  | c :: s =>
    if c == '{' then
      match _h : placeholder? arguments.length s with
      | some (i, rest) => (arguments.getD i "").toList ++ formatChars arguments rest
      | none => c :: formatChars arguments s
    else c :: formatChars arguments s
termination_by s => s.length
decreasing_by
  · have := length_lt_of_placeholder? _h
    simp only [List.length_cons]
    omega
  · simp
  · simp

/-- The template with its arguments. -/
def formatMessage (template : String) (arguments : List String) : String :=
  String.ofList (formatChars arguments template.toList)

end PluginLint.Text
