/-!
# Reading a text from left to right

A reader takes characters from the front of a text, or fails. Repetition is bounded by the length of
what is left, since every round takes at least one character.
-/
namespace PluginLint.Toml

/-- Takes a value from the front of a text, or fails. -/
abbrev Reader := StateT (List Char) Option

namespace Reader

/-- The next character stays. -/
def peek? : Reader (Option Char) := fun s => some (s.head?, s)

/-- The text that is left stays. -/
def ahead : Reader (List Char) := fun s => some (s, s)

/-- Takes the characters that fit, up to the first that does not. -/
def takeWhile (fits : Char → Bool) : Reader (List Char) := fun s =>
  some (s.takeWhile fits, s.dropWhile fits)

/-- Takes exactly `n` characters that all fit. -/
def takeExactly (n : Nat) (fits : Char → Bool) : Reader (List Char) := fun s =>
  let front := s.take n
  if front.length == n && front.all fits then some (front, s.drop n) else none

/-- Takes one character that fits. -/
def satisfy (fits : Char → Bool) : Reader Char
  | c :: s => if fits c then some (c, s) else none
  | [] => none

/-- Takes a given character. -/
def char (c : Char) : Reader Unit := do
  let _ ← satisfy (· == c)

/-- Takes a word if it is next, and says whether it was. -/
def skip? (word : List Char) : Reader Bool := fun s =>
  if word.isPrefixOf s then some (true, s.drop word.length) else some (false, s)

/-- Takes a given word. -/
def word (w : List Char) : Reader Unit := do
  guard (← skip? w)

/-- At most `n` rounds of a reader, until it fails. -/
def upTo : Nat → Reader α → Reader (List α)
  | 0, _ => pure []
  | n + 1, item => fun s =>
    match item s with
    | none => some ([], s)
    | some (a, rest) => (do return a :: (← upTo n item)) rest

/-- Rounds of a reader until it fails. -/
def many (item : Reader α) : Reader (List α) := fun s => upTo s.length item s

/-- A value, if there is one. -/
def optional? (item : Reader α) : Reader (Option α) := fun s =>
  match item s with
  | none => some (none, s)
  | some (a, rest) => some (some a, rest)

/-- The end of the text. -/
def finish : Reader Unit := fun s => if s.isEmpty then some ((), s) else none

/-- What a reader makes of a whole text. -/
def run? (item : Reader α) (s : List Char) : Option α :=
  (do let a ← item; finish; return a : Reader α) s |>.map Prod.fst

@[simp] theorem peek?_apply (s : List Char) : peek? s = some (s.head?, s) := rfl

@[simp] theorem upTo_zero (item : Reader α) (s : List Char) : upTo 0 item s = some ([], s) := rfl

end Reader

end PluginLint.Toml
