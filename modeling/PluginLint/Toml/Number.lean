import PluginLint.Toml.Quoted
import PluginLint.Toml.Value

/-!
# Numbers and dates

Whole numbers are words of 64 bits with a sign, in base ten, sixteen, eight or two. An underscore may
stand between two digits. Fractions are numbers of double precision, and a positive one must not be
too large for that.
-/
namespace PluginLint.Toml

open Reader

/-- More digits, each with an underscore in front of it or not. -/
def moreDigits (fits : Char → Bool) : Reader (List Char) :=
  many do
    let _ ← skip? ['_']
    satisfy fits

/-- One digit or more. -/
def digits (fits : Char → Bool) : Reader (List Char) := do
  return (← satisfy fits) :: (← moreDigits fits)

/-- Digits that do not begin with a zero, or a zero. -/
def wholeDigits : Reader (List Char) := do
  if ← skip? ['0'] then return ['0'] else digits Char.isDigit

/-- A sign; true for minus. -/
def sign : Reader Bool := do
  if ← skip? ['-'] then return true
  let _ ← skip? ['+']
  return false

/-- A whole number in the range of a word. -/
def wordOf (negative : Bool) (n : Nat) : Option Int :=
  if negative then if n ≤ 0x8000000000000000 then some (-n) else none
  else if n < 0x8000000000000000 then some n else none

def integer : Reader Int := do
  if ← skip? ['0', 'x'] then
    wordOf false (digitsValue 16 (← digits isHexDigit))
  else if ← skip? ['0', 'o'] then
    wordOf false (digitsValue 8 (← digits fun c => '0' ≤ c && c ≤ '7'))
  else if ← skip? ['0', 'b'] then
    wordOf false (digitsValue 2 (← digits fun c => c == '0' || c == '1'))
  else
    let negative ← sign
    wordOf negative (digitsValue 10 (← wholeDigits))

/-- The least number that is rounded to infinity in double precision. -/
def roundsToInfinity : Nat := Nat.pow 2 1024 - Nat.pow 2 970

/-- The number `n * 10 ^ exponent` is too large. Its number of digits decides, except where it is
close to the bound. -/
def overflows (n : Nat) (exponent : Int) : Bool :=
  let size := ((Nat.toDigits 10 n).length : Int) + exponent
  if n == 0 || size < 300 then false
  else if 320 < size then true
  else if 0 ≤ exponent then roundsToInfinity ≤ n * Nat.pow 10 exponent.toNat
  else roundsToInfinity * Nat.pow 10 (-exponent).toNat ≤ n

/-- The power of ten of a fraction. -/
def exponent : Reader Int := do
  let _ ← satisfy fun c => c == 'e' || c == 'E'
  let negative ← sign
  let n := digitsValue 10 (← digits Char.isDigit)
  return if negative then -n else n

/-- A number with a point or a power of ten. -/
def fraction : Reader Unit := do
  let negative ← sign
  let whole ← wholeDigits
  let behind ←
    if ← skip? ['.'] then digits Char.isDigit
    else
      guard ((← peek?).any fun c => c == 'e' || c == 'E')
      pure []
  let power ←
    if (← peek?).any fun c => c == 'e' || c == 'E' then exponent else pure 0
  guard (negative || !overflows (digitsValue 10 (whole ++ behind)) (power - behind.length))

/-- Infinity, or not a number. -/
def noNumber : Reader Unit := do
  let _ ← sign
  if ← skip? ['i', 'n', 'f'] then pure () else word ['n', 'a', 'n']

/-- A number of `n` digits in a range. -/
def field (n low high : Nat) : Reader Nat := do
  let value := digitsValue 10 (← takeExactly n Char.isDigit)
  guard (low ≤ value && value ≤ high)
  return value

def isLeapYear (year : Nat) : Bool := year % 4 == 0 && (year % 100 != 0 || year % 400 == 0)

def daysInMonth (year month : Nat) : Nat :=
  if month == 2 then if isLeapYear year then 29 else 28
  else if month ∈ [4, 6, 9, 11] then 30
  else 31

/-- A day of the calendar. -/
def day : Reader Unit := do
  let year ← field 4 0 9999
  char '-'
  let month ← field 2 1 12
  char '-'
  let _ ← field 2 1 (daysInMonth year month)

/-- A time of the day; a leap second is possible. -/
def time : Reader Unit := do
  let _ ← field 2 0 23
  char ':'
  let _ ← field 2 0 59
  char ':'
  let _ ← field 2 0 60
  if ← skip? ['.'] then
    let _ ← satisfy Char.isDigit
    let _ ← takeWhile Char.isDigit

/-- The distance from universal time. -/
def zone : Reader Unit := do
  let c ← satisfy fun c => c ∈ ['Z', 'z', '+', '-']
  if c == '+' || c == '-' then
    let _ ← field 2 0 23
    char ':'
    let _ ← field 2 0 59

/-- A day, a time, or both. -/
def date : Reader Unit := do
  if (← optional? day).isSome then
    let _ ← optional? do
      let _ ← satisfy fun c => c == 'T' || c == 't' || c == ' '
      time
      let _ ← optional? zone
  else
    time

/-- The text that a reader takes. -/
def taken (item : Reader Unit) : Reader String := fun s =>
  (item s).map fun (_, rest) => (.ofList (s.take (s.length - rest.length)), rest)

/-- A date or a number. -/
def number : Reader Value := do
  if let some s ← optional? (taken date) then return .date s
  if let some s ← optional? (taken fraction) then return .fraction s
  if let some s ← optional? (taken noNumber) then return .fraction s
  return .integer (← integer)

end PluginLint.Toml
