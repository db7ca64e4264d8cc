import PluginLint.Text.Range

/-!
# White space

The white space characters, and text with them removed at one end or both.
-/
namespace PluginLint.Text

/-- Ranges of white space. -/
def blankRanges : List (Nat × Nat) :=
  [(0x9, 0xD), (0x20, 0x20), (0x85, 0x85), (0xA0, 0xA0), (0x1680, 0x1680), (0x2000, 0x200A),
   (0x2028, 0x2029), (0x202F, 0x202F), (0x205F, 0x205F), (0x3000, 0x3000)]

/-- A white space character. -/
def isBlank (c : Char) : Bool := inRanges blankRanges c

/-- The text after its leading white space. -/
def dropBlank (s : List Char) : List Char := s.dropWhile isBlank

/-- The text between its leading and its trailing white space. -/
def trimBlank (s : List Char) : List Char :=
  ((dropBlank s).reverse.dropWhile isBlank).reverse

/-- A string without the white space at its two ends. -/
def trim (s : String) : String := String.ofList (trimBlank s.toList)

end PluginLint.Text
