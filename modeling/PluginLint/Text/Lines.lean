/-!
# Lines and columns

Lines end with a line feed. Lines and columns count from one; a column counts characters, except
that an offset inside a character counts bytes.
-/
namespace PluginLint.Text

/-- The number of lines. -/
def lineCount (s : List Char) : Nat := s.count '\n' + 1

/-- Walks to an offset that is `left` bytes ahead. `chars` and `bytes` measure the part of the
current line that lies behind. -/
def lineColFrom (line chars bytes : Nat) : Nat → List Char → Nat × Nat
  | _, [] => (line, chars + 1)
  | left, c :: s =>
    if left = 0 then (line, chars + 1)
    else if left < c.utf8Size then (line, bytes + left + 1)
    else if c = '\n' then lineColFrom (line + 1) 0 0 (left - c.utf8Size) s
    else lineColFrom line (chars + 1) (bytes + c.utf8Size) (left - c.utf8Size) s

/-- The line and column of an offset. An offset past the end counts as the end. -/
def lineCol (s : List Char) (offset : Nat) : Nat × Nat := lineColFrom 1 0 0 offset s

@[simp] theorem lineCol_zero (s : List Char) : lineCol s 0 = (1, 1) := by
  cases s <;> simp [lineCol, lineColFrom]

end PluginLint.Text
