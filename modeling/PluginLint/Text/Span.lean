import PluginLint.Text.Bytes

/-!
# Spans of text

A span runs from its start up to, and not including, its stop.
-/
namespace PluginLint

/-- A range of bytes of a file. -/
structure Span where
  start : Nat
  stop : Nat
  deriving DecidableEq, Repr, Inhabited

namespace Span

/-- The span of `length` bytes at `start`. -/
def ofLength (start length : Nat) : Span := ⟨start, start + length⟩

/-- The same, for offsets that are words: there is none if the end is out of range. -/
def ofLength? (start length : Nat) : Option Span :=
  if start + length < Text.wordLimit then some (ofLength start length) else none

/-- A span that stops before it starts has no length. -/
def length (s : Span) : Nat := s.stop - s.start

def isEmpty (s : Span) : Bool := s.length == 0

/-- All of `t` lies in `s`. -/
def contains (s t : Span) : Bool := s.start ≤ t.start && t.stop ≤ s.stop

/-- The two share at least one byte. -/
def overlaps (s t : Span) : Bool := s.start < t.stop && t.start < s.stop

/-- Spans are ordered by start, then by stop. -/
def compare (s t : Span) : Ordering :=
  (Ord.compare s.start t.start).then (Ord.compare s.stop t.stop)

instance : Ord Span := ⟨compare⟩

def render (s : Span) : String := s!"{s.start}..{s.stop}"

@[simp] theorem length_ofLength (start n : Nat) : (ofLength start n).length = n := by
  simp [ofLength, length]

end Span

end PluginLint
