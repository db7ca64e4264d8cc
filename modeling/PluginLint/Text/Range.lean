/-!
# Classes of characters given by ranges

A class of characters is a list of closed ranges of code points.
-/
namespace PluginLint.Text

/-- The code point of `c` lies in one of the closed ranges. -/
def inRanges (ranges : List (Nat × Nat)) (c : Char) : Bool :=
  ranges.any fun (lo, hi) => lo ≤ c.toNat && c.toNat ≤ hi

@[simp] theorem inRanges_nil (c : Char) : inRanges [] c = false := rfl

@[simp] theorem inRanges_cons (lo hi : Nat) (ranges : List (Nat × Nat)) (c : Char) :
    inRanges ((lo, hi) :: ranges) c =
      ((decide (lo ≤ c.toNat) && decide (c.toNat ≤ hi)) || inRanges ranges c) := rfl

end PluginLint.Text
