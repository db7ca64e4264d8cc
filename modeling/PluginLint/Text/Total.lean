/-!
# Totals
-/
namespace PluginLint

/-- The total of a measure over a list. -/
def total (measure : α → Nat) : List α → Nat
  | [] => 0
  | a :: rest => measure a + total measure rest

@[simp] theorem total_nil (measure : α → Nat) : total measure [] = 0 := rfl

@[simp] theorem total_cons (measure : α → Nat) (a : α) (rest : List α) :
    total measure (a :: rest) = measure a + total measure rest := rfl

@[simp] theorem total_append (measure : α → Nat) (s t : List α) :
    total measure (s ++ t) = total measure s + total measure t := by
  induction s with
  | nil => simp
  | cons a s ih => simp [ih, Nat.add_assoc]

end PluginLint
