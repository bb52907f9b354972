/-!
# Tallies

Sums of counts over a list.  The tally of two lists in a row is the sum of their tallies.
-/

namespace CodeAtlas

variable {α : Type}

/-- The sum of the counts of the members of a list. -/
def tally (count : α → Int) : List α → Int
  | [] => 0
  | a :: rest => count a + tally count rest

theorem tally_append (count : α → Int) (xs ys : List α) :
    tally count (xs ++ ys) = tally count xs + tally count ys := by
  induction xs with
  | nil => simp [tally]
  | cons x xs ih => simp only [List.cons_append, tally, ih]; omega

theorem tally_nonneg {count : α → Int} {xs : List α} (h : ∀ x ∈ xs, 0 ≤ count x) :
    0 ≤ tally count xs := by
  induction xs with
  | nil => exact Int.le_refl 0
  | cons x xs ih =>
    have hx := h x List.mem_cons_self
    have hxs := ih fun y hy => h y (List.mem_cons_of_mem _ hy)
    show 0 ≤ count x + tally count xs
    omega

end CodeAtlas
