/-!
# Character classes as tables of ranges

A class of characters given by the inclusive ranges of its code points, in increasing order.
-/

namespace CodeAtlas.Text

/-- Is the code point in one of the inclusive ranges? -/
def inRanges (table : List (Nat × Nat)) (code : Nat) : Bool :=
  table.any fun (low, high) => low ≤ code && code ≤ high

end CodeAtlas.Text
