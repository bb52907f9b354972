import CodeAtlas.Scope.SourceRange

/-!
# Intervals of rows

Scopes are found by the rows that they span.  The rows of a range make a half-open interval from
its first to its last row; a range within one row is widened by a tenth of a row, since the
interval would be empty otherwise.  The widened end is a floating-point number, kept to 53 binary
digits, so that in the far rows beyond `2 ^ 50` a tenth of a row is lost.

Everything is counted in grains, of which a row has `2 ^ 56`: on this scale all ends are whole
numbers, and comparisons are exact.

Names in the program: `IntervalGraph` for `RowStore`; `add_scope` for `add`, `contains` for
`enclosing?`, or `overlapping?` if an overlap is enough, `all_intervals` for `sortedBy`.
-/

namespace CodeAtlas

/-! ## §1. Rounding. -/

/-- The multiple of `unit` that is nearest to `n`; of two that are equally near, the even one. -/
def roundToMultiple (unit : Nat) (n : Int) : Int :=
  let quotient := n / unit
  let rest := n % unit
  if 2 * rest < unit then unit * quotient
  else if unit < 2 * rest then unit * (quotient + 1)
  else unit * (quotient + quotient % 2)

/-- A number kept to 53 binary digits. -/
def keepDigits (n : Int) : Int :=
  roundToMultiple (Nat.pow 2 (n.natAbs.log2 + 1 - 53)) n

/-! ## §2. Spans of rows. -/

/-- The rows from `first` to `last`. -/
structure RowSpan where
  first : Int
  last : Int
  deriving Repr, DecidableEq, Inhabited

/-- The rows of a range. -/
def SourceRange.rows (range : SourceRange) : RowSpan :=
  ⟨range.startRow, range.stopRow⟩

namespace RowSpan

/-- The number of grains in a row. -/
def grains : Nat := Nat.pow 2 56

/-- A tenth of a row, as nearly as 53 binary digits allow. -/
def tenth : Int := 7205759403792794

/-- The end of a span within one row. -/
def widenedEnd (row : Int) : Int :=
  keepDigits (keepDigits (row * grains) + tenth)

/-- Where the interval begins. -/
def low (s : RowSpan) : Int :=
  s.first * grains

/-- Where the interval ends. -/
def high (s : RowSpan) : Int :=
  if s.first = s.last then widenedEnd s.first else s.last * grains

/-- Is there nothing in the interval? -/
def isEmpty (s : RowSpan) : Bool :=
  s.high ≤ s.low

/-- The length of the interval, as it is measured: a widened one is measured in floating point. -/
def length (s : RowSpan) : Int :=
  if s.first = s.last then keepDigits (s.high - keepDigits s.low) else s.high - s.low

/-- Does the interval hold all of another? -/
def encloses (s t : RowSpan) : Bool :=
  s.low ≤ t.low && t.high ≤ s.high

/-- Do the intervals have a point in common? -/
def overlaps (s t : RowSpan) : Bool :=
  s.low < t.high && t.low < s.high

/-- A span can be measured unless it lies within one row that floating point cannot reach. -/
def isMeasurable (s : RowSpan) : Bool :=
  s.first ≠ s.last || (keepDigits s.first).natAbs < Nat.pow 2 1024

/-- Fails if the span cannot be measured. -/
def measure (s : RowSpan) : Outcome Unit :=
  if s.isMeasurable then .ok () else .error .numberTooLarge

end RowSpan

/-! ## §3. Stores of ranges. -/

/-- Ranges with what they stand for, in the order in which they came. -/
abbrev RowStore (α : Type) := List (SourceRange × α)

namespace RowStore

variable {α : Type}

/-- Adds a range; its rows must not be empty. -/
def add (store : RowStore α) (range : SourceRange) (value : α) : Outcome (RowStore α) := do
  range.rows.measure
  if range.rows.isEmpty then .error .emptyInterval else .ok (store ++ [(range, value)])

/-- The first of the shortest entries.  Which one of several is found is not laid down: they come out
of a set, and any of them would do as well.  What is proved of this choice holds of any other, as it
only says that no entry is shorter. -/
def shortest : List (SourceRange × α) → Option (SourceRange × α)
  | [] => none
  | e :: rest =>
    match shortest rest with
    | none => some e
    | some f => if f.1.rows.length < e.1.rows.length then some f else some e

/-- What the shortest range around the given one stands for. -/
def enclosing? (store : RowStore α) (range : SourceRange) : Option α :=
  if range.rows.isEmpty then none
  else (shortest (store.filter fun e => e.1.rows.encloses range.rows)).map (·.2)

/-- What the shortest range that shares rows with the given one stands for. -/
def overlapping? (store : RowStore α) (range : SourceRange) : Option α :=
  if range.rows.isEmpty then none
  else (shortest (store.filter fun e => e.1.rows.overlaps range.rows)).map (·.2)

/-- The entries by first row, last row and what they stand for. -/
def sortedBy (store : RowStore α) (le : α → α → Bool) : List (SourceRange × α) :=
  store.mergeSort fun a b =>
    if a.1.startRow ≠ b.1.startRow then a.1.startRow < b.1.startRow
    else if a.1.stopRow ≠ b.1.stopRow then a.1.stopRow < b.1.stopRow
    else le a.2 b.2

/-- What two entries with the same rows stand for must have an order, whichever two they are. -/
def checkOrder (store : RowStore α) (check : α → α → Outcome Unit) : Outcome Unit :=
  store.zipIdx.forM fun (b, i) =>
    (store.take i).forM fun a =>
      if a.1.startRow = b.1.startRow && a.1.stopRow = b.1.stopRow then check b.2 a.2 else .ok ()

end RowStore

end CodeAtlas
