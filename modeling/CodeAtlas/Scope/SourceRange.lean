import CodeAtlas.Source.Bytes

/-!
# Ranges of text

A range of a source: where it starts and stops, in bytes and as row and column.  Ranges are
compared either by bytes or by rows; the last row belongs to a range.

Names in the program: `TextRange` for `SourceRange`; `contains` for `containsBytes`,
`contains_line` for `containsRows`, or `touchesRows` if an overlap is enough.
-/

namespace CodeAtlas

/-- A range of a source.  The numbers are taken as they are given: a range may stop before it
starts. -/
structure SourceRange where
  start : Int
  stop : Int
  startRow : Int
  startColumn : Int
  stopRow : Int
  stopColumn : Int
  deriving Repr, DecidableEq, Inhabited

namespace SourceRange

/-- The range from one byte offset of a source up to another. -/
def between (source : ByteArray) (start stop : Int) : SourceRange :=
  let a := Source.pointAt source start.toNat
  let b := Source.pointAt source stop.toNat
  ⟨start, stop, a.row, a.column, b.row, b.column⟩

/-- The range that covers the rows from `first` to `last`, with no bytes known. -/
def ofRows (first last : Int) : SourceRange :=
  ⟨0, 0, first, 0, last, 0⟩

/-- Does the range hold the bytes of another?  An offset of zero at the start of the inner or at
the end of the outer range counts as unknown. -/
def containsBytes (outer inner : SourceRange) : Outcome Bool :=
  if inner.start = 0 || outer.stop = 0 then .error .byteRangeUnset
  else .ok (outer.start ≤ inner.start && inner.stop ≤ outer.stop)

/-- Does the range hold the rows of another? -/
def containsRows (outer inner : SourceRange) : Bool :=
  outer.startRow ≤ inner.startRow && inner.stopRow ≤ outer.stopRow

/-- Does the range hold the first or the last row of another? -/
def touchesRows (outer inner : SourceRange) : Bool :=
  (outer.startRow ≤ inner.startRow && inner.startRow ≤ outer.stopRow)
    || (inner.stopRow ≤ outer.stopRow && outer.startRow ≤ inner.stopRow)

/-- The text of the range. -/
def text (range : SourceRange) (source : ByteArray) : Outcome String :=
  Source.cut source range.start range.stop

end SourceRange

end CodeAtlas
