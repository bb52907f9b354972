import CodeAtlas.Failure

/-!
# Source bytes

A source is a row of bytes.  Positions in it are byte offsets; a point is a row and a column.
Cuts take signed offsets: a negative one counts from the end, one beyond an end is moved there.
-/

namespace CodeAtlas

/-- A place in a source: the number of line feeds before it, and of bytes since the last one. -/
structure Point where
  row : Nat
  column : Nat
  deriving Repr, DecidableEq, Inhabited

namespace Source

/-- The offset in a source of `size` bytes that a signed offset stands for. -/
def clamp (size : Nat) (offset : Int) : Nat :=
  if offset < 0 then (offset + size).toNat else min offset.toNat size

/-- The bytes from one offset up to another. -/
def slice (source : ByteArray) (start stop : Int) : ByteArray :=
  source.extract (clamp source.size start) (clamp source.size stop)

/-- The text that bytes stand for. -/
def decode (bytes : ByteArray) : Outcome String :=
  match String.fromUTF8? bytes with
  | some s => .ok (Text.ofChars s.toList)
  | none => .error .notUtf8

/-- The bytes that a text stands for.  A surrogate by itself has none. -/
def encode (s : String) : Outcome ByteArray :=
  match Text.surrogateRun? s with
  | none => .ok ⟨(Text.bytes s).toArray⟩
  | some (place, code, more) => .error (.notEncodable place code more)

/-- The text from one offset up to another. -/
def cut (source : ByteArray) (start stop : Int) : Outcome String :=
  decode (slice source start stop)

/-- The line feeds in a row of bytes, and how many bytes there are up to and with the last. -/
def lineFeeds (bytes : List UInt8) : Nat × Nat :=
  let rec go (rows lineStart offset : Nat) : List UInt8 → Nat × Nat
    | [] => (rows, lineStart)
    | b :: bs =>
      if b = 10 then go (rows + 1) (offset + 1) (offset + 1) bs
      else go rows lineStart (offset + 1) bs
  go 0 0 0 bytes

/-- The point at an offset. -/
def pointAt (source : ByteArray) (offset : Nat) : Point :=
  let (row, lineStart) := lineFeeds (source.extract 0 offset).toList
  ⟨row, offset - lineStart⟩

end Source

end CodeAtlas
