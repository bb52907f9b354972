/-!
# Text

Plain functions on text that the rest of the library shares: cutting at a character, joining,
searching and trimming.  Each of them works on the list of characters, so that its laws follow
from those of `List`.
-/

namespace CodeAtlas.Text

/-! ## §1. Cutting and joining. -/

/-- Cuts a text at every occurrence of the character `sep`; there is always at least one piece. -/
def split (sep : Char) (s : String) : List String :=
  (s.toList.splitOn sep).map String.ofList

/-- The lines of a text, without their line feeds. -/
def lines (s : String) : List String :=
  split '\n' s

/-- The pieces in a row, with `sep` between each two. -/
def join (sep : String) (pieces : List String) : String :=
  sep.intercalate pieces

/-- `n` copies of a text in a row, none if `n` is negative. -/
def replicate (n : Int) (s : String) : String :=
  String.join (List.replicate n.toNat s)

/-- Pads with spaces on the right up to width `n`. -/
def padRight (n : Nat) (s : String) : String :=
  s ++ String.ofList (List.replicate (n - s.length) ' ')

/-! ## §2. Searching. -/

/-- Does the text begin with `start`? -/
def beginsWith (start s : String) : Bool :=
  start.toList.isPrefixOf s.toList

/-- Does the text end with `ending`? -/
def endsWith (ending s : String) : Bool :=
  ending.toList.isSuffixOf s.toList

/-- Does `needle` occur in the list of characters, as a block? -/
def occursIn (needle : List Char) : List Char → Bool
  | [] => needle.isEmpty
  | c :: cs => needle.isPrefixOf (c :: cs) || occursIn needle cs

/-- Does the text hold `needle`, as a block? -/
def contains (needle s : String) : Bool :=
  occursIn needle.toList s.toList

/-- Cuts a list at the first occurrence of the block `sep`, which is dropped. -/
def cutAt (sep : List Char) : List Char → Option (List Char × List Char)
  | [] => if sep.isEmpty then some ([], []) else none
  | c :: cs =>
    if sep.isPrefixOf (c :: cs) then some ([], (c :: cs).drop sep.length)
    else (cutAt sep cs).map fun (before, after) => (c :: before, after)

/-- Cuts a list at the last occurrence of the block `sep`, which is dropped. -/
def cutAtLast (sep : List Char) : List Char → Option (List Char × List Char)
  | [] => if sep.isEmpty then some ([], []) else none
  | c :: cs =>
    match cutAtLast sep cs with
    | some (before, after) => some (c :: before, after)
    | none => if sep.isPrefixOf (c :: cs) then some ([], (c :: cs).drop sep.length) else none

/-! ## §3. Changing characters. -/

/-- Removes the block `sep` wherever it occurs, from left to right; `skip` characters of an
occurrence are still to be dropped. -/
def without (sep : List Char) : Nat → List Char → List Char
  | _, [] => []
  | skip + 1, _ :: cs => without sep skip cs
  | 0, c :: cs =>
    if sep.isPrefixOf (c :: cs) then without sep (sep.length - 1) cs else c :: without sep 0 cs

/-- Removes the characters in class `p` from both ends. -/
def trimBoth (p : Char → Bool) (s : String) : String :=
  String.ofList (((s.toList.dropWhile p).reverse.dropWhile p).reverse)

/-- Puts `new` in the place of every character `old`. -/
def substitute (old : Char) (new : String) (s : String) : String :=
  String.join (s.toList.map fun c => if c = old then new else String.singleton c)

/-- Puts one `mark` in the place of each longest run of characters in class `p`. -/
def collapse (p : Char → Bool) (mark : Char) : Bool → List Char → List Char
  | _, [] => []
  | inRun, c :: cs =>
    if p c then
      if inRun then collapse p mark true cs else mark :: collapse p mark true cs
    else c :: collapse p mark false cs

/-- Line ends of every kind (`\r\n`, `\r`) become line feeds. -/
def unifyLineEnds : List Char → List Char
  | '\r' :: '\n' :: cs => '\n' :: unifyLineEnds cs
  | '\r' :: cs => '\n' :: unifyLineEnds cs
  | c :: cs => c :: unifyLineEnds cs
  | [] => []

/-! ## §4. Numbers as text. -/

/-- Decimal digits of a number, with a minus sign in front of a negative one. -/
def decimal (n : Int) : String :=
  match n with
  | .ofNat k => Nat.repr k
  | .negSucc k => "-" ++ Nat.repr (k + 1)

end CodeAtlas.Text
