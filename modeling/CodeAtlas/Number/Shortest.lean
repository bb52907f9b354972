import CodeAtlas.Number.Double
import CodeAtlas.Text.Basic

/-!
# Shortest decimals

A number of double precision is written with the fewest decimal digits that read back as the same
number, and of those with the digits nearest to it.  Numbers from `0.0001` up to `10 ^ 16` are
written out, all others with an exponent of at least two digits.
-/

namespace CodeAtlas.Double

/-! ## §1. Which decimals read back. -/

/-- Is `a · 10 ^ i` less than `n · 2 ^ j`? -/
def decimalBelow (a : Nat) (i : Int) (n : Nat) (j : Int) : Bool :=
  a * Nat.pow 10 i.toNat * Nat.pow 2 (-j).toNat < n * Nat.pow 2 j.toNat * Nat.pow 10 (-i).toNat

/-- Is `a · 10 ^ i` more than `n · 2 ^ j`? -/
def decimalAbove (a : Nat) (i : Int) (n : Nat) (j : Int) : Bool :=
  n * Nat.pow 2 j.toNat * Nat.pow 10 (-i).toNat < a * Nat.pow 10 i.toNat * Nat.pow 2 (-j).toNat

/-- Does `digits · 10 ^ scale` read back as `mantissa · 2 ^ exponent`?  It must lie between the
middles of the gaps to the two neighbours, where a middle itself belongs to an even mantissa.  Below
a power of two the gap is half as wide. -/
def readsBack (mantissa : Nat) (exponent : Int) (digits : Nat) (scale : Int) : Bool :=
  let isNarrow := mantissa = Nat.pow 2 52 && leastExponent < exponent
  let low := if isNarrow then 4 * mantissa - 1 else 4 * mantissa - 2
  let high := 4 * mantissa + 2
  if mantissa % 2 = 0 then
    !decimalBelow digits scale low (exponent - 2) && !decimalAbove digits scale high (exponent - 2)
  else
    decimalAbove digits scale low (exponent - 2) && decimalBelow digits scale high (exponent - 2)

/-! ## §2. The shortest one. -/

/-- The least power of ten above a number, by its exponent. -/
def magnitude (mantissa : Nat) (exponent : Int) : Int :=
  let guess := (((Nat.log2 mantissa : Int) + exponent) * 30103).fdiv 100000
  if decimalAbove 1 guess mantissa exponent then guess
  else if decimalAbove 1 (guess + 1) mantissa exponent then guess + 1
  else guess + 2

/-- The number in units of `10 ^ scale`, as a quotient. -/
def inUnits (mantissa : Nat) (exponent scale : Int) : Nat × Nat :=
  (mantissa * Nat.pow 2 exponent.toNat * Nat.pow 10 (-scale).toNat,
    Nat.pow 2 (-exponent).toNat * Nat.pow 10 scale.toNat)

/-- The decimal in units of `10 ^ scale` that reads back, the nearer one if there are two. -/
def decimalAt? (mantissa : Nat) (exponent scale : Int) : Option Nat :=
  let (num, den) := inUnits mantissa exponent scale
  let nearest := roundedQuotient num den
  let other := if nearest * den ≤ num then nearest + 1 else nearest - 1
  if readsBack mantissa exponent nearest scale then some nearest
  else if readsBack mantissa exponent other scale then some other
  else none

/-- The digits and the scale of the shortest decimal, tried from one digit to seventeen; the exact
decimal stands behind them. -/
def shortest (mantissa : Nat) (exponent : Int) : Nat × Int :=
  let top := magnitude mantissa exponent
  let found := (List.range 17).findSome? fun (n : Nat) =>
    (decimalAt? mantissa exponent (top - (n + 1))).map fun d => (d, top - ((n : Int) + 1))
  let (num, den) := inUnits mantissa exponent (min exponent 0)
  found.getD (num / den, min exponent 0)

/-! ## §3. Writing. -/

/-- The digits of a decimal without zeros at the end, and the place of its point: the decimal is
`0.digits · 10 ^ place`. -/
def digitsAndPlace (digits : Nat) (scale : Int) : List Char × Int :=
  let all := (Nat.repr digits).toList
  ((all.reverse.dropWhile (· = '0')).reverse, all.length + scale)

/-- The exponent of a decimal, with its sign and at least two digits. -/
def exponentText (e : Int) : List Char :=
  let size := (Nat.repr e.natAbs).toList
  (if e < 0 then '-' else '+') :: (if size.length < 2 then '0' :: size else size)

/-- Lays out a decimal. -/
def layout (digits : List Char) (place : Int) : List Char :=
  if -4 < place ∧ place ≤ 16 then
    if place ≤ 0 then "0.".toList ++ List.replicate (-place).toNat '0' ++ digits
    else if place.toNat < digits.length then
      digits.take place.toNat ++ '.' :: digits.drop place.toNat
    else digits ++ List.replicate (place.toNat - digits.length) '0' ++ ".0".toList
  else
    digits.take 1 ++ (if 1 < digits.length then '.' :: digits.drop 1 else [])
      ++ 'e' :: exponentText (place - 1)

/-- A finite number without its sign. -/
def sizeText (mantissa : Nat) (exponent : Int) : List Char :=
  if mantissa = 0 then "0.0".toList
  else
    let (digits, scale) := shortest mantissa exponent
    let (digits, place) := digitsAndPlace digits scale
    layout digits place

/-- A text with a minus sign if one is wanted. -/
def signed (negative : Bool) (s : List Char) : String :=
  String.ofList (if negative then '-' :: s else s)

/-- A number as messages show it. -/
def shown : Double → String
  | .finite negative mantissa exponent => signed negative (sizeText mantissa exponent)
  | .infinite negative => signed negative "inf".toList
  | .nan => "nan"

/-- A number in JSON. -/
def jsonText : Double → String
  | .finite negative mantissa exponent => signed negative (sizeText mantissa exponent)
  | .infinite negative => signed negative "Infinity".toList
  | .nan => "NaN"

end CodeAtlas.Double
