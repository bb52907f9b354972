/-!
# Numbers of double precision

A number with a fraction is kept to 53 binary digits, with an exponent between -1074 and 971.
Reading a decimal takes the nearest such number, and the even one of two that are equally near; a
decimal that is too large is infinite.
-/

namespace CodeAtlas

/-- A number of double precision. -/
inductive Double where
  /-- `mantissa · 2 ^ exponent`, with a sign of its own, so that there are two zeros. -/
  | finite (negative : Bool) (mantissa : Nat) (exponent : Int)
  | infinite (negative : Bool)
  | nan
  deriving Repr, DecidableEq, Inhabited

namespace Double

/-! ## §1. Rounding. -/

/-- The least exponent. -/
def leastExponent : Int := -1074

/-- The greatest exponent. -/
def greatestExponent : Int := 971

/-- The nearest whole number to a quotient; of two equally near ones the even one. -/
def roundedQuotient (num den : Nat) : Nat :=
  let q := num / den
  let r := num % den
  if 2 * r < den then q
  else if den < 2 * r then q + 1
  else if q % 2 = 0 then q
  else q + 1

/-- The quotient in units of `2 ^ exponent`, rounded. -/
def mantissaAt (num den : Nat) (exponent : Int) : Nat :=
  roundedQuotient (num * Nat.pow 2 (-exponent).toNat) (den * Nat.pow 2 exponent.toNat)

/-- The exponent at which a quotient has 53 binary digits before it is rounded, as far as the least
exponent allows. -/
def exponentOf (num den : Nat) : Int :=
  let guess := max leastExponent ((Nat.log2 num : Int) - Nat.log2 den - 53)
  if den * Nat.pow 2 guess.toNat * Nat.pow 2 53 ≤ num * Nat.pow 2 (-guess).toNat then guess + 1
  else guess

/-- The number nearest to a quotient. -/
def ofQuotient (negative : Bool) (num den : Nat) : Double :=
  let exponent := exponentOf num den
  let mantissa := mantissaAt num den exponent
  let (mantissa, exponent) :=
    if mantissa = Nat.pow 2 53 then (Nat.pow 2 52, exponent + 1) else (mantissa, exponent)
  if greatestExponent < exponent then .infinite negative else .finite negative mantissa exponent

/-- The number nearest to `digits · 10 ^ scale`.  Scales far out of range are settled without
computing the power. -/
def ofDecimal (negative : Bool) (digits : Nat) (scale : Int) : Double :=
  if digits = 0 || (Nat.log2 digits : Int) + 3 * scale < -1100 then
    .finite negative 0 leastExponent
  else if 400 < scale then .infinite negative
  else ofQuotient negative (digits * Nat.pow 10 scale.toNat) (Nat.pow 10 (-scale).toNat)

/-! ## §2. Whole numbers. -/

/-- The whole part of a finite number, toward zero. -/
def wholePart (negative : Bool) (mantissa : Nat) (exponent : Int) : Int :=
  let size := mantissa * Nat.pow 2 exponent.toNat / Nat.pow 2 (-exponent).toNat
  if negative then -(size : Int) else size

end Double

end CodeAtlas
