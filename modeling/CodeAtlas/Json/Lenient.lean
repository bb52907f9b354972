import CodeAtlas.Failure
import CodeAtlas.Json.Basic
import CodeAtlas.Number.Shortest
import CodeAtlas.Text.Code
import CodeAtlas.Text.Digit
import CodeAtlas.Text.Fold

/-!
# Lenient reading

Fields of records take values of a neighbouring sort: a whole number may be written as a truth
value, with a fraction, or in digits, and a text may be a number.
-/

namespace CodeAtlas.Json

/-- A whole number, also from a truth value, a finite number with a fraction, or digits. -/
def wholeNumber? : Json → Option Int
  | .int n => some n
  | .bool b => some (if b then 1 else 0)
  | .real (.finite negative mantissa exponent) => some (Double.wholePart negative mantissa exponent)
  | .str s => Text.readInt? s
  | _ => none

/-- A text, also from a number or a truth value. -/
def plainText? : Json → Option String
  | .str s => some s
  | .int n => some (Text.decimal n)
  | .real x => some x.shown
  | .bool b => some (if b then "True" else "False")
  | _ => none

/-- A list of texts. -/
def plainTexts? : Json → Option (List String)
  | .arr items => items.mapM plainText?
  | _ => none

/-- Null, or what `read?` reads. -/
def orNull? {α : Type} (read? : Json → Option α) : Json → Option (Option α)
  | .null => some none
  | j => (read? j).map some

/-- The number that a finite number is, as a whole number if it is one. -/
def settled (negative : Bool) (mantissa : Nat) (exponent : Int) : Json :=
  let unit := Nat.pow 2 (-exponent).toNat
  if mantissa * Nat.pow 2 exponent.toNat % unit = 0 then
    .int (Double.wholePart negative mantissa exponent)
  else .real (.finite negative mantissa exponent)

mutual
/-- The value in the form in which equal values are written alike: a truth value is a number, a
number is whole if it can be, and the order of fields does not count. -/
def canonical : Json → Json
  | .bool b => .int (if b then 1 else 0)
  | .real (.finite negative mantissa exponent) => settled negative mantissa exponent
  | .arr items => .arr (canonicalItems items)
  | .obj fields => .obj ((canonicalFields fields).mergeSort fun a b => Text.le a.1 b.1)
  | other => other

def canonicalItems : List Json → List Json
  | [] => []
  | v :: vs => canonical v :: canonicalItems vs

def canonicalFields : List (String × Json) → List (String × Json)
  | [] => []
  | (k, v) :: rest => (k, canonical v) :: canonicalFields rest
end

/-- Are the values equal, where a truth value is a number and numbers count by their size? -/
def same (a b : Json) : Bool :=
  a.canonical == b.canonical

/-- A truth value, also from one of the numbers and words for it. -/
def truthValue? : Json → Option Bool
  | .bool b => some b
  | .str s =>
    let word := Text.lower s
    if ["1", "on", "t", "true", "y", "yes"].contains word then some true
    else if ["0", "off", "f", "false", "n", "no"].contains word then some false
    else none
  | j =>
    match j.canonical with
    | .int 1 => some true
    | .int 0 => some false
    | _ => none

/-- A pair of a name and a value. -/
def pair? : Json → Option (String × Json)
  | .arr [.str key, value] => some (key, value)
  | .str s =>
    match Text.symbols s with
    | [key, value] => some (key, .str value)
    | _ => none
  | _ => none

/-- The fields of a table, which may be given as a row of pairs. -/
def tableFields? : Json → Option (List (String × Json))
  | .obj fields => some fields
  | .arr items => (items.mapM pair?).map fun pairs =>
      pairs.foldl (fun fields (k, v) => Assoc.put k v fields) []
  | .str "" => some []
  | _ => none

/-- A finite number as a whole number of the units `1 / 2 ^ places`; a truth value is a number. -/
def binary? : Json → Option (Int × Nat)
  | .bool b => some (if b then 1 else 0, 0)
  | .int n => some (n, 0)
  | .real (.finite negative mantissa exponent) =>
    let size : Int := mantissa * Nat.pow 2 exponent.toNat
    some (if negative then -size else size, (-exponent).toNat)
  | _ => none

mutual
/-- Does a value come before another one?  Numbers, texts and lists have an order. -/
def lessThan : Json → Json → Outcome Bool
  | .arr a, .arr b => itemsLessThan a b
  | .str a, .str b => .ok (a ≠ b && Text.le a b)
  | a, b =>
    match a.binary?, b.binary? with
    | some (m, p), some (n, q) => .ok (m * Nat.pow 2 q < n * Nat.pow 2 p)
    | _, _ => .error (.notOrdered "<" a.sort b.sort)

/-- Of two lists the items that differ first decide, and else the length. -/
def itemsLessThan : List Json → List Json → Outcome Bool
  | [], b => .ok !b.isEmpty
  | _ :: _, [] => .ok false
  | a :: as, b :: bs => if a.same b then itemsLessThan as bs else lessThan a b
end

/-- Is the value an infinite number? -/
def isInfinite : Json → Bool
  | .real (.infinite _) => true
  | _ => false

/-- Does the value count as true?  Nothing, zero and what is empty do not. -/
def isTruthy : Json → Bool
  | .null => false
  | .bool b => b
  | .int n => n ≠ 0
  | .real (.finite _ mantissa _) => mantissa ≠ 0
  | .real _ => true
  | .str s => s ≠ ""
  | .arr items => !items.isEmpty
  | .obj fields => !fields.isEmpty

/-- The items that a value is made of: of a list its items, of an object the names of its fields, of
a text its codes. -/
def members? : Json → Option (List Json)
  | .arr items => some items
  | .obj fields => some (fields.map fun f => .str f.1)
  | .str s => some ((Text.symbols s).map .str)
  | _ => none

end CodeAtlas.Json
