import CodeAtlas.Text.Blank

/-!
# Whole numbers in text

Reading a whole number: blanks around it, one sign, digits of any script, and single underscores
between digits.  A number of too many digits is not read.
-/

namespace CodeAtlas.Text

/-- The digit zero of each script; its nine successors follow it. -/
def zeroDigits : List Nat := [
  48, 1632, 1776, 1984, 2406, 2534, 2662, 2790, 2918, 3046, 3174, 3302, 3430, 3558, 3664, 3792,
  3872, 4160, 4240, 6112, 6160, 6470, 6608, 6784, 6800, 6992, 7088, 7232, 7248, 42528, 43216,
  43264, 43472, 43504, 43600, 44016, 65296, 66720, 68912, 69734, 69872, 69942, 70096, 70384,
  70736, 70864, 71248, 71360, 71472, 71904, 72016, 72784, 73040, 73120, 92768, 92864, 93008,
  120782, 120792, 120802, 120812, 120822, 123200, 123632, 125264, 130032]

/-- The value of a decimal digit of any script. -/
def digitValue? (c : Char) : Option Nat :=
  (zeroDigits.find? fun z => z ≤ c.toNat && c.toNat < z + 10).map (c.toNat - ·)

/-- The most digits that a number may be written with. -/
def mostDigits : Nat := 4300

/-- The digits of a number.  `joined` says that the character before was a digit, so that an
underscore may follow. -/
def digitsOf? : Bool → List Char → Option (List Nat)
  | joined, [] => if joined then some [] else none
  | joined, c :: cs =>
    if c = '_' then
      if joined then digitsOf? false cs else none
    else
      match digitValue? c with
      | some d => (digitsOf? true cs).map (d :: ·)
      | none => none

/-- The number with the given digits. -/
def ofDigits (digits : List Nat) : Nat :=
  digits.foldl (fun n d => 10 * n + d) 0

/-- The number that a text without a sign stands for. -/
def readNat? (cs : List Char) : Option Nat :=
  (digitsOf? false cs).bind fun digits =>
    if digits.length ≤ mostDigits then some (ofDigits digits) else none

/-- The blanks that may stand around a number; the four separating controls are none of them. -/
def isNumberBlank (c : Char) : Bool :=
  isBlank c && !(28 ≤ c.toNat && c.toNat ≤ 31)

/-- The whole number that a text stands for, if any. -/
def readInt? (s : String) : Option Int :=
  match (trimBoth isNumberBlank s).toList with
  | '-' :: cs => (readNat? cs).map fun n => -(n : Int)
  | '+' :: cs => (readNat? cs).map Int.ofNat
  | cs => (readNat? cs).map Int.ofNat

end CodeAtlas.Text
