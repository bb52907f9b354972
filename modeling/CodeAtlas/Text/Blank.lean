import CodeAtlas.Text.Ranges
import CodeAtlas.Text.Basic

/-!
# Blank characters

The characters that count as white space: the controls 9 to 13 and 28 to 31, the space, and the
separators of Unicode.
-/

namespace CodeAtlas.Text

/-- The ranges of the blank characters. -/
def blankRanges : List (Nat × Nat) := [
  (9, 13), (28, 32), (133, 133), (160, 160), (5760, 5760), (8192, 8202), (8232, 8233),
  (8239, 8239), (8287, 8287), (12288, 12288)]

/-- Is the character white space? -/
def isBlank (c : Char) : Bool :=
  inRanges blankRanges c.toNat

/-- Removes white space from both ends. -/
def trim (s : String) : String :=
  trimBoth isBlank s

/-- The six characters that part words for the purpose of counting them. -/
def isWordGap (c : Char) : Bool :=
  c = ' ' || (9 ≤ c.toNat && c.toNat ≤ 13)

end CodeAtlas.Text
