import CodeAtlas.Text.Basic

/-!
# Small letters

Lower-casing as far as ASCII words can notice it: besides the capitals of ASCII, the Kelvin sign
has the small form `k`, and the dotted capital I has the small form `i` with a combining dot.
No other character has an ASCII letter in its small form.
-/

namespace CodeAtlas.Text

/-- The small form of a character, as far as it has an ASCII letter in it. -/
def lowerChar (c : Char) : List Char :=
  if c = '\u212a' then ['k']
  else if c = '\u0130' then ['i', '\u0307']
  else [c.toLower]

/-- The text in small letters, as far as ASCII words can notice. -/
def lower (s : String) : String :=
  String.ofList (s.toList.flatMap lowerChar)

/-- The ASCII small letter that a character stands for when case is ignored, one for one: the
dotted and the dotless I stand for `i`, the long S for `s`, the Kelvin sign for `k`. -/
def foldChar (c : Char) : Char :=
  if c = '\u0130' || c = '\u0131' then 'i'
  else if c = '\u017f' then 's'
  else if c = '\u212a' then 'k'
  else c.toLower

/-- Does the text hold the ASCII word `needle` (in small letters) when case is ignored? -/
def containsIgnoringCase (needle s : String) : Bool :=
  occursIn needle.toList (s.toList.map foldChar)

end CodeAtlas.Text
