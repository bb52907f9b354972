import CodeAtlas.Text.Printable
import CodeAtlas.Text.Code
import CodeAtlas.Text.Basic

/-!
# Quoted text

How a text is shown inside messages and lists: between single quotes, or between double quotes
when it holds a single quote and no double one; the quote in use and the backslash are escaped,
and what is not printable is shown by its code.
-/

namespace CodeAtlas.Text

/-- The code of a character in hexadecimal, `width` digits wide. -/
def hexDigits (width code : Nat) : List Char :=
  let digits := Nat.toDigits 16 code
  List.replicate (width - digits.length) '0' ++ digits

/-- One code inside quotes of the kind `mark`. -/
def quoteCode (mark : Char) (code : Nat) : List Char :=
  let c := Char.ofNat code
  if c = mark || c = '\\' then ['\\', c]
  else if c = '\n' then ['\\', 'n']
  else if c = '\r' then ['\\', 'r']
  else if c = '\t' then ['\\', 't']
  else if isPrintable c then [c]
  else if code < 256 then '\\' :: 'x' :: hexDigits 2 code
  else if code < 65536 then '\\' :: 'u' :: hexDigits 4 code
  else '\\' :: 'U' :: hexDigits 8 code

/-- The quote that a text is shown in. -/
def quoteMark (s : String) : Char :=
  if s.toList.contains '\'' && !s.toList.contains '"' then '"' else '\''

/-- The text as it is shown in messages. -/
def quoted (s : String) : String :=
  let mark := quoteMark s
  String.ofList (mark :: (codes s).flatMap (quoteCode mark) ++ [mark])

/-- A list of texts as it is shown in messages. -/
def quotedList (items : List String) : String :=
  "[" ++ join ", " (items.map quoted) ++ "]"

end CodeAtlas.Text
