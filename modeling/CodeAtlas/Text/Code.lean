/-!
# Codes of a text

A text is a row of codes, and a code may be one half of a surrogate pair, which is no character.
Such a code stands in a `String` as an escape of four private characters, and so do these private
characters themselves: each row of codes has one `String`, and a text without such codes is its own
`String`.

An escape begins with a character that stands nowhere else, so that comparing, joining, searching
and cutting at an ordinary character need no look at the codes.  Counting, ordering and showing do.
-/

namespace CodeAtlas.Text

/-! ## §1. Escapes. -/

/-- Is the code one half of a surrogate pair? -/
def isSurrogate (code : Nat) : Bool :=
  0xD800 ≤ code && code < 0xE000

/-- The first of the sixteen private characters that are the digits of escapes. -/
def firstDigit : Nat := 0x10FF00

/-- The private character that begins an escape; it follows the digits. -/
def escapeMark : Char := Char.ofNat (firstDigit + 16)

/-- The number of the escape that a code has, if it has one: first come the surrogates, then the
characters that escapes are made of. -/
def escapeNumber? (code : Nat) : Option Nat :=
  if isSurrogate code then some (code - 0xD800)
  else if firstDigit ≤ code ∧ code ≤ firstDigit + 16 then some (0x800 + (code - firstDigit))
  else none

/-- The code whose escape has the number `n`. -/
def ofEscapeNumber (n : Nat) : Nat :=
  if n < 0x800 then 0xD800 + n else firstDigit + (n - 0x800)

/-- The last digit of `n` in an escape. -/
def escapeDigit (n : Nat) : Char :=
  Char.ofNat (firstDigit + n % 16)

/-- The characters that a code stands as. -/
def ofCode (code : Nat) : List Char :=
  match escapeNumber? code with
  | some n => [escapeMark, escapeDigit (n / 256), escapeDigit (n / 16), escapeDigit n]
  | none => [Char.ofNat code]

/-- The text with the given codes. -/
def ofCodes (codes : List Nat) : String :=
  String.ofList (codes.flatMap ofCode)

/-- The text of a row of characters none of which is part of an escape. -/
def ofChars (cs : List Char) : String :=
  ofCodes (cs.map Char.toNat)

theorem ofChars_append (xs ys : List Char) : ofChars (xs ++ ys) = ofChars xs ++ ofChars ys := by
  simp [ofChars, ofCodes]

/-! ## §2. Codes. -/

/-- The codes from here on, where `left` digits of the escape with the number `n` are to come. -/
def codesFrom : Nat → Nat → List Char → List Nat
  | _, _, [] => []
  | 0, _, c :: cs => if c = escapeMark then codesFrom 3 0 cs else c.toNat :: codesFrom 0 0 cs
  | left + 1, n, c :: cs =>
    let n := 16 * n + (c.toNat - firstDigit)
    if left = 0 then ofEscapeNumber n :: codesFrom 0 0 cs else codesFrom left n cs

/-- The codes of a text. -/
def codes (s : String) : List Nat :=
  codesFrom 0 0 s.toList

/-- The characters that a text is written with; a surrogate by itself is shown as one that is
missing. -/
def chars (s : String) : List Char :=
  (codes s).map fun code => if isSurrogate code then '\ufffd' else Char.ofNat code

/-- How many codes a text has. -/
def length (s : String) : Nat :=
  (codes s).length

/-- The texts of one code that a text is made of. -/
def symbols (s : String) : List String :=
  (codes s).map fun code => ofCodes [code]

/-- The first `n` codes of a text. -/
def take (n : Nat) (s : String) : String :=
  ofCodes ((codes s).take n)

/-- Does a row of codes come before another one, or is it the same?  What differs first decides. -/
def codesLe : List Nat → List Nat → Bool
  | [], _ => true
  | _ :: _, [] => false
  | a :: as, b :: bs => if a = b then codesLe as bs else a < b

/-- Does a text come before another one, or is it the same? -/
def le (a b : String) : Bool :=
  codesLe (codes a) (codes b)

/-! ## §3. Bytes. -/

/-- The bytes of a code: those of UTF-8, by the same rule also for a surrogate. -/
def bytesOf (code : Nat) : List UInt8 :=
  let tail (shift : Nat) : UInt8 := UInt8.ofNat (0x80 + code / shift % 64)
  if code < 0x80 then [UInt8.ofNat code]
  else if code < 0x800 then [UInt8.ofNat (0xC0 + code / 64), tail 1]
  else if code < 0x10000 then [UInt8.ofNat (0xE0 + code / 4096), tail 64, tail 1]
  else [UInt8.ofNat (0xF0 + code / 262144), tail 4096, tail 64, tail 1]

/-- The bytes of a text. -/
def bytes (s : String) : List UInt8 :=
  (codes s).flatMap bytesOf

/-- The place of the first surrogate in a text, it, and how many follow it at once. -/
def surrogateRun? (s : String) : Option (Nat × Nat × Nat) :=
  let all := codes s
  let before := all.takeWhile fun code => !isSurrogate code
  match all.drop before.length with
  | [] => none
  | first :: rest => some (before.length, first, (rest.takeWhile isSurrogate).length)

end CodeAtlas.Text
