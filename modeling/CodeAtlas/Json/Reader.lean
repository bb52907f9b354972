import CodeAtlas.Failure
import CodeAtlas.Json.Basic
import CodeAtlas.Text.Digit

/-!
# Reading JSON

Reading goes in two passes, each one walk along a list.  `lex` turns characters into tokens, with
a mode that says what the character before left open; `build` turns tokens into a value, with a
stack of the lists and objects that are open.  What is wrong first in the text decides the failure.
-/

namespace CodeAtlas.Json

/-! ## §1. Tokens. -/

inductive Token where
  | mark (c : Char)
  | text (s : String)
  | word (s : List Char)
  /-- From here on the text cannot be read. -/
  | broken

/-- A piece of a text: a character as it stands, or a unit that was written as its number. -/
inductive Piece where
  | plain (c : Char)
  | unit (u : Nat)

/-- What the characters so far have left open.  Collected pieces are newest first. -/
inductive LexMode where
  | idle
  | inWord (rev : List Char)
  | inText (rev : List Piece)
  | escape (rev : List Piece)
  /-- Inside `\u`, with `left` digits to come. -/
  | unit (rev : List Piece) (left code : Nat)
  | stuck

/-- The characters of pieces (oldest first).  Two units that are a surrogate pair are one code. -/
def joinPieces : List Piece → List Char
  | .unit hi :: .unit lo :: rest =>
    if 0xD800 ≤ hi ∧ hi < 0xDC00 ∧ 0xDC00 ≤ lo ∧ lo < 0xE000 then
      Text.ofCode (0x10000 + (hi - 0xD800) * 0x400 + (lo - 0xDC00)) ++ joinPieces rest
    else Text.ofCode hi ++ joinPieces (.unit lo :: rest)
  | .unit u :: rest => Text.ofCode u ++ joinPieces rest
  | .plain c :: rest => c :: joinPieces rest
  | [] => []

/-- The character that a backslash and one letter stand for. -/
def shortEscape? : Char → Option Char
  | '"' => some '"'
  | '\\' => some '\\'
  | '/' => some '/'
  | 'b' => some '\x08'
  | 'f' => some '\x0c'
  | 'n' => some '\n'
  | 'r' => some '\r'
  | 't' => some '\t'
  | _ => none

/-- The value of a hexadecimal digit. -/
def hexValue? (c : Char) : Option Nat :=
  if c.isDigit then some (c.toNat - 48)
  else if 'a' ≤ c ∧ c ≤ 'f' then some (c.toNat - 87)
  else if 'A' ≤ c ∧ c ≤ 'F' then some (c.toNat - 55)
  else none

def isMark (c : Char) : Bool :=
  c = '{' || c = '}' || c = '[' || c = ']' || c = ',' || c = ':'

def isGap (c : Char) : Bool :=
  c = ' ' || c = '\n' || c = '\t' || c = '\r'

/-- One character outside of texts: the mode after it, and the tokens (newest first). -/
def lexOutside (rev : List Token) (c : Char) : LexMode × List Token :=
  if isGap c then (.idle, rev)
  else if isMark c then (.idle, .mark c :: rev)
  else if c = '"' then (.inText [], rev)
  else if c.isAlphanum || c = '-' then (.inWord [c], rev)
  else (.stuck, .broken :: rev)

/-- The mode and the tokens (newest first) after one more character. -/
def lexStep (mode : LexMode) (rev : List Token) (c : Char) : LexMode × List Token :=
  match mode with
  | .stuck => (.stuck, rev)
  | .idle => lexOutside rev c
  | .inWord w =>
    if c.isAlphanum || c = '-' || c = '+' || c = '.' then (.inWord (c :: w), rev)
    else lexOutside (.word w.reverse :: rev) c
  | .inText pieces =>
    if c = '"' then (.idle, .text (String.ofList (joinPieces pieces.reverse)) :: rev)
    else if c = '\\' then (.escape pieces, rev)
    else if c.toNat < 32 then (.stuck, .broken :: rev)
    else (.inText (.plain c :: pieces), rev)
  | .escape pieces =>
    if c = 'u' then (.unit pieces 4 0, rev)
    else
      match shortEscape? c with
      | some d => (.inText (.plain d :: pieces), rev)
      | none => (.stuck, .broken :: rev)
  | .unit pieces left code =>
    match hexValue? c with
    | none => (.stuck, .broken :: rev)
    | some d =>
      let code := 16 * code + d
      if left ≤ 1 then (.inText (.unit code :: pieces), rev) else (.unit pieces (left - 1) code, rev)

/-- The tokens of a text, oldest first. -/
def lex : LexMode → List Token → List Char → List Token
  | .idle, rev, [] => rev.reverse
  | .stuck, rev, [] => rev.reverse
  | .inWord w, rev, [] => (.word w.reverse :: rev).reverse
  | _, rev, [] => (.broken :: rev).reverse
  | mode, rev, c :: cs => lex (lexStep mode rev c).1 (lexStep mode rev c).2 cs

/-! ## §2. Numbers and names. -/

/-- The whole part at the front of a number, and the rest.  A zero stands alone. -/
def wholeDigits : List Char → List Char × List Char
  | '0' :: rest => (['0'], rest)
  | cs => (cs.takeWhile Char.isDigit, cs.dropWhile Char.isDigit)

/-- The digits after a point, and the rest; a point without digits is left. -/
def fractionDigits : List Char → List Char × List Char
  | '.' :: rest =>
    let digits := rest.takeWhile Char.isDigit
    if digits.isEmpty then ([], '.' :: rest) else (digits, rest.dropWhile Char.isDigit)
  | cs => ([], cs)

/-- The number with the given digits. -/
def ofDigits (digits : List Char) : Nat :=
  Text.ofDigits (digits.map fun c => c.toNat - 48)

/-- An exponent with its sign, and the rest; without digits it is no exponent. -/
def signedExponent? (cs : List Char) : Option (Int × List Char) :=
  let (negative, cs) :=
    match cs with
    | '-' :: cs => (true, cs)
    | '+' :: cs => (false, cs)
    | cs => (false, cs)
  let digits := cs.takeWhile Char.isDigit
  if digits.isEmpty then none
  else
    let size : Int := ofDigits digits
    some (if negative then -size else size, cs.dropWhile Char.isDigit)

/-- The exponent at the front, if there is one, and the rest. -/
def exponentPart : List Char → Option Int × List Char
  | [] => (none, [])
  | e :: cs =>
    match (if e = 'e' || e = 'E' then signedExponent? cs else none) with
    | some (x, rest) => (some x, rest)
    | none => (none, e :: cs)

/-- The value of a word, of which `rest` is left over. -/
def closed (rest : List Char) (v : Json) : Outcome Json :=
  if rest.isEmpty then .ok v else .error .notJson

/-- The number at the front of a word, which must be all of the word.  A whole number may not have
too many digits, and that is noticed before what follows it. -/
def ofNumber (negative : Bool) (cs : List Char) : Outcome Json :=
  let (whole, rest) := wholeDigits cs
  let (places, rest) := fractionDigits rest
  let (exponent, rest) := exponentPart rest
  if whole.isEmpty then .error .notJson
  else if places.isEmpty && exponent.isNone then
    if Text.mostDigits < whole.length then .error (.tooManyDigits (some whole.length))
    else
      let size : Int := ofDigits whole
      closed rest (.int (if negative then -size else size))
  else
    closed rest
      (.real (Double.ofDecimal negative (ofDigits (whole ++ places)) (exponent.getD 0 - places.length)))

/-- The value that a bare word stands for. -/
def ofWord (word : List Char) : Outcome Json :=
  if word = "true".toList then .ok (.bool true)
  else if word = "false".toList then .ok (.bool false)
  else if word = "null".toList then .ok .null
  else if word = "NaN".toList then .ok (.real .nan)
  else if word = "Infinity".toList then .ok (.real (.infinite false))
  else if word = "-Infinity".toList then .ok (.real (.infinite true))
  else
    match word with
    | '-' :: cs => ofNumber true cs
    | cs => ofNumber false cs

/-! ## §3. Values. -/

/-- A list or an object that is open, with what it holds so far. -/
inductive Frame where
  | list (rev : List Json)
  | object (fields : List (String × Json)) (key : String)

/-- What may come next. -/
inductive Want where
  | value
  | valueOrClose
  | keyOrClose (fields : List (String × Json))
  | key (fields : List (String × Json))
  | colon (fields : List (String × Json)) (key : String)
  | more

/-- The open frames, and the value just completed (if any) at the top. -/
structure BuildState where
  want : Want
  frames : List Frame
  value : Json

/-- A value is complete: it is the whole, or goes into the innermost frame. -/
def complete (v : Json) (frames : List Frame) : BuildState :=
  match frames with
  | .list rev :: rest => { want := .more, frames := .list (v :: rev) :: rest, value := .null }
  | .object fields key :: rest =>
    { want := .more, frames := .object (Assoc.put key v fields) key :: rest, value := .null }
  | [] => { want := .more, frames := [], value := v }

/-- How many lists and objects may be open at a time. -/
def mostOpen : Nat := 990

/-- Opens a list or an object. -/
def opening (container : String) (frames : List Frame) (s : BuildState) : Outcome BuildState :=
  if frames.length < mostOpen then .ok s else .error (.nestedTooDeeply container)

/-- A token where a value must begin. -/
def beginValue (frames : List Frame) : Token → Outcome BuildState
  | .text s => .ok (complete (.str s) frames)
  | .word w => do return complete (← ofWord w) frames
  | .mark '[' =>
    opening "array" frames { want := .valueOrClose, frames := .list [] :: frames, value := .null }
  | .mark '{' => opening "object" frames { want := .keyOrClose [], frames := frames, value := .null }
  | _ => .error .notJson

/-- The state after one more token. -/
def buildStep (s : BuildState) (t : Token) : Outcome BuildState :=
  match s.want, t with
  | .value, t => beginValue s.frames t
  | .valueOrClose, .mark ']' =>
    match s.frames with
    | .list rev :: rest => .ok (complete (.arr rev.reverse) rest)
    | _ => .error .notJson
  | .valueOrClose, t => beginValue s.frames t
  | .keyOrClose fields, .mark '}' => .ok (complete (.obj fields) s.frames)
  | .keyOrClose fields, .text k => .ok { s with want := .colon fields k }
  | .key fields, .text k => .ok { s with want := .colon fields k }
  | .colon fields k, .mark ':' => .ok { s with want := .value, frames := .object fields k :: s.frames }
  | .more, .mark ',' =>
    match s.frames with
    | .list rev :: rest => .ok { s with want := .value, frames := .list rev :: rest }
    | .object fields _ :: rest => .ok { s with want := .key fields, frames := rest }
    | [] => .error .notJson
  | .more, .mark ']' =>
    match s.frames with
    | .list rev :: rest => .ok (complete (.arr rev.reverse) rest)
    | _ => .error .notJson
  | .more, .mark '}' =>
    match s.frames with
    | .object fields _ :: rest => .ok (complete (.obj fields) rest)
    | _ => .error .notJson
  | _, _ => .error .notJson

/-- The value of all tokens. -/
def build : BuildState → List Token → Outcome Json
  | s, [] =>
    match s.want, s.frames with
    | .more, [] => .ok s.value
    | _, _ => .error .notJson
  | s, t :: ts =>
    match buildStep s t with
    | .ok s => build s ts
    | .error e => .error e

/-- The value that a text stands for. -/
def parse (s : String) : Outcome Json :=
  build { want := .value, frames := [], value := .null } (lex .idle [] s.toList)

end CodeAtlas.Json
