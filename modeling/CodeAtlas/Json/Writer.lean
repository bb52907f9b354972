import CodeAtlas.Json.Basic
import CodeAtlas.Number.Shortest
import CodeAtlas.Text.Quoted

/-!
# Writing JSON

`compact` writes a value in one line, `indented` with one item a line and four blanks for each
level.  Every character beyond ASCII is written as one or two `\u` escapes.  `shown` writes a
value as messages show it: names and texts in single quotes, `None`, `True` and `False`.
-/

namespace CodeAtlas.Json

open Text (hexDigits quoted join codes)

/-! ## §1. Texts. -/

def unitEscape (u : Nat) : List Char :=
  '\\' :: 'u' :: hexDigits 4 u

/-- One code inside a JSON text. -/
def escapeCode (code : Nat) : List Char :=
  let c := Char.ofNat code
  if c = '"' then ['\\', '"']
  else if c = '\\' then ['\\', '\\']
  else if c = '\n' then ['\\', 'n']
  else if c = '\r' then ['\\', 'r']
  else if c = '\t' then ['\\', 't']
  else if code = 8 then ['\\', 'b']
  else if code = 12 then ['\\', 'f']
  else if 32 ≤ code ∧ code < 127 then [c]
  else if code < 0x10000 then unitEscape code
  else
    let rest := code - 0x10000
    unitEscape (0xD800 + rest / 0x400) ++ unitEscape (0xDC00 + rest % 0x400)

def writeText (s : String) : String :=
  String.ofList ('"' :: (codes s).flatMap escapeCode ++ ['"'])

/-! ## §2. In one line. -/

mutual
def compact : Json → String
  | .null => "null"
  | .bool true => "true"
  | .bool false => "false"
  | .int n => Text.decimal n
  | .real x => x.jsonText
  | .str s => writeText s
  | .arr items => "[" ++ join "," (compactItems items) ++ "]"
  | .obj fields => "\x7b" ++ join "," (compactFields fields) ++ "\x7d"

def compactItems : List Json → List String
  | [] => []
  | v :: vs => compact v :: compactItems vs

def compactFields : List (String × Json) → List String
  | [] => []
  | (k, v) :: rest => (writeText k ++ ":" ++ compact v) :: compactFields rest
end

/-! ## §3. One item a line. -/

/-- Items between brackets, each on a line of its own, `level` levels deep. -/
def block (opening closing : String) (level : Nat) (items : List String) : String :=
  if items.isEmpty then opening ++ closing
  else
    let blanks (n : Nat) := String.ofList (List.replicate (4 * n) ' ')
    opening ++ "\n" ++ blanks (level + 1)
      ++ join (",\n" ++ blanks (level + 1)) items ++ "\n" ++ blanks level ++ closing

mutual
def indentedAt (level : Nat) : Json → String
  | .null => "null"
  | .bool true => "true"
  | .bool false => "false"
  | .int n => Text.decimal n
  | .real x => x.jsonText
  | .str s => writeText s
  | .arr items => block "[" "]" level (indentedItems (level + 1) items)
  | .obj fields => block "\x7b" "\x7d" level (indentedFields (level + 1) fields)

def indentedItems (level : Nat) : List Json → List String
  | [] => []
  | v :: vs => indentedAt level v :: indentedItems level vs

def indentedFields (level : Nat) : List (String × Json) → List String
  | [] => []
  | (k, v) :: rest => (writeText k ++ ": " ++ indentedAt level v) :: indentedFields level rest
end

def indented (j : Json) : String :=
  indentedAt 0 j

/-! ## §4. In messages. -/

mutual
def shown : Json → String
  | .null => "None"
  | .bool true => "True"
  | .bool false => "False"
  | .int n => Text.decimal n
  | .real x => x.shown
  | .str s => quoted s
  | .arr items => "[" ++ join ", " (shownItems items) ++ "]"
  | .obj fields => "\x7b" ++ join ", " (shownFields fields) ++ "\x7d"

def shownItems : List Json → List String
  | [] => []
  | v :: vs => shown v :: shownItems vs

def shownFields : List (String × Json) → List String
  | [] => []
  | (k, v) :: rest => (quoted k ++ ": " ++ shown v) :: shownFields rest
end

/-- The value inside a text. -/
def said : Json → String
  | .str s => s
  | j => j.shown

end CodeAtlas.Json
