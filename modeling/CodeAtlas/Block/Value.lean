import CodeAtlas.Block.Span
import CodeAtlas.Json.Lenient
import CodeAtlas.Json.Writer

/-!
# Values

What questions about blocks are asked with and what they are answered by.  A question takes values
of every sort.  Which of them it can use, and how it fails on the others, follows from what it does
with them: it looks for something in a value, goes through its items, follows it as a path, or
compares it with a number.
-/

namespace CodeAtlas

/-- A value of any sort. -/
inductive Value where
  | nothing
  | flag (b : Bool)
  | whole (n : Int)
  | real (x : Double)
  | text (s : String)
  | list (items : List Value)
  /-- Each member stands once. -/
  | set (members : List Value)
  | table (fields : List (String × Json))
  | block (number : Nat) (isModule : Bool)
  | span (id : String)
  | kind (k : BlockKind)
  | group (g : KindGroup)
  | heading (h : SpanHeading)
  /-- A field of a block or a span, with the sort of its content if that cannot be a key. -/
  | field (obstacle : Option String)
  deriving Inhabited, BEq

namespace Value

/-! ## §1. Sorts. -/

/-- The word for the sort of a value. -/
def sort : Value → String
  | .nothing => "NoneType"
  | .flag _ => "bool"
  | .whole _ => "int"
  | .real _ => "float"
  | .text _ => "str"
  | .list _ => "list"
  | .set _ => "set"
  | .table _ => "dict"
  | .block _ isModule => if isModule then "Module" else "CodeBlock"
  | .span _ => "BlockSpan"
  | .kind _ => "CodeBlockType"
  | .group _ => "CodeBlockTypeGroup"
  | .heading _ => "SpanMarker"
  | .field _ => "tuple"

/-- Does the value count as true?  Nothing, zero and what is empty do not. -/
def isTruthy : Value → Bool
  | .nothing => false
  | .flag b => b
  | .whole n => n ≠ 0
  | .real x => (Json.real x).isTruthy
  | .text s => s ≠ ""
  | .list items => !items.isEmpty
  | .set members => !members.isEmpty
  | .table fields => !fields.isEmpty
  | _ => true

mutual
/-- The value that plain JSON stands for. -/
def ofJson : Json → Value
  | .null => .nothing
  | .bool b => .flag b
  | .int n => .whole n
  | .real x => .real x
  | .str s => .text s
  | .arr items => .list (ofItems items)
  | .obj fields => .table fields

def ofItems : List Json → List Value
  | [] => []
  | j :: rest => ofJson j :: ofItems rest
end

/-- A list of texts. -/
def texts (l : List String) : Value :=
  .list (l.map .text)

/-- A set of texts. -/
def textSet (l : List String) : Value :=
  .set (l.map .text)

/-- A value that may be missing. -/
def ofOption {α : Type} (f : α → Value) (a : Option α) : Value :=
  a.elim .nothing f

/-! ## §2. Names, kinds and keys. -/

/-- The text that a value is; a group is its word. -/
def text? : Value → Option String
  | .text s => some s
  | .group g => some g.label
  | _ => none

def kind? : Value → Option BlockKind
  | .kind k => some k
  | _ => none

/-- The name that a value stands for, which may be that of a block without a name; a value of
another sort is the name of no block. -/
def name? : Value → Option (Option String)
  | .nothing => some none
  | v => v.text?.map some

/-- The sort of what keeps a value from being a key. -/
def obstacle? : Value → Option String
  | .list _ => some "list"
  | .set _ => some "set"
  | .table _ => some "dict"
  | .block _ isModule => some (if isModule then "Module" else "CodeBlock")
  | .span _ => some "BlockSpan"
  | .field obstacle => obstacle
  | _ => none

/-- The name that a key stands for. -/
def keyName? (v : Value) : Outcome (Option String) :=
  match v.obstacle? with
  | some sort => .error (.notHashable sort)
  | none => .ok v.text?

/-- The name that a value stands for when it is looked for in a set of names, where a set may be
looked for as well. -/
def memberName? (v : Value) : Outcome (Option String) :=
  match v with
  | .set _ => .ok none
  | v => v.keyName?

/-- The set of the given members, each of which must be able to be a key. -/
def setOf (members : List Value) : Outcome Value := do
  members.forM fun v => discard v.keyName?
  return .set (Assoc.union [] members)

/-! ## §3. Items. -/

/-- The items that a value is made of: of a text its codes, of a table the names of its fields. -/
def items? : Value → Option (List Value)
  | .list items => some items
  | .set members => some members
  | .table fields => some (fields.map fun f => .text f.1)
  | .block .. => some [.field none, .field none, .field none, .field (some "list")]
  | .span _ => some [.field none, .field none, .field none, .field none, .field (some "list")]
  | v => v.text?.map fun s => (Text.symbols s).map .text

/-- The items of a value, which must have some or be empty. -/
def items (v : Value) : Outcome (List Value) :=
  v.items?.elim (.error (.notIterable v.sort)) .ok

/-- The names among the items of a value, each of which must be able to be looked for. -/
def memberNames (v : Value) : Outcome (List String) := do
  return (← (← v.items).mapM memberName?).filterMap id

/-- The kinds that a value holds. -/
def kinds (v : Value) : Outcome (List BlockKind) :=
  match v with
  | .list items => .ok (items.filterMap kind?)
  | .set members => .ok (members.filterMap kind?)
  | .table _ | .block .. | .span _ => .ok []
  | .text _ | .group _ => .error (.notInText "CodeBlockType")
  | v => .error (.notSearchable v.sort)

/-- Does a value hold a text, as an item or, in a text, as a part? -/
def holds (s : String) (v : Value) : Outcome Bool :=
  match v with
  | .list items => .ok (items.any fun item => item.text? = some s)
  | .set members => .ok (members.any fun item => item.text? = some s)
  | .table fields => .ok (Assoc.has s fields)
  | .block .. | .span _ => .ok false
  | v =>
    match v.text? with
    | some t => .ok (Text.contains s t)
    | none => .error (.notSearchable v.sort)

/-- The names that a value stands for as a path, or none if one of its items is no name. -/
def path? (v : Value) : Outcome (Option (List (Option String))) :=
  match v with
  | .list items => .ok (items.mapM name?)
  | .table _ => .error (.noEntry "0")
  | v =>
    match v.text? with
    | some s => .ok (some ((Text.symbols s).map some))
    | none => .error (.noIndex v.sort)

/-- How many items a value has. -/
def length (v : Value) : Outcome Nat :=
  match v with
  | .list items => .ok items.length
  | .set members => .ok members.length
  | .table fields => .ok fields.length
  | v => v.text?.elim (.error (.noLength v.sort)) fun s => .ok (Text.length s)

/-! ## §4. Numbers. -/

/-- The whole number that a value is; a truth value is one. -/
def whole? : Value → Option Int
  | .flag b => some (if b then 1 else 0)
  | .whole n => some n
  | _ => none

/-- A number as a whole number of the units `1 / 2 ^ places`. -/
def binary? : Value → Option (Int × Nat)
  | .real x => (Json.real x).binary?
  | v => v.whole?.map fun n => (n, 0)

/-- How many binary places the numbers among the values have. -/
def placesOf (values : List Value) : Nat :=
  values.foldl (fun most v => max most ((v.binary?.map (·.2)).getD 0)) 0

/-- The number in units of `1 / 2 ^ places`, where it has no more places. -/
def inUnits? (places : Nat) (v : Value) : Option Int :=
  v.binary?.map fun (n, own) => n * Nat.pow 2 (places - own)

/-- A number on the right of a comparison with a whole number, in units of `1 / 2 ^ places`. -/
def compared (comparison : String) (places : Nat) (v : Value) : Outcome Int :=
  (v.inUnits? places).elim (.error (.notOrdered comparison "int" v.sort)) .ok

/-- Is a whole number less than the value? -/
def exceeds (v : Value) (n : Int) : Outcome Bool := do
  let places := placesOf [v]
  return n * Nat.pow 2 places < (← v.compared "<" places)

/-- Is a whole number greater than the value? -/
def fallsBelow (v : Value) (n : Int) : Outcome Bool := do
  let places := placesOf [v]
  return (← v.compared ">" places) < n * Nat.pow 2 places

/-- The places that lists can have lie within this bound. -/
def farthestPlace : Int := 9223372036854775808

/-- Is a place within the bounds of all lists? -/
def isNear (n : Int) : Bool :=
  -farthestPlace ≤ n && n < farthestPlace

/-- The place of an item in a list. -/
def position (v : Value) : Outcome Int :=
  match v.whole? with
  | some n => if isNear n then .ok n else .error .positionTooFar
  | none => .error (.noPosition v.sort)

/-- The place of a new item in a list. -/
def newPlace (v : Value) : Outcome Int :=
  match v.whole? with
  | some n => if isNear n then .ok n else .error .placeTooFar
  | none => .error (.notWhole v.sort)

/-- The bound of a part of a list, if there is one. -/
def bound? (v : Value) : Outcome (Option Int) :=
  match v with
  | .nothing => .ok none
  | v => v.whole?.elim (.error .noBound) fun n => .ok (some n)

/-- A number of copies. -/
def count (v : Value) : Outcome Int :=
  match v.whole? with
  | some n => if isNear n then .ok n else .error .tooManyCopies
  | none => .error (.noCount v.sort)

/-! ## §5. Values as text. -/

mutual
/-- A value inside a list as it is shown. -/
def shown : Value → String
  | .nothing => "None"
  | .flag b => if b then "True" else "False"
  | .whole n => Text.decimal n
  | .real x => x.shown
  | .text s => Text.quoted s
  | .list items => "[" ++ Text.join ", " (shownItems items) ++ "]"
  | .set [] => "set()"
  | .set members => "\x7b" ++ Text.join ", " (shownItems members) ++ "\x7d"
  | .table fields => (Json.obj fields).shown
  | .block .. | .span _ | .field _ => ""
  | .kind k => "<CodeBlockType." ++ k.name ++ ": " ++ Text.quoted k.label ++ ">"
  | .group g => "<CodeBlockTypeGroup." ++ g.name ++ ": " ++ Text.quoted g.label ++ ">"
  | .heading h => "<SpanMarker." ++ h.name ++ ": " ++ (if h = .tag then "1" else "2") ++ ">"

def shownItems : List Value → List String
  | [] => []
  | v :: rest => shown v :: shownItems rest
end

/-- A value inside a text. -/
def said : Value → String
  | .text s => s
  | .kind k => "CodeBlockType." ++ k.name
  | .group g => "CodeBlockTypeGroup." ++ g.name
  | .heading h => "SpanMarker." ++ h.name
  | v => v.shown

end Value

end CodeAtlas
