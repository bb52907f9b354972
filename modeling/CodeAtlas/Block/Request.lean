import CodeAtlas.Block.Question

/-!
# Requests to change blocks

Changes of an outline that are asked for with values of any sort.  A request does what it can before
it comes to a value that cannot be used.

Names in the program: `insert_children`, `append_children` and `show_spans` for `insertChildren`,
`appendChildren` and `showSpans`; `create_comment` for `comment`; the others ask for an edit of
the same name.
-/

namespace CodeAtlas.Request

open Outline (Edit)

/-- Reads a value. -/
def reading {α : Type} (r : Outcome α) : Edit α :=
  Outline.ask fun _ => r

/-- Something that is no block cannot have a part of one set; words of their own take any part. -/
def setForeign (v : Value) (member : String) : Outcome Unit :=
  match v with
  | .kind _ | .group _ | .heading _ => .ok ()
  | .span _ => .error (.noField v.sort member)
  | v => .error (.noMember v.sort member)

/-! ## §1. Children. -/

/-- The number of a value that is to be a child.  What is no block hangs there all the same. -/
def childNumber (v : Value) : Edit Nat :=
  match v with
  | .block c _ => pure c
  | v => Outline.addEntry { data := default, thing := some v }

/-- Tells a child the block it hangs at. -/
def setParent (i : Nat) (child : Value) : Edit Unit :=
  match child with
  | .block c _ => Outline.change c fun e => { e with parent := some i }
  | v => reading (setForeign v "parent")

/-- Puts a child in front of the one at a place. -/
def insertChild (i : Nat) (place child : Value) : Edit Unit := do
  if place.binary?.any fun (n, _) => n = 0 then Outline.makeRoom i
  let n ← reading place.newPlace
  Outline.insertChild i n (← childNumber child)
  setParent i child

/-- Puts children in front of the one at a place, one behind the other. -/
def insertEach (i : Nat) (place : Value) : Nat → List Value → Edit Unit
  | _, [] => pure ()
  | done, child :: rest => do
    insertChild i ((place.whole?.map fun n => Value.whole (n + done)).getD place) child
    insertEach i place (done + 1) rest

def insertChildren (i : Nat) (place children : Value) : Edit Unit := do
  insertEach i place 0 (← reading children.items)

/-- Puts a child behind the others. -/
def appendChild (i : Nat) (child : Value) : Edit Unit :=
  match child with
  | .block c _ => Outline.appendChild i c
  | v => do
    let c ← childNumber v
    Outline.change i fun e => { e with children := e.children ++ [c] }
    throw (.noMember v.sort "span_ids")

def appendChildren (i : Nat) (children : Value) : Edit Unit := do
  (← reading children.items).forM (appendChild i)

/-- Puts children in the place of those between two bounds. -/
def replaceChildren (i : Nat) (first last children : Value) : Edit Unit := do
  let first ← reading first.bound?
  match children with
  | .list items =>
    let last ← reading last.bound?
    Outline.replaceChildren i first last (← items.mapM childNumber)
    items.forM (setParent i)
  | v => throw (.notJoined "list" v.sort)

/-- Puts a child in the place of the one at a place. -/
def replaceChild (i : Nat) (place child : Value) : Edit Unit := do
  let n ← reading place.position
  match child with
  | .block c _ => Outline.replaceChild i n c
  | v =>
    let children := (← get).childrenOf i
    match (Outline.place? children.length n).bind fun p => children[p]? with
    | none => throw .noItem
    | some replaced =>
      Outline.ask fun o => (o.glimpse 0 replaced).touch "pre_code"
      reading (setForeign v "pre_code")
      throw (.noMember v.sort "indentation")

def removeChild (i : Nat) (place : Value) : Edit Unit := do
  Outline.removeChild i (← reading place.position)

/-- Puts a block in the place of the one that a path leads to. -/
def replaceAt (i : Nat) (path new : Value) : Edit Unit := do
  if path.isTruthy && !((← get).childrenOf i).isEmpty then
    Outline.ask fun o => (o.childrenOf i).head?.forM fun j => (o.glimpse 0 j).touch "identifier"
    match ← reading path.path? with
    | none => Outline.ask fun o => (o.childrenOf i).forM fun j => (o.glimpse 0 j).touch "identifier"
    | some names => Outline.replaceAt (fun j p => replaceChild j (.whole p) new) names i

/-! ## §2. Indentation. -/

/-- A block whose indentation is looked at. -/
def indented (v : Value) : Outcome Nat :=
  match v with
  | .block j _ => .ok j
  | v => .error (.noMember v.sort "indentation")

/-- Brings the indentation of a block that replaces another one in line with it. -/
def alignIndentation (i : Nat) (replaced child : Value) : Edit Unit := do
  let replaced ← reading (indented replaced)
  Outline.alignIndentation i replaced (← reading (indented child))

/-- Would a further indentation show in the block? -/
def showsIndentation (d : BlockData) : Bool :=
  d.gapLines ≠ 0 || (Text.lines d.content).tail.any (Text.beginsWith " ")

/-- Indents a block and those below it further.  What is no text fails at the first block in which it
would show. -/
def indentBy (i : Nat) (more : Value) : Edit Unit := do
  match more.text? with
  | some text => Outline.indentBy i text
  | none =>
    Outline.changeAll i fun c => do
      if showsIndentation c.info.toBlockData then throw (.notJoined "str" more.sort)
      Outline.changeData c.info.id (Outline.indentData "")

/-! ## §3. Notes. -/

/-- The comment that a note is written as. -/
def comment (note : Value) : Edit String := do
  return BlockData.commentText (← Outline.ask fun o => Question.say o note)

/-- A comment block that hangs at a block, after so many line breaks. -/
def addNote (i : Nat) (kind : BlockKind) (note gapLines : Value) : Edit Value := do
  let words ← Outline.ask fun o => Question.say o note
  let breaks : Option Int :=
    match gapLines with
    | .real (.finite negative mantissa exponent) => some (Double.wholePart negative mantissa exponent)
    | .text s => Text.readInt? s
    | v => v.whole?
  match breaks with
  | some n => return .block (← Outline.addNote i kind words n) false
  | none => throw .invalidRecord

/-! ## §4. Spans. -/

/-- Shows spans of the module one after the other; stops at the first that it does not have. -/
def showEach : List Value → Edit Bool
  | [] => pure true
  | v :: rest => do
    match ← reading v.keyName? with
    | none => return false
    | some id => if ← Outline.showSpan id then showEach rest else return false

/-- Shows exactly the given spans of the module; tells whether all of them exist.  Further related
spans cannot be found, since the module keeps no list of its spans' neighbours. -/
def showSpans (i : Nat) (spanIds related : Value) : Edit Value := do
  Outline.hideSpans
  if !(← showEach (← reading spanIds.items)) then return .flag false
  if related.isTruthy then throw (.noMember (((← get).data i).sortName) "spans")
  return .flag true

end CodeAtlas.Request
