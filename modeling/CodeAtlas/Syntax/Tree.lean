import CodeAtlas.Source.Bytes

/-!
# Syntax trees and captures

A syntax tree is given by its nodes in preorder, each with the number of its parent.  A capture
table says which nodes the queries have tagged.  A parent comes before its children, so climbing
towards the root always ends.

Names in the program: `_find_type` for `findChild`, `find_type` for `findChildOf`,
`find_nested_type` for `findNested`, `has_error` for `hasError`.
-/

namespace CodeAtlas

/-- A node of a syntax tree. -/
structure SyntaxNode where
  parent : Option Nat
  kind : String
  start : Int
  stop : Int
  deriving Repr, Inhabited

/-- A source with its syntax tree; a node is known by its place in preorder. -/
structure SyntaxTree where
  source : ByteArray
  nodes : Array SyntaxNode
  deriving Inhabited

/-- A tagged node, found by a match that begins at `owner`. -/
structure Capture where
  owner : Nat
  node : Nat
  tag : String
  deriving Repr, Inhabited

/-- The captures of each query, by the label of the query. -/
abbrev CaptureTable := List (String × List Capture)

namespace SyntaxTree

/-! ## §1. Nodes. -/

def kind (t : SyntaxTree) (i : Nat) : String :=
  (t.nodes[i]?.map (·.kind)).getD ""

def start (t : SyntaxTree) (i : Nat) : Int :=
  (t.nodes[i]?.map (·.start)).getD 0

def stop (t : SyntaxTree) (i : Nat) : Int :=
  (t.nodes[i]?.map (·.stop)).getD 0

def parent? (t : SyntaxTree) (i : Nat) : Option Nat :=
  t.nodes[i]?.bind (·.parent)

/-- The children of a node, from left to right. -/
def children (t : SyntaxTree) (i : Nat) : List Nat :=
  (List.range t.nodes.size).filter fun j => t.parent? j = some i

/-- The node to the right of a node under the same parent. -/
def nextSibling? (t : SyntaxTree) (i : Nat) : Option Nat :=
  match t.parent? i with
  | none => none
  | some p => (t.children p).find? fun j => i < j

/-- The node to the left of a node under the same parent. -/
def previousSibling? (t : SyntaxTree) (i : Nat) : Option Nat :=
  match t.parent? i with
  | none => none
  | some p => ((t.children p).filter fun j => j < i).getLast?

/-- The row on which a node starts. -/
def startRow (t : SyntaxTree) (i : Nat) : Nat :=
  (Source.pointAt t.source (t.start i).toNat).row

/-- The row on which a node ends. -/
def stopRow (t : SyntaxTree) (i : Nat) : Nat :=
  (Source.pointAt t.source (t.stop i).toNat).row

/-- The text of a node. -/
def text (t : SyntaxTree) (i : Nat) : Outcome String :=
  Source.cut t.source (t.start i) (t.stop i)

/-! ## §2. Climbing. -/

/-- Is node `i` the node `top` or below it? -/
def isWithin (t : SyntaxTree) (top i : Nat) : Bool :=
  if i = top then true
  else
    match t.parent? i with
    | none => false
    | some p => if _h : p < i then t.isWithin top p else false
termination_by i

/-- The end of what lies before node `i`, up to the start of `origin`: the nearest left neighbour
of the node or of a node around it. -/
def endBefore (t : SyntaxTree) (origin i : Nat) : Int :=
  if i = origin then t.start i
  else
    match t.previousSibling? i with
    | some left => t.stop left
    | none =>
      match t.parent? i with
      | none => t.start i
      | some p => if _h : p < i then t.endBefore origin p else t.start i
termination_by i

/-- The nearest right neighbour of node `i` or of a node around it below `origin`. -/
def nextWithin (t : SyntaxTree) (origin i : Nat) : Outcome (Option Nat) :=
  if i = origin then .ok none
  else
    match t.nextSibling? i with
    | some right => .ok (some right)
    | none =>
      match t.parent? i with
      | none => .error (.absent "type")
      | some p => if _h : p < i then t.nextWithin origin p else .error .endless
termination_by i

/-! ## §3. Searching by node kind. -/

/-- The first child of the kind, with its place among the children. -/
def findChild (t : SyntaxTree) (i : Nat) (kind : String) : Option (Nat × Nat) :=
  ((t.children i).zipIdx.find? fun (j, _) => t.kind j = kind).map fun (j, place) => (place, j)

/-- The first child that is of one of the kinds. -/
def findChildOf (t : SyntaxTree) (i : Nat) (kinds : List String) : Option Nat :=
  (t.children i).find? fun j => kinds.contains (t.kind j)

/-- The first node of the kind, looking down from node `i` at most `levels` levels; a negative
number of levels sets no limit.  Ways down are no longer than there are nodes. -/
def findNested (t : SyntaxTree) (kind : String) (i : Nat) (levels : Int) : Option Nat :=
  go (t.nodes.size + 1) i levels
where
  go : Nat → Nat → Int → Option Nat
    | 0, _, _ => none
    | depth + 1, i, levels =>
      if levels = 0 then none
      else if t.kind i = kind then some i
      else (t.children i).findSome? fun j => go depth j (levels - 1)

/-- Is there an error node among node `i` and those below it? -/
def hasError (t : SyntaxTree) (i : Nat) : Bool :=
  (t.findNested "ERROR" i (-1)).isSome

/-! ## §4. Captures. -/

/-- The captures of a query whose match begins at the node or below it. -/
def capturesAt (t : SyntaxTree) (table : CaptureTable) (label : String) (i : Nat) : List Capture :=
  ((table.find? fun e => e.1 == label).map (·.2)).getD [] |>.filter fun c => t.isWithin i c.owner

end SyntaxTree

end CodeAtlas
