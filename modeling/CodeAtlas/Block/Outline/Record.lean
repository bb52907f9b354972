import CodeAtlas.Block.Outline
import CodeAtlas.Block.Record

/-!
# Outlines as records

An outline is given as a tree of block records with a list of spans.  The blocks are numbered in
document order, and the spans name the blocks that opened them by number.
-/

namespace CodeAtlas.Outline

/-! ## §1. Blocks. -/

mutual
/-- What a block is made from; all blocks below it are plain blocks. -/
def BlockSpec.ofJson : Json → BlockSpec
  | .obj fields =>
    let j := Json.obj fields
    { parts := BlockData.partsOf j
      data := BlockData.ofJson j
      span := (j.field "span").str?
      children := childSpecs fields }
  | _ => { parts := .error .invalidRecord, data := .error .invalidRecord }

def BlockSpec.childSpecs : List (String × Json) → List BlockSpec
  | [] => []
  | (key, value) :: rest =>
    if key = "children" then specsIn value else childSpecs rest

def BlockSpec.specsIn : Json → List BlockSpec
  | .arr items => specsOf items
  | _ => []

def BlockSpec.specsOf : List Json → List BlockSpec
  | [] => []
  | j :: rest => ofJson j :: specsOf rest
end

/-- The number at a signed position in a row of blocks. -/
def numberAt (row : List Nat) (position : Int) : Outcome Nat :=
  if Value.isNear position then
    ((place? row.length position).bind fun p => row[p]?).elim (.error .noItem) .ok
  else .error .positionTooFar

/-! ## §2. Outlines. -/

/-- The fields of a pair of names. -/
def edgeOf? (j : Json) : Option (String × String) :=
  match j.strings with
  | [a, b] => some (a, b)
  | _ => none

/-- An outline with the blocks below `tree`, its `spans`, and, where they are wanted, a module
(`module`) with a graph of names (`edges`) and the links between blocks (`link`).  The blocks are
made first, then the spans, and the blocks get their spans last. -/
def ofJson (j : Json) : Outcome Outline := do
  let isModule := (j.field "module").isTruthy
  let tree := j.field "tree"
  let spec := BlockSpec.ofJson tree
  let spec := if isModule then { spec with data := BlockData.moduleOfJson tree } else spec
  let (made, o) := (addSpec none spec).run {}
  let _ ← made
  let all := List.range o.entries.size
  let spans ← (j.field "spans").items.mapM (Span.ofJson (numberAt all))
  let (assigned, o) := (assignSpans spec.spanNames).run (o.withSpans spans)
  let _ ← assigned
  let o := if isModule then o.asModule else o
  let o := if (j.field "link").isTruthy then o.linked else o
  match j.field "edges" with
  | .arr edges => o.withEdges (edges.filterMap edgeOf?)
  | _ => return o

end CodeAtlas.Outline
