import CodeAtlas.Block.Basic

/-!
# Walks along blocks

A walk comes to the blocks below a block one after the other.  In an outline under edit it can meet
two hurdles: a thing that is no block, which does not have what it is asked for, and a block that
lies below itself, which would be entered for ever.  A walk that ends before it comes to a hurdle
does not notice it.
-/

namespace CodeAtlas.Block

/-- Asks a block for a member, which other things do not have. -/
def touch (member : String) (b : Block) : Outcome Unit :=
  match b.info.hurdle with
  | some (.foreign sort) => .error (.noMember sort member)
  | _ => .ok ()

/-- Goes below a block. -/
def enter (b : Block) : Outcome Unit :=
  if b.info.hurdle = some .loop then .error .endless else .ok ()

/-- Is there nothing below the block? -/
def isLeaf (b : Block) : Bool :=
  b.children.isEmpty && b.info.hurdle.isNone

/-- Comes to blocks in a row and goes below each of them, up to the first one that ends the walk. -/
def come (member : String) (ends : Block → Bool) : List Block → Outcome Unit
  | [] => .ok ()
  | b :: rest => do
    b.touch member
    if ends b then return
    b.enter
    come member ends rest

/-- Comes to all blocks below a block. -/
def comeToAll (member : String) (b : Block) : Outcome Unit :=
  come member (fun _ => false) b.descendants

/-- What a walk does at a block. -/
inductive Step where
  /-- It ends. -/
  | found
  /-- It goes back to the block around the row. -/
  | leave
  /-- It goes on behind the block. -/
  | skip
  /-- It goes below the block. -/
  | down

mutual
/-- Walks below a block; tells whether the walk has ended there. -/
def walk (member : String) (step : Block → Outcome Step) : Block → Outcome Bool
  | ⟨_, children⟩ => walkRow member step children

def walkRow (member : String) (step : Block → Outcome Step) : List Block → Outcome Bool
  | [] => .ok false
  | b :: bs => do
    b.touch member
    match ← step b with
    | .found => return true
    | .leave => return false
    | .skip => walkRow member step bs
    | .down => do
      b.enter
      if ← walk member step b then return true
      walkRow member step bs
end

/-- Comes to all blocks below a block to ask for their spans. -/
def comeToSpans (b : Block) : Outcome Unit := do
  b.enter
  b.comeToAll "get_all_span_ids"

end CodeAtlas.Block
