import CodeAtlas.Chunk.Limits
import CodeAtlas.Failure
import CodeAtlas.Tally

/-!
# Joining small chunks

Chunks that are too small are joined with a neighbour, if both together stay below the hard limit:
the first with the second, the last with the one before it, any other with the smaller of its two
neighbours.  With too many chunks every chunk counts as too small.  Rounds follow each other as
long as something was joined and there are too many chunks.

Names in the program: `_merge_chunks` for `merge`, of which one pass is `mergeRound`.
-/

namespace CodeAtlas.Chunk

variable {α : Type}

/-- The tokens of a chunk. -/
def tokenSum (tokens : α → Int) (chunk : List α) : Int :=
  tally tokens chunk

/-- What a round has made so far: finished chunks, and whether any were joined. -/
structure Round (α : Type) where
  merged : List (List α) := []
  joined : Bool := false

/-- A chunk is left as it is. -/
def Round.keep (r : Round α) (chunk : List α) : Round α :=
  { r with merged := r.merged ++ [chunk] }

/-- A chunk is joined with the one finished last, if there is one and both together fit. -/
def Round.joinLast (tokens : α → Int) (limits : ChunkLimits) (r : Round α) (chunk : List α) :
    Round α :=
  match r.merged.getLast? with
  | some last =>
    if tokenSum tokens last + tokenSum tokens chunk ≤ limits.hardLimit then
      { merged := r.merged.dropLast ++ [last ++ chunk], joined := true }
    else r.keep chunk
  | none => r.keep chunk

/-- The rest of a round: `chunk` is the next one (with what was joined to it from the front),
`before` the one in front of it, `total` the number of all chunks. -/
def mergeFrom (tokens : α → Int) (limits : ChunkLimits) (total : Nat) :
    List (List α) → Option (List α) → List α → Round α → Round α
  | [], _, chunk, r =>
    if tokenSum tokens chunk < limits.minSize || limits.maxChunks < total then
      r.joinLast tokens limits chunk
    else r.keep chunk
  | next :: rest, before, chunk, r =>
    if tokenSum tokens chunk < limits.minSize || limits.maxChunks < total then
      let backwards := before.any fun b => tokenSum tokens b < tokenSum tokens next
      if backwards then
        mergeFrom tokens limits total rest (some chunk) next (r.joinLast tokens limits chunk)
      else if tokenSum tokens next + tokenSum tokens chunk ≤ limits.hardLimit then
        mergeFrom tokens limits total rest (some chunk) (chunk ++ next) { r with joined := true }
      else mergeFrom tokens limits total rest (some chunk) next (r.keep chunk)
    else mergeFrom tokens limits total rest (some chunk) next (r.keep chunk)

/-- One round over all chunks. -/
def mergeRound (tokens : α → Int) (limits : ChunkLimits) : List (List α) → Round α
  | [] => {}
  | chunk :: rest => mergeFrom tokens limits (rest.length + 1) rest none chunk {}

/-- Rounds until nothing was joined or there are few enough chunks.  A round that joins leaves
fewer chunks. -/
def mergeRounds (tokens : α → Int) (limits : ChunkLimits) (chunks : List (List α)) :
    List (List α) :=
  let r := mergeRound tokens limits chunks
  if r.joined && limits.maxChunks ≤ r.merged.length then
    if _h : r.merged.length < chunks.length then mergeRounds tokens limits r.merged else r.merged
  else r.merged
termination_by chunks.length

/-- Joins small chunks; there has to be at least one chunk. -/
def merge (tokens : α → Int) (limits : ChunkLimits) (chunks : List (List α)) :
    Outcome (List (List α)) :=
  if chunks.isEmpty then .error (.unset "i") else .ok (mergeRounds tokens limits chunks)

end CodeAtlas.Chunk
