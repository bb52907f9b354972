import CodeAtlas.Block.Search
import CodeAtlas.Chunk.Merge
import CodeAtlas.Text.Fold

/-!
# Dividing a module into chunks

A chunk is a row of blocks.  The children of a block are gathered into chunks up to a size;
classes, functions and other large children begin a chunk of their own and are divided further.
Comments that say who owns or wrote the file are left out, and comments of the module go with what
follows.

Names in the program: `_chunk_contents` for `chunks`, `_chunk_block` for `divide`,
`_ignore_comment` for `isIgnored`, `count_chunk_tokens` for `chunkTokens`.
-/

namespace CodeAtlas.Chunk

/-- A row of blocks. -/
abbrev BlockChunk := List Block

def chunkTokens (chunk : BlockChunk) : Int :=
  tokenSum (fun b => b.info.tokens) chunk

/-- Is a block of the kind divided when it is large? -/
def isDivided (kind : BlockKind) : Bool :=
  [BlockKind.functionDef, .classDef, .testSuite, .testCase, .moduleDef].contains kind

/-- Is a comment of no use: empty, or about who owns or wrote the file? -/
def isIgnored (content : String) : Bool :=
  content = "" || ["copyright", "license", "author"].any fun w =>
    Text.containsIgnoringCase w content

/-- The chunks made so far, the chunk that is being filled, and the comments that wait for the
next block. -/
structure Filling where
  chunks : List BlockChunk := []
  current : BlockChunk := []
  comments : BlockChunk := []
  /-- Comments are being left out since one of no use. -/
  ignoring : Bool := false
  deriving Inhabited

namespace Filling

/-- Closes the chunk that is being filled, unless it is empty. -/
def close (f : Filling) : Filling :=
  if f.current.isEmpty then f
  else { f with chunks := f.chunks ++ [f.current], current := [] }

/-- Adds a child with all below it: to the current chunk if `fits`, else to a new one. -/
def addWhole (f : Filling) (fits : Bool) (child : Block) : Filling :=
  let f :=
    if fits then { f with current := f.current ++ f.comments ++ [child] }
    else if f.current.isEmpty then { f with current := [child] }
    else { f with chunks := f.chunks ++ [f.current ++ f.comments], current := [child] }
  { f with comments := [], current := f.current ++ child.descendants }

/-- Adds a child that has been divided.  The first of its chunks goes with the child if `fits`
says so. -/
def addDivided (f : Filling) (fits : BlockChunk → Bool) (child : Block) (parts : List BlockChunk) :
    Filling :=
  let f := f.close
  let head := f.current ++ f.comments ++ [child]
  let f := { f with comments := [] }
  match parts with
  | [] => { f with current := head }
  | first :: rest =>
    if fits first then { f with chunks := f.chunks ++ (head ++ first) :: rest, current := [] }
    else { f with chunks := f.chunks ++ head :: first :: rest, current := [] }

/-- All chunks: what is left over joins the last one if it is small. -/
def finish (limits : ChunkLimits) (f : Filling) : List BlockChunk :=
  match f.chunks.getLast? with
  | some last =>
    if chunkTokens f.current < limits.minSize then f.chunks.dropLast ++ [last ++ f.current]
    else f.chunks ++ [f.current]
  | none => [f.current]

end Filling

/-- What is done with a child before its size is looked at. -/
inductive Verdict where
  | skip
  | skipIgnoring
  | wait
  | take
  deriving DecidableEq

/-- The verdict on a child, where `top` says that its parent has no parent. -/
def verdict (limits : ChunkLimits) (top ignoring : Bool) (child : Block) : Verdict :=
  if child.info.kind = .comment then
    if limits.comments = .leaveOut then .skip
    else if isIgnored child.info.content || ignoring then .skipIgnoring
    else if limits.comments = .associate && top then .wait
    else .take
  else if limits.maxSize < child.info.tokens then .skip
  else .take

/-- What one child does to the chunks that are being filled.  Its own chunks `parts` are looked at only
if the child is divided. -/
def Filling.accept (limits : ChunkLimits) (parent : BlockInfo) (outer : Option Int) (f : Filling)
    (child : Block) (parts : Unit → List BlockChunk) : Filling :=
  match verdict limits outer.isNone f.ignoring child with
  | .skip => f
  | .skipIgnoring => { f with ignoring := true }
  | .wait => { f with comments := f.comments ++ [child] }
  | .take =>
    let f := if child.info.kind = .comment then f else { f with ignoring := false }
    let around := parent.tokens + outer.getD 0
    let size := child.totalTokens
    if (isDivided child.info.kind && limits.minSize < size) || limits.maxSize < around + size then
      f.addDivided
        (fun first => around + child.info.tokens + chunkTokens first < limits.maxSize) child (parts ())
    else
      let filled := around + chunkTokens f.current + size
      f.addWhole
        ((!isDivided parent.kind && filled < limits.maxSize) || filled < limits.chunkSize) child

mutual
/-- The chunks of the blocks below a block, where `outer` are the tokens of its parent if it has
one. -/
def divide (limits : ChunkLimits) (outer : Option Int) : Block → List BlockChunk
  | ⟨info, children⟩ =>
    mergeRounds (fun b => b.info.tokens) limits
      (Filling.finish limits (fill limits info outer {} children))

/-- Fills chunks with the children of a block. -/
def fill (limits : ChunkLimits) (parent : BlockInfo) (outer : Option Int) (f : Filling) :
    List Block → Filling
  | [] => f
  | child :: rest =>
    fill limits parent outer
      (f.accept limits parent outer child fun _ => divide limits (some parent.tokens) child) rest
end

/-- What one child does, with the chunks that it is divided into. -/
def Filling.next (limits : ChunkLimits) (parent : BlockInfo) (outer : Option Int) (f : Filling)
    (child : Block) : Filling :=
  f.accept limits parent outer child fun _ => divide limits (some parent.tokens) child

/-- Does a large file say in its first comment that it was generated? -/
def isGenerated (limits : ChunkLimits) (module : Block) : Bool :=
  limits.hardLimit < module.totalTokens &&
    match module.children with
    | first :: _ =>
      first.info.kind = .comment && Text.contains "generated" (Text.lower first.info.content)
    | [] => false

/-- The chunks of a module.  Files without tokens, with syntax errors, or generated ones have
none; a small file is one chunk. -/
def chunks (limits : ChunkLimits) (module : Block) : List BlockChunk :=
  let size := module.totalTokens
  if size = 0 || !module.errorBlocks.isEmpty || isGenerated limits module then []
  else if size < limits.minSize then [module.preorder]
  else divide limits none module

end CodeAtlas.Chunk
