import CodeAtlas.Block.NameTree
import CodeAtlas.Chunk.Split

/-!
# Chunks in their context

The text of a chunk shows its blocks together with the blocks around them.  Where code in between
is left out inside a function or another inner block, a placeholder says so.

Names in the program: `_to_context_string` for `contextText`, `_create_path_tree` for `nameTree`,
`_contains_block_paths` for `pathsThrough`.
-/

namespace CodeAtlas.Chunk

/-- The paths of the blocks of a chunk. -/
def nameTree (chunk : BlockChunk) : NameTree :=
  NameTree.ofPaths (chunk.map fun b => some b.info.path)

/-- Is code left out without a mark in blocks of the kind? -/
def isUnmarked (kind : BlockKind) : Bool :=
  kind = .classDef || kind = .moduleDef || kind = .testSuite

/-- The mark for code left out in front of or behind a block. -/
def omissionMark (info : BlockInfo) : String :=
  (info.placeholder "... other code").ownText

mutual
/-- The text of a block and of those below it that lie on a path of the tree. -/
def contextText (tree : NameTree) : Block → String
  | ⟨info, children⟩ =>
    info.ownText ++ contextChildren tree info.kind false none children

/-- The children of a block of kind `parent`.  `hidden` says that code was left out since the
last block shown, `last` is the child before. -/
def contextChildren (tree : NameTree) (parent : BlockKind) (hidden : Bool)
    (last : Option BlockInfo) : List Block → String
  | [] =>
    match last with
    | some info => if hidden && !isUnmarked parent then omissionMark info else ""
    | none => ""
  | b :: bs =>
    match b.info.name.bind tree.child? with
    | some below =>
      let mark :=
        if below.shown && hidden && !b.info.kind.isComment && !isUnmarked parent then
          omissionMark b.info
        else ""
      mark ++ contextText below b ++ contextChildren tree parent false (some b.info) bs
    | none =>
      contextChildren tree parent (hidden || !b.info.kind.isComment) (some b.info) bs
end

/-- The paths that lead through the block. -/
def pathsThrough (b : Block) (paths : List Path) : List Path :=
  paths.filter fun p => p.take b.info.path.length = b.info.path

end CodeAtlas.Chunk
