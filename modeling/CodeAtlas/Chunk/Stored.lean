import CodeAtlas.Chunk.Context
import CodeAtlas.Parse.Module

/-!
# Stored chunks

A stored chunk is a chunk ready to be stored: its text, an id made from the document and the first
and last block, and what is known about it.

Names in the program: `CodeNode` for `StoredChunk`; `_parse_nodes` for `ofDocuments`,
`_create_node` for `make`, `class_name` for `dividerName`.
-/

namespace CodeAtlas

/-- A document that is divided: its id, what is known about it, and what of that is not to be
embedded. -/
structure Document where
  id : String
  metadata : List (String × Json)
  excluded : List String := []
  deriving Inhabited

/-- A chunk ready to be stored. -/
structure StoredChunk where
  id : String
  text : String
  metadata : List (String × Json)
  excluded : List String
  deriving Inhabited

namespace StoredChunk

/-- What is known about a chunk: its lines and spans. -/
def chunkMetadata (chunk : Chunk.BlockChunk) : List (String × Json) :=
  match chunk.head?, chunk.getLast? with
  | some first, some last =>
    [("start_line", .int first.info.startLine), ("end_line", .int last.info.endLine),
     ("span_ids", Json.ofStrings (Block.spanIdsOf chunk))]
  | _, _ => []

/-- The id of a chunk of a document. -/
def chunkId (document : Document) (chunk : Chunk.BlockChunk) : String :=
  match chunk.head?, chunk.getLast? with
  | some first, some last =>
    document.id ++ "_" ++ first.info.path.text ++ "_" ++ last.info.path.text
  | _, _ => document.id

/-- The node of a chunk with the given text. -/
def make (document : Document) (content : String) (chunk : Chunk.BlockChunk)
    (tokenizer : Tokenizer := .words) : StoredChunk :=
  let text := Text.trimBoth (· = '\n') content
  let known := (chunkMetadata chunk ++ [("tokens", Json.int (tokenizer.count text))]).foldl
    (fun m (k, v) => Assoc.put k v m) document.metadata
  { id := chunkId document chunk, text, metadata := known
    excluded := document.excluded ++ ["start_line", "end_line", "tokens"] }

/-- The nodes of a module. -/
def ofModule (limits : ChunkLimits) (document : Document) (module : Block)
    (tokenizer : Tokenizer := .words) : List StoredChunk :=
  (Chunk.chunks limits module).map fun chunk =>
    make document (Chunk.contextText (Chunk.nameTree chunk) module) chunk tokenizer

/-- The nodes of documents with their syntax trees.  A document that cannot be read has none. -/
def ofDocuments (limits : ChunkLimits) (documents : List (Document × Parse.Setting))
    (tokenizer : Tokenizer := .words) : List StoredChunk :=
  documents.flatMap fun (document, setting) =>
    match Parse.parse setting with
    | .ok module => ofModule limits document module.root tokenizer
    | .error _ => []

/-- The name under which the divider of documents is known. -/
def dividerName : String :=
  "GhostcoderNodeParser"

end StoredChunk

end CodeAtlas
