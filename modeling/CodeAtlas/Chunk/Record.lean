import CodeAtlas.Block.Record
import CodeAtlas.Chunk.Stored
import CodeAtlas.Chunk.Map
import CodeAtlas.Json.Reader
import CodeAtlas.Scope.Record

/-!
# Chunks as records

How limits, stored chunks, chunks in a map and clusters are given and shown as JSON.
-/

namespace CodeAtlas

/-- What becomes of comments, by its word. -/
def CommentRule.ofWord (s : String) : Outcome CommentRule :=
  (CommentRule.ofLabel? s).elim (.error (.unknownWord (Text.quoted s) "CommentStrategy")) .ok

/-- Limits; a field that is missing has its default. -/
def ChunkLimits.ofJson (j : Json) : Outcome ChunkLimits := do
  let d : ChunkLimits := {}
  let number (key : String) (default : Int) : Int := (j.field key).int?.getD default
  return {
    chunkSize := number "chunk_size" d.chunkSize
    minSize := number "min_chunk_size" d.minSize
    maxSize := number "max_chunk_size" d.maxSize
    hardLimit := number "hard_token_limit" d.hardLimit
    maxChunks := number "max_chunks" d.maxChunks
    comments :=
      ← (j.field "comment_strategy").str?.elim (pure d.comments) CommentRule.ofWord }

/-- A document, which has the name of its file unless another one is given. -/
def Document.ofJson (j : Json) : Document :=
  let path := (j.field "file_path").str?.getD ""
  { id := (j.field "id").str?.getD path
    metadata := (j.field "metadata").fields.foldl (fun m (k, v) => Assoc.put k v m)
      [("file_path", .str path)]
    excluded := (j.field "excluded").strings }

/-- A stored chunk; the entries of its record are sorted by name. -/
def StoredChunk.toJson (n : StoredChunk) : Json :=
  let entries := n.metadata.mergeSort fun a b => Text.le a.1 b.1
  .obj [("id", .str n.id), ("text", .str n.text), ("excluded", Json.ofStrings n.excluded),
    ("metadata", .arr (entries.map fun (key, value) =>
      .arr [.str key, if key = "span_ids" then Json.ofSet value.strings else value]))]

def ChunkEntry.toJson (c : ChunkEntry) : Json :=
  .obj [("id", .str c.id), ("text", .str c.id), ("content", .str c.content),
    ("file_path", .str c.record.filePath), ("span_ids", Json.ofStrings c.record.spanIds),
    ("community", c.record.community), ("range", c.range.toJson)]

/-- The key of a node as it was given; a chunk is shown by its name. -/
def ChunkKey.toJson : ChunkKey → Json
  | .literal value => value
  | key => .str key.text

/-- A leaf as a list: its node, its cluster, and whether it is a leaf. -/
def ModuleLeaf.ofJson : Json → ModuleLeaf
  | .arr [.int node, .int cluster, .bool isLeaf] => ⟨node, cluster, isLeaf⟩
  | _ => default

/-- Clusters as two lists of pairs. -/
def Clusters.toJson {κ : Type} (write : κ → Json) (c : Clusters κ) : Json :=
  .arr
    [.arr (c.ofNode.map fun (node, cluster) => .arr [write node, .int cluster]),
     .arr (c.members.map fun (cluster, nodes) => .arr [.int cluster, .arr (nodes.map write)])]

end CodeAtlas
