import CodeAtlas.Chunk.Limits
import CodeAtlas.Failure
import CodeAtlas.Json.Lenient
import CodeAtlas.Json.Reader
import CodeAtlas.Json.Writer

/-!
# Settings of an index

The settings under which the code of a repository is indexed, and the file they are kept in.

Names in the program: `IndexSettings` for `Settings`; `to_serializable_dict` for `toJson`,
`persist` for writing `fileText`, `from_persist_dir` for `ofFileText`.
-/

namespace CodeAtlas

/-- The settings of an index. -/
structure Settings where
  embedModel : String := "text-embedding-3-small"
  dimensions : Int := 1536
  language : String := "python"
  minChunkSize : Int := 100
  chunkSize : Int := 750
  hardTokenLimit : Int := 2000
  maxChunks : Int := 200
  comments : CommentRule := .associate
  deriving Repr, Inhabited

namespace Settings

/-- The settings as a record. -/
def toJson (s : Settings) : Json :=
  .obj
    [("embed_model", .str s.embedModel), ("dimensions", .int s.dimensions),
     ("language", .str s.language), ("min_chunk_size", .int s.minChunkSize),
     ("chunk_size", .int s.chunkSize), ("hard_token_limit", .int s.hardTokenLimit),
     ("max_chunks", .int s.maxChunks), ("comment_strategy", .str s.comments.label)]

/-- The text of the file that the settings are kept in. -/
def fileText (s : Settings) : String :=
  s.toJson.indented

/-- The fields that hold whole numbers. -/
def numberFields : List String :=
  ["dimensions", "min_chunk_size", "chunk_size", "hard_token_limit", "max_chunks"]

/-- Reads a field, which has a default if it is missing. -/
def readField {α : Type} (j : Json) (key : String) (read? : Json → Option α) (missing : α) :
    Outcome α :=
  match j.field? key with
  | none => .ok missing
  | some v => (read? v).elim (.error .invalidRecord) .ok

/-- The settings that a record stands for.  Fields that are not known are passed over.  An infinite
number is noticed before all other faults of the fields. -/
def ofJson (j : Json) : Outcome Settings := do
  if !j matches .obj _ then
    throw (.notARecord "scope_graph.moatless.settings.IndexSettings()" j.sort)
  if numberFields.any fun key => (j.field key).isInfinite then throw .infiniteNumber
  let base : Settings := {}
  return {
    embedModel := ← readField j "embed_model" Json.plainText? base.embedModel
    dimensions := ← readField j "dimensions" Json.wholeNumber? base.dimensions
    language := ← readField j "language" Json.plainText? base.language
    minChunkSize := ← readField j "min_chunk_size" Json.wholeNumber? base.minChunkSize
    chunkSize := ← readField j "chunk_size" Json.wholeNumber? base.chunkSize
    hardTokenLimit := ← readField j "hard_token_limit" Json.wholeNumber? base.hardTokenLimit
    maxChunks := ← readField j "max_chunks" Json.wholeNumber? base.maxChunks
    comments :=
      ← readField j "comment_strategy" (fun v => v.str?.bind CommentRule.ofLabel?)
        base.comments }

/-- The settings kept in a file, which must hold a record. -/
def ofFileText (text : String) : Outcome Settings := do
  ofJson (← Json.parse text)

end Settings

end CodeAtlas
