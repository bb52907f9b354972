/-!
# Limits for chunks

How large chunks of a file may be, in tokens, and what becomes of comments.

Names in the program: `CommentStrategy` for `CommentRule`; the limits are known as `chunk_size`,
`min_chunk_size`, `max_chunk_size`, `hard_token_limit` and `max_chunks`.
-/

namespace CodeAtlas

/-- What becomes of the comments of a file. -/
inductive CommentRule where
  /-- Comments are kept where they are. -/
  | keep
  /-- Comments of the module go with the block that follows them. -/
  | associate
  /-- Comments are left out. -/
  | leaveOut
  deriving Repr, DecidableEq, Inhabited

namespace CommentRule

def label : CommentRule → String
  | .keep => "include"
  | .associate => "associate"
  | .leaveOut => "exclude"

def ofLabel? (s : String) : Option CommentRule :=
  [keep, associate, leaveOut].find? fun c => c.label == s

end CommentRule

/-- The limits that chunks are made under. -/
structure ChunkLimits where
  /-- The size that chunks are filled up to. -/
  chunkSize : Int := 750
  /-- Smaller chunks are joined with a neighbour. -/
  minSize : Int := 100
  /-- Larger pieces are divided. -/
  maxSize : Int := 8000
  /-- Joined chunks are no larger than this. -/
  hardLimit : Int := 6000
  /-- With more chunks than this, all are joined as far as possible. -/
  maxChunks : Int := 100
  comments : CommentRule := .associate
  deriving Repr, Inhabited

end CodeAtlas
