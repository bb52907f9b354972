import CodeAtlas.Block.Kind
import CodeAtlas.Block.Relationship

/-!
# Spans

A span is a stretch of blocks that are shown together: the imports of a file, the head of a class,
one function.  It knows the block that opened it and the paths of the blocks that belong to it.

Names in the program: `BlockSpan`, `SpanType` and `SpanMarker` for `Span`, `SpanRole` and
`SpanHeading`; `get_first_child_block_path` for `firstInnerPath`.
-/

namespace CodeAtlas

/-- What a span is for. -/
inductive SpanRole where
  | initiation | documentation | implementation
  deriving Repr, DecidableEq, Inhabited

namespace SpanRole

def label : SpanRole → String
  | .initiation => "init"
  | .documentation => "docs"
  | .implementation => "impl"

def ofLabel? (s : String) : Option SpanRole :=
  [initiation, documentation, implementation].find? fun r => r.label == s

end SpanRole

/-- How the name of a span is written in front of its first block. -/
inductive SpanHeading where
  | tag | comment
  deriving Repr, DecidableEq, Inhabited

namespace SpanHeading

def name : SpanHeading → String
  | .tag => "TAG"
  | .comment => "COMMENT"

def ofName? (s : String) : Option SpanHeading :=
  [tag, comment].find? fun h => h.name == s

end SpanHeading

/-- The block that opened a span. -/
structure Opener where
  /-- The number of the block. -/
  block : Nat
  kind : BlockKind
  path : Path
  /-- The path of the block around it, if there is one. -/
  parentPath : Option Path
  deriving Repr, Inhabited

/-- A stretch of blocks that are shown together. -/
structure Span where
  id : String
  role : SpanRole
  startLine : Int
  endLine : Int
  opener : Option Opener := none
  visible : Bool := true
  index : Int := 0
  parentPath : Option Path := none
  isPartial : Bool := false
  blockPaths : List Path := []
  tokens : Int := 0
  deriving Repr, Inhabited

namespace Span

/-- The fields of a span by which it is compared; of its opener only the path counts. -/
def key (s : Span) : (String × SpanRole × Int × Int) × Option Path × Bool × Int × Option Path
    × Bool × List Path × Int :=
  ((s.id, s.role, s.startLine, s.endLine), s.opener.map (·.path), s.visible, s.index, s.parentPath,
    s.isPartial, s.blockPaths, s.tokens)

/-- Two spans are the same when all that can be read off them agrees. -/
instance : BEq Span where
  beq a b := a.key == b.key

/-- The span in one line. -/
def text (s : Span) : String :=
  s.id ++ " (" ++ s.role.label ++ ", " ++ Text.decimal s.tokens ++ " tokens)"

/-- The first block path that does not have the length of the parent's path; `none` inside if
there is no such path. -/
def firstInnerPath (s : Span) : Outcome (Option Path) :=
  match s.parentPath, s.blockPaths with
  | _, [] => .ok none
  | none, _ :: _ => .error (.noLength "NoneType")
  | some parent, paths => .ok (paths.find? fun p => p.length ≠ parent.length)

end Span

end CodeAtlas
