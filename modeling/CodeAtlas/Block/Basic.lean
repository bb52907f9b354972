import CodeAtlas.Block.Span
import CodeAtlas.Json.Basic
import CodeAtlas.Tally

/-!
# Code blocks

A `Block` is a tree of pieces of source code.  Each piece carries its own text (without that of
the blocks below it), the gap of blanks and line breaks in front of it, its lines, its token count
and the span it belongs to.  A block also carries its full path: the names of the blocks around it
and its own name.

The order in which a file shows its blocks is `preorder`: a block, then everything below it.

Names in the program: `CodeBlock` for `BlockData`, one piece, and `Block`, the tree;
`get_all_child_blocks` for `descendants`, `sum_tokens` for `totalTokens`, `has_lines` and
`is_within_lines` for `hasLines` and `withinLines`, `belongs_to_any_span` for `inAnySpan`,
`is_visible` for `isVisible`.
-/

namespace CodeAtlas

/-- A parameter of a function, with its type if one is written. -/
structure Parameter where
  name : String
  typeName : Option String
  deriving Repr, Inhabited

/-- What a block carries besides its place in the tree. -/
structure BlockData where
  kind : BlockKind
  content : String
  name : Option String := none
  parameters : List Parameter := []
  relationships : List Relationship := []
  /-- The spans that reach into the block, each once. -/
  spanIds : List String := []
  /-- The lines of the content, as they are shown. -/
  lines : List String := []
  startLine : Int := 0
  endLine : Int := 0
  properties : List (String × Json) := []
  /-- The blanks and line breaks in front of the block. -/
  gap : String := ""
  /-- How many line breaks stand in front of the block. -/
  gapLines : Int := 0
  indentation : String := ""
  tokens : Int := 0
  /-- What is wrong with the block. -/
  errors : List String := []
  /-- Is the block a whole module, with a table of spans? -/
  isModule : Bool := false
  deriving Inhabited

/-- The parts of a block that are records of their own. -/
structure BlockParts where
  parameters : List Parameter := []
  relationships : List Relationship := []
  /-- What is wrong with the block. -/
  errors : List String := []
  deriving Inhabited

/-- The block with these parts. -/
def BlockParts.into (p : BlockParts) (d : BlockData) : BlockData :=
  { d with parameters := p.parameters, relationships := p.relationships, errors := p.errors }

namespace BlockData

/-! ## §1. Making a block. -/

/-- The characters that may stand between two blocks. -/
def isGapChar (c : Char) : Bool :=
  c = ' ' || c = '\n' || c = '\\' || c = '\r'

/-- Sets the number of line breaks and the indentation from the gap: the indentation is what
follows the last line break, or the whole gap if there is none. -/
def measureGap (d : BlockData) : BlockData :=
  let pieces := Text.lines d.gap
  let breaks := pieces.length - 1
  { d with
    gapLines := breaks
    indentation := if breaks = 0 then d.gap else pieces.getLastD "" }

/-- Completes the data of a new block: the gap must be blank, it is measured unless line breaks
or indentation are given, and the lines are those of the content. -/
def make (d : BlockData) : Outcome BlockData :=
  if d.gap.toList.all isGapChar then
    let measured :=
      if d.gap ≠ "" ∧ d.indentation = "" ∧ d.gapLines = 0 then d.measureGap else d
    .ok { measured with lines := Text.lines d.content }
  else .error (.gapNotBlank d.kind.name d.content d.gap)

/-- What a block is called among the things that can fail to have a part. -/
def sortName (d : BlockData) : String :=
  if d.isModule then "Module" else "CodeBlock"

/-- The block's name as a path, empty if it has none. -/
def namePath (d : BlockData) : Path :=
  match d.name with
  | some "" | none => []
  | some n => [n]

/-! ## §2. The block's own text. -/

/-- A line after a line break; the first line is indented unless it is empty. -/
def brokenLines (indentation : String) : List String → String
  | [] => ""
  | first :: rest =>
    (if first = "" then "\n" else "\n" ++ indentation ++ first)
      ++ String.join (rest.map fun line => "\n" ++ line)

/-- The text of the block itself with the gap in front of it.  A block that starts on a line of
its own is written line by line, any other one as gap and content. -/
def ownText (d : BlockData) : String :=
  if d.gapLines = 0 then d.gap ++ d.content
  else Text.replicate (d.gapLines - 1) "\n" ++ brokenLines d.indentation d.lines

/-- The comment that a note is written as. -/
def commentText (note : String) : String :=
  "# " ++ note

/-- A comment block with the indentation of this one. -/
def noteBlock (d : BlockData) (kind : BlockKind) (note : String) (gapLines : Int) : BlockData :=
  { kind, content := commentText note, lines := Text.lines (commentText note)
    indentation := d.indentation, gapLines }

/-- The comment that stands in the place of code left out. -/
def placeholder (d : BlockData) (note : String) : BlockData :=
  d.noteBlock .placeholder note 1

/-! ## §3. Lines. -/

/-- Does the block share a line with the given ones? -/
def hasLines (d : BlockData) (first last : Int) : Bool :=
  !(d.endLine < first || last < d.startLine)

/-- Does the block lie inside the given lines? -/
def withinLines (d : BlockData) (first last : Int) : Bool :=
  first ≤ d.startLine && d.endLine ≤ last

end BlockData

/-- What keeps a walk along a tree of blocks from going on. -/
inductive Hurdle where
  /-- The block lies below itself; what is below it is not unfolded a second time. -/
  | loop
  /-- It is no block but a thing of another sort. -/
  | foreign (sort : String)
  deriving Repr, BEq, DecidableEq

/-- What a block in a tree carries: its data, its number, its full path and its span. -/
structure BlockInfo extends BlockData where
  id : Nat
  path : Path
  /-- Do the blocks around it never end, so that it has no path? -/
  isLost : Bool := false
  span : Option Span := none
  /-- Is it the first block of the module around it? -/
  opensModule : Bool := false
  hurdle : Option Hurdle := none
  deriving Inhabited

namespace BlockInfo

/-- Does the block belong to the span of this name? -/
def inSpan (i : BlockInfo) (spanId : String) : Bool :=
  match i.span with
  | some s => s.id = spanId
  | none => false

/-- Does the block belong to one of the spans? -/
def inAnySpan (i : BlockInfo) (spanIds : List String) : Bool :=
  match i.span with
  | some s => spanIds.contains s.id
  | none => false

/-- Does the block belong to a span that is shown? -/
def isVisible (i : BlockInfo) : Bool :=
  match i.span with
  | some s => s.visible
  | none => false

end BlockInfo

/-- A block with the blocks below it. -/
structure Block where
  info : BlockInfo
  children : List Block
  deriving Inhabited

namespace Block

/-! ## §4. The tree. -/

mutual
/-- The block and all blocks below it, in document order. -/
def preorder : Block → List Block
  | ⟨info, children⟩ => ⟨info, children⟩ :: preorderAll children

/-- The blocks of a row of trees, in document order. -/
def preorderAll : List Block → List Block
  | [] => []
  | b :: bs => preorder b ++ preorderAll bs
end

/-- All blocks below a block, in document order. -/
def descendants (b : Block) : List Block :=
  preorderAll b.children

mutual
/-- The block and all blocks below it, each after those below it. -/
def postorder : Block → List Block
  | ⟨info, children⟩ => postorderAll children ++ [⟨info, children⟩]

def postorderAll : List Block → List Block
  | [] => []
  | b :: bs => postorder b ++ postorderAll bs
end

mutual
/-- The block and all blocks below it, where later siblings come first. -/
def backwardPreorder : Block → List Block
  | ⟨info, children⟩ => ⟨info, children⟩ :: backwardPreorderAll children

def backwardPreorderAll : List Block → List Block
  | [] => []
  | b :: bs => backwardPreorderAll bs ++ backwardPreorder b
end

mutual
/-- Gives each block its full path, where `above` is the path of what the tree hangs below. -/
def place (above : Path) : Block → Block
  | ⟨info, children⟩ =>
    let path := above ++ info.namePath
    ⟨{ info with path }, placeAll path children⟩

def placeAll (above : Path) : List Block → List Block
  | [] => []
  | b :: bs => place above b :: placeAll above bs
end

mutual
/-- Gives each block the span that belongs to its number. -/
def assignSpans (spanOf : Nat → Option Span) : Block → Block
  | ⟨info, children⟩ => ⟨{ info with span := spanOf info.id }, assignSpansAll spanOf children⟩

def assignSpansAll (spanOf : Nat → Option Span) : List Block → List Block
  | [] => []
  | b :: bs => assignSpans spanOf b :: assignSpansAll spanOf bs
end

mutual
/-- The number of edges on the longest way down. -/
def height : Block → Nat
  | ⟨_, children⟩ => heightAll children

def heightAll : List Block → Nat
  | [] => 0
  | b :: bs => max (height b + 1) (heightAll bs)
end

/-- The tokens of the block and of all blocks below it. -/
def totalTokens (b : Block) : Int :=
  tally (fun d => d.info.tokens) b.preorder

end Block

end CodeAtlas
