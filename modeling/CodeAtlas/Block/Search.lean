import CodeAtlas.Block.Value
import CodeAtlas.Block.Walk

/-!
# Finding blocks

Searches in a tree of blocks: by name, path, kind, span and line.  Most of them are a filter along
the document order; the searches by line cut off what cannot hold an answer.

Names in the program: `find_by_path` for `follow`, `find_by_identifier` for `findByName`,
`find_blocks_with_identifier` for `blocksNamed`, `find_block_by_type` for `findByKind`,
`find_blocks_with_types` for `blocksOfKinds`, `find_incomplete_blocks_with_types` for
`incompleteBlocks`, `find_errors` for `errorBlocks`, `get_all_relationships` for
`allRelationships`, `get_all_span_ids` for `allSpanIds`, `has_any_span` for `meetsSpans`,
`find_blocks_by_span_id` for `blocksInSpan`, `find_last_before_span` for `lastBeforeSpan`,
`has_visible_children` for `hasVisibleDescendant`, `find_first_by_start_line` for `firstFromLine`,
`find_last_by_end_line` for `lastToLine`, `find_spans_by_line_numbers` for `spansAtLines`.
-/

namespace CodeAtlas.Block

/-! ## §1. By name and path. -/

/-- The block that a row of names leads to: at each level the first child of that name.  A block
without a name can be on the way as well. -/
def followNames : List (Option String) → Block → Option Block
  | [], b => some b
  | name :: rest, b =>
    match b.children.find? fun c => c.info.name = name with
    | some c => followNames rest c
    | none => none

/-- The block that a path leads to. -/
def follow (path : Path) (b : Block) : Option Block :=
  b.followNames (path.map some)

/-- The first child of the name (and kind, if one is given), or the first block below. -/
def findByName (b : Block) (name : Option String) (kind : Option BlockKind) (anywhere : Bool) :
    Option Block :=
  (if anywhere then b.descendants else b.children).find? fun c =>
    c.info.name = name && kind.all (· = c.info.kind)

/-- All blocks below with the name. -/
def blocksNamed (b : Block) (name : Option String) : List Block :=
  b.descendants.filter fun c => c.info.name = name

/-! ## §2. By kind. -/

/-- The first block of the kind, the block itself included. -/
def findByKind (b : Block) (kind : BlockKind) : Option Block :=
  b.preorder.find? fun c => c.info.kind = kind

/-- All blocks of the kinds, the block itself included. -/
def blocksOfKinds (b : Block) (kinds : List BlockKind) : List Block :=
  b.preorder.filter fun c => kinds.contains c.info.kind

def hasKinds (b : Block) (kinds : List BlockKind) : Bool :=
  b.preorder.any fun c => kinds.contains c.info.kind

/-- The children that are of none of the kinds. -/
def childrenExcept (b : Block) (kinds : List BlockKind) : List Block :=
  b.children.filter fun c => !kinds.contains c.info.kind

/-- Is no code left out, in the block and below it? -/
def isComplete (b : Block) : Bool :=
  b.preorder.all fun c => c.info.kind ≠ .placeholder

/-- The blocks below that are of the kinds and have code left out. -/
def incompleteBlocks (b : Block) (kinds : List BlockKind) : List Block :=
  b.descendants.filter fun c => kinds.contains c.info.kind && !c.isComplete

/-- The blocks that could not be parsed, each after those below it. -/
def errorBlocks (b : Block) : List Block :=
  b.postorder.filter fun c => c.info.kind = .error

/-- What is wrong with the block and with those below it. -/
def allErrors (b : Block) : List String :=
  b.preorder.flatMap fun c => c.info.errors

mutual
/-- The relationships of the block and of those below it, where whole subtrees of the excluded
kinds are left out. -/
def allRelationships (excluded : List BlockKind) : Block → List Relationship
  | ⟨info, children⟩ => info.relationships ++ allRelationshipsBelow excluded children

def allRelationshipsBelow (excluded : List BlockKind) : List Block → List Relationship
  | [] => []
  | b :: bs =>
    (if excluded.contains b.info.kind then [] else allRelationships excluded b)
      ++ allRelationshipsBelow excluded bs
end

/-! ## §3. By span. -/

/-- The names of the spans of the given blocks, each once. -/
def spanIdsOf (blocks : List Block) : List String :=
  Assoc.union [] (blocks.filterMap fun c => c.info.span.map (·.id))

/-- The names of the spans that the block (if `itself`) and those below it belong to. -/
def allSpanIds (b : Block) (itself : Bool) : List String :=
  spanIdsOf (if itself then b.preorder else b.descendants)

/-- Does a block below belong to one of the spans? -/
def meetsSpans (b : Block) (spanIds : List String) : Bool :=
  spanIds.any fun id => (b.allSpanIds false).contains id

def blocksInSpan (b : Block) (spanId : String) : List Block :=
  b.preorder.filter fun c => c.info.inSpan spanId

def firstInSpan (b : Block) (spanId : String) : Option Block :=
  b.preorder.find? fun c => c.info.inSpan spanId

/-- The first block below that belongs to the span when later siblings are looked at first. -/
def lastInSpan (b : Block) (spanId : String) : Option Block :=
  (backwardPreorderAll b.children).find? fun c => c.info.inSpan spanId

/-- The block as a value. -/
def value (b : Block) : Value :=
  .block b.info.id b.info.isModule

mutual
/-- The last block of another span before the given span begins.  `last` is the best so far, which
to begin with may be anything; what counts as false is no answer from further below. -/
def lastBeforeSpan (spanId : Option String) (last : Value) : Block → Outcome Value
  | ⟨info, children⟩ =>
    if spanId.any info.inSpan then .ok last else lastBeforeSpanIn spanId last children

def lastBeforeSpanIn (spanId : Option String) (last : Value) : List Block → Outcome Value
  | [] => .ok .nothing
  | b :: bs => do
    b.touch "belongs_to_span"
    if spanId.any b.info.inSpan then return last
    let last := if b.info.span.isSome then b.value else last
    b.enter
    let found ← lastBeforeSpan spanId last b
    if found.isTruthy then return found
    lastBeforeSpanIn spanId last bs
end

/-- Does a block below belong to a span that is shown? -/
def hasVisibleDescendant (b : Block) : Bool :=
  b.descendants.any fun c => c.info.isVisible

/-! ## §4. By line. -/

mutual
/-- The first block below that starts at the line or later, or is a leaf that reaches the line. -/
def firstFromLine (line : Int) : Block → Option Block
  | ⟨_, children⟩ => firstFromLineIn line children

def firstFromLineIn (line : Int) : List Block → Option Block
  | [] => none
  | b :: bs =>
    if line ≤ b.info.startLine then some b
    else if line ≤ b.info.endLine then
      if b.children.isEmpty then some b
      else
        match firstFromLine line b with
        | some found => some found
        | none => firstFromLineIn line bs
    else firstFromLineIn line bs
end

mutual
/-- The last block below that starts no later than the line, within a budget of tokens (none and
zero mean that there is no limit); nothing if all blocks do. -/
def lastToLine (line : Int) (budget : Option Int) : Block → Option Block
  | ⟨_, children⟩ => lastToLineIn line budget none children

def lastToLineIn (line : Int) (budget : Option Int) (last : Option Block) :
    List Block → Option Block
  | [] => none
  | b :: bs =>
    let limited := budget.any (· ≠ 0)
    if line < b.info.startLine || (limited && budget.any (· < b.info.tokens)) then last
    else
      let budget := if limited then budget.map (· - b.info.tokens) else budget
      if line < b.info.endLine then
        match lastToLine line budget b with
        | some found => some found
        | none => lastToLineIn line budget (some b) bs
      else lastToLineIn line budget (some b) bs
end

/-- Is the block's span to be listed for the lines: is the block a leaf, inside the lines, or
flush with one end of them? -/
def meetsLines (first last : Int) (b : Block) : Bool :=
  b.children.isEmpty || (first ≤ b.info.startLine && b.info.endLine ≤ last)
    || b.info.startLine = first || b.info.endLine = last

/-- Adds the spans that are not there yet. -/
def addNewSpans (spans more : List Span) : List Span :=
  more.foldl (fun acc s => if acc.contains s then acc else acc ++ [s]) spans

mutual
/-- The spans of the blocks below that share lines with the given ones. -/
def spansAtLines (first last : Int) : Block → List Span
  | ⟨_, children⟩ => spansAtLinesIn first last [] children

def spansAtLinesIn (first last : Int) (spans : List Span) : List Block → List Span
  | [] => spans
  | b :: bs =>
    if b.info.endLine < first then spansAtLinesIn first last spans bs
    else if last < b.info.startLine then spans
    else
      let own :=
        match b.info.span with
        | some s => if meetsLines first last b then spans ++ [s] else spans
        | none => spans
      spansAtLinesIn first last (addNewSpans own (spansAtLines first last b)) bs
end

/-! ## §5. By reference. -/

/-- Does the path end in the given names? -/
def pathEndsIn (path names : Path) : Bool :=
  path.drop (path.length - names.length) = names
end CodeAtlas.Block
