import CodeAtlas.Block.NameGraph
import CodeAtlas.Block.Outline
import CodeAtlas.Parse.Meaning
import CodeAtlas.Parse.Refine

/-!
# Reading a module

`parse` turns a source with its syntax tree into a tree of blocks.  Starting at the root, a node
becomes a block; the block's own text ends where the first block below it begins, and the blocks
below it follow each other from left to right.  A block may stop early (`child.last`), and then the
block around it goes on from there.

While blocks are made, each gets a name that its earlier siblings of the kind do not have, and is
entered into a span.  A comment waits for the next block and joins its span.

Names in the program: `parse_code` for `readNode`, `add_to_index` for `index`.
-/

namespace CodeAtlas.Parse

/-! ## §1. What is read, and how far. -/

/-- Everything that a reader looks at. -/
structure Setting where
  tree : SyntaxTree
  captures : CaptureTable
  dialect : Dialect := .python
  /-- Try the queries for generated code first? -/
  tweaked : Bool := false
  /-- How tokens are counted. -/
  tokenizer : Tokenizer := .words
  /-- More tokens than this are not put into one span of a module. -/
  spanLimit : Int := 500
  deriving Inhabited

/-- A comment that waits for its span. -/
structure Waiting where
  block : Nat
  path : Path
  tokens : Int
  deriving Inhabited

/-- What has been made so far. -/
structure Progress where
  /-- The nodes that have been made into blocks; the first block has number 0. -/
  visited : List Nat := []
  /-- The blocks that are linked in a row.  The next block is linked to the last of them. -/
  linked : List Nat := []
  ledger : SpanLedger := {}
  waiting : List Waiting := []
  graph : NameGraph := {}
  /-- The finished blocks right below the module. -/
  finished : List Block := []
  /-- The paths of all finished blocks. -/
  indexed : List String := []
  deriving Inhabited

/-- A step of reading. -/
abbrev Reading := StateT Progress (Except Failure)

/-- A block that has been read: the node at which it stopped early, and the span it ended in. -/
structure Read where
  block : Block
  last : Option Nat
  span : Option Nat
  deriving Inhabited

/-! ## §2. One block. -/

/-- The name that a block gets from its content or its kind. -/
def derivedName (kind : BlockKind) (content : String) : String :=
  if content = "" then kind.smallLabel
  else
    let start := Text.take 25 (Text.trim ((Text.lines content).headD ""))
    String.ofList (Text.collapse (fun c => !Text.isWordChar c) '_' false start.toList)

/-- The name of a block among its earlier siblings: its own or the derived one, numbered if one
of them has it. -/
def uniqueName (kind : BlockKind) (content : String) (own : Option String)
    (siblings : List (BlockKind × Option String)) : String :=
  let wanted :=
    match own with
    | some "" | none => derivedName kind content
    | some n => n
  let taken := (siblings.filter fun s => s.1 = kind).map (·.2)
  if taken.contains (some wanted) then own.getD "None" ++ "_" ++ Nat.repr taken.length else wanted

/-- The data of a block that a node makes, before it is named. -/
def blockData (s : Setting) (m : Meaning) (node : Nat) (start : Int) : Outcome BlockData := do
  let tree := s.tree
  let gap ← Source.cut tree.source start (tree.start node)
  let stop := m.firstChild.elim (tree.stop node) (tree.endBefore node)
  let content ← Source.cut tree.source (tree.start node) stop
  let name ← m.identifier.mapM tree.text
  let references ← m.relationships tree name
  let parameters ← m.typedParameters tree
  return {
    kind := m.kind.getD .code
    content, name, gap
    parameters := parameters.map (·.1)
    relationships := references ++ parameters.filterMap (·.2)
    startLine := (tree.startRow node + 1 : Nat)
    endLine := (tree.stopRow node + 1 : Nat)
    tokens := (s.tokenizer.count content : Nat)
    properties :=
      [("query", Json.ofOption .str m.query), ("tree_sitter_type", .str (tree.kind node))] }

/-- Does the right side of an assignment begin on a later row than the assignment? -/
def isBroken (s : Setting) (m : Meaning) : Bool :=
  match m.checked, m.firstChild with
  | some c, some f => s.tree.startRow c < s.tree.startRow f
  | _, _ => false

/-- The data of a block below the module, completed and named. -/
def namedData (s : Setting) (m : Meaning) (siblings : List (BlockKind × Option String))
    (raw : BlockData) : Outcome BlockData := do
  let d ← raw.make
  let kind := if s.dialect.refines then Refine.firstKind d.kind d.name else d.kind
  let lines :=
    if s.dialect.refines then Refine.continueLine kind (isBroken s m) d.lines else d.lines
  return { d with kind, lines, name := some (uniqueName kind d.content d.name siblings) }

/-! ## §3. Spans and names. -/

/-- The waiting comments join a span. -/
def settle (n : Nat) : Reading Unit :=
  modify fun p =>
    { p with
      ledger := p.waiting.foldl (fun l w => l.enter n w.block w.path w.tokens) p.ledger
      waiting := [] }

/-- Should a comment wait for the next block? -/
def waits (kind : BlockKind) (current : Option Span) : Bool :=
  kind = .comment && current.any fun s => s.role ≠ .documentation && 1 < s.blockPaths.length

/-- Enters a new block into a span, or lets it wait.  Gives the number of the span in which
reading goes on. -/
def enterBlock (s : Setting) (current : Option Nat) (b : NewBlock) : Reading (Option Nat) := do
  let p ← get
  if waits b.kind (current.bind fun n => p.ledger.spans[n]?) then
    let w : Waiting := { block := b.id, path := b.path, tokens := b.tokens }
    set { p with waiting := p.waiting ++ [w] }
    return current
  else
    let (n, ledger) := p.ledger.openFor s.spanLimit current b
    set { p with ledger }
    settle n
    modify fun p => { p with ledger := p.ledger.enter n b.id b.path b.tokens }
    return some n

/-- Writes a block and its references into the graph of names. -/
def recordNames (id : Nat) (path : Path) (relationships : List Relationship) : Reading Unit :=
  modify fun p =>
    { p with
      graph := relationships.foldl (fun g r => g.addEdge path.text r.path.text)
        (p.graph.addBlock path.text id) }

/-- The name of a span by its number. -/
def spanId? (p : Progress) (n : Option Nat) : Option String :=
  (n.bind fun n => p.ledger.spans[n]?).map (·.id)

/-! ## §4. The blocks below a block. -/

/-- What has been read below a block: the blocks, the span in which reading goes on, and how far
the source is used up. -/
structure Below where
  children : List Block := []
  span : Option Nat
  stop : Int
  deriving Inhabited

/-- The kinds and names of blocks. -/
def siblingNames (blocks : List Block) : List (BlockKind × Option String) :=
  blocks.map fun b => (b.info.kind, b.info.name)

/-- A block of statements counts for its first statement. -/
def enterBody (tree : SyntaxTree) (node : Nat) : Nat :=
  if tree.kind node = "block" then (tree.children node).headD node else node

/-- Where reading goes on after a node: at its right neighbour, or at that of a node around it
below `origin`. -/
def following (tree : SyntaxTree) (origin node : Nat) : Outcome (Option Nat) :=
  match tree.nextSibling? node with
  | some right => .ok (some right)
  | none => tree.nextWithin origin node

/-- Reads blocks one after the other, from a node up to the node `last` or the end of `origin`.
`readOne` reads one block.  Reading that comes along more nodes than there are never ends. -/
def readRow (s : Setting) (origin : Nat) (last : Option Nat) (atTop : Bool)
    (readOne : List (BlockKind × Option String) → Nat → Int → Option Nat → Reading Read) :
    Nat → Nat → Below → Reading (Below × Option Nat)
  | 0, _, _ => throw .endless
  | fuel + 1, node, below => do
    let node := enterBody s.tree node
    let read ← readOne (siblingNames below.children) node below.stop below.span
    if atTop then modify fun p => { p with finished := p.finished ++ [read.block] }
    let p ← get
    let span :=
      if below.span.isNone || spanId? p read.span ≠ spanId? p below.span then read.span
      else below.span
    let node := read.last.getD node
    let below : Below :=
      { children := below.children ++ [read.block], span, stop := s.tree.stop node }
    if some node = last then return (below, some node)
    match ← following s.tree origin node with
    | none => return (below, none)
    | some next => readRow s origin last atTop readOne fuel next below

/-- Reads the blocks below a block, if it has any. -/
def readBelow (s : Setting) (m : Meaning) (node : Nat) (atTop : Bool)
    (readOne : List (BlockKind × Option String) → Nat → Int → Option Nat → Reading Read)
    (span : Option Nat) : Reading (Below × Option Nat) :=
  match m.firstChild with
  | none => return ({ span, stop := s.tree.stop node }, none)
  | some first =>
    readRow s (m.checked.getD node) m.lastChild atTop readOne (s.tree.nodes.size + 1) first
      { span, stop := s.tree.endBefore node first }

/-! ## §5. Finishing a block. -/

/-- The comments that still wait join the current span; tells whether the block itself did. -/
def settleRest (id : Nat) (span : Option Nat) : Reading Bool := do
  let waited := (← get).waiting.any fun w => w.block = id
  match span with
  | some n => settle n
  | none => pure ()
  return waited

/-- Refines a block after the blocks below it have been read. -/
def finish (s : Setting) (above : List OpenBlock) (d : BlockData) (id : Nat) (children : List Block) :
    Reading (BlockData × List Block) := do
  if s.dialect.refines then
    let module : Block := ⟨{ d with id := 0, path := [], name := none }, (← get).finished⟩
    let kind := Refine.commentKind d.kind d.content
    let relationships := Refine.relationships kind above module d.name d.relationships
    let kind := Refine.bodyKind kind children
    if kind ≠ d.kind then modify fun p => { p with ledger := p.ledger.rekind id kind }
    return ({ d with kind, relationships }, Refine.markAllRepeats children)
  else return (d, children)

/-- Notes that a block is finished. -/
def index (path : Path) : Reading Unit :=
  modify fun p => { p with indexed := p.indexed ++ [path.text] }

/-- A node makes the block with the next number, which is linked to the block made before it. -/
def Progress.begun (p : Progress) (node : Nat) : Progress :=
  { p with visited := p.visited ++ [node], linked := p.linked ++ [p.visited.length] }

/-- The number of the block that a node makes. -/
def begin (node : Nat) : Reading Nat := do
  let p ← get
  set (p.begun node)
  return p.visited.length

/-! ## §6. Reading a node. -/

/-- Reads the block that a node makes, below the blocks `above` and after the siblings.  `start`
is where the gap in front of it begins, `current` the span before it.  Nodes inside each other
deeper than there are nodes have no end. -/
def readNode (s : Setting) : Nat → List OpenBlock → List (BlockKind × Option String) → Nat → Int →
    Option Nat → Reading Read
  | 0, _, _, _, _, _ => throw .endless
  | fuel + 1, above, siblings, node, start, current => do
    let m ← Meaning.ofNode s.tree s.captures s.dialect s.tweaked node
    let raw ← blockData s m node start
    let d ← namedData s m siblings raw
    let id ← begin node
    let path := (above.headD default).path ++ d.namePath
    let span ← enterBlock s current
      { id, kind := d.kind, path, startLine := d.startLine, endLine := d.endLine
        tokens := d.tokens, above }
    recordNames id path raw.relationships
    let own := if (← get).waiting.any fun w => w.block = id then none else span
    let opened : OpenBlock :=
      { id, kind := d.kind, name := d.name, path, relationships := d.relationships }
    let (below, last) ← readBelow s m node false (readNode s fuel (opened :: above)) span
    let waited ← settleRest id below.span
    let p ← get
    let spanIds := below.children.foldl (fun ids c => Assoc.union ids c.info.spanIds)
      (Assoc.union [] ((spanId? p own).toList
        ++ (if waited then (spanId? p below.span).toList else [])))
    let (d, children) ← finish s above { d with spanIds } id below.children
    index path
    return { block := ⟨{ d with id, path }, children⟩, last, span := below.span }

/-- Reads the module that the root makes: its blocks, and a block for the blanks at its end. -/
def readRoot (s : Setting) : Reading Block := do
  let tree := s.tree
  let m ← Meaning.ofNode tree s.captures s.dialect s.tweaked 0
  let raw ← blockData s m 0 0
  let id ← begin 0
  let d ← BlockData.make
    { kind := .moduleDef, content := "", startLine := raw.startLine, endLine := raw.endLine
      properties := raw.properties, isModule := true }
  let opened : OpenBlock :=
    { id, kind := .moduleDef, name := none, path := [], relationships := [] }
  let (below, _) ← readBelow s m 0 true (readNode s (tree.nodes.size + 1) [opened]) none
  let spanIds := below.children.foldl (fun ids c => Assoc.union ids c.info.spanIds) []
  let (d, children) ← finish s [] { d with spanIds } id below.children
  index []
  if below.stop < tree.stop 0 then
    let gap ← Source.cut tree.source below.stop (tree.stop 0)
    let space ← BlockData.make
      { kind := .space, content := "", gap, startLine := raw.endLine, endLine := raw.endLine }
    let spaceId := (← get).visited.length
    return ⟨{ d with id, path := [] }, children ++ [⟨{ space with id := spaceId, path := [] }, []⟩]⟩
  return ⟨{ d with id, path := [] }, children⟩

/-! ## §7. Modules. -/

/-- A module that has been read. -/
structure Module where
  root : Block
  ledger : SpanLedger
  graph : NameGraph
  /-- The nodes that were made into blocks, in the order of the blocks' numbers. -/
  visited : List Nat
  /-- The blocks that are linked in a row. -/
  linked : List Nat
  /-- The paths of the blocks, each after those below it. -/
  indexed : List String
  deriving Inhabited

/-- Reads a module. -/
def parse (s : Setting) : Outcome Module := do
  let (root, p) ← (readRoot s).run {}
  return {
    root := root.assignSpans p.ledger.spanOfBlock
    ledger := p.ledger, graph := p.graph, visited := p.visited, linked := p.linked
    indexed := p.indexed }

namespace Module

/-- The spans of the module, in the order of their names. -/
def spans (m : Module) : List Span :=
  m.ledger.toList

mutual
/-- The entries of a tree of blocks, in document order. -/
def entries (spanOf : Nat → Option Nat) (parent : Option Nat) : Block → List OutlineEntry
  | ⟨info, children⟩ =>
    { data := info.toBlockData, parent, children := children.map fun c => c.info.id
      span := spanOf info.id } :: entriesAll spanOf (some info.id) children

def entriesAll (spanOf : Nat → Option Nat) (parent : Option Nat) : List Block → List OutlineEntry
  | [] => []
  | b :: bs => entries spanOf parent b ++ entriesAll spanOf parent bs
end

/-- The module as an outline; its blocks are numbered in document order. -/
def toOutline (m : Module) : Outline :=
  { entries := (entries (fun i => Assoc.get? i m.ledger.spanOf) none m.root).toArray
    spans := m.ledger.spans
    spanTable := m.ledger.table
    links := m.linked
    graph := some m.graph }

end Module

end CodeAtlas.Parse
