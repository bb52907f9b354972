import CodeAtlas.Block.Render
import CodeAtlas.Block.Chain
import CodeAtlas.Block.NameTree
import CodeAtlas.Block.NameGraph

/-!
# Outlines

An outline is a collection of blocks that is being edited.  Its blocks are numbered, and each
knows its children and its parent by number, so a block can be taken out, put elsewhere or hang at
two places, or even below itself.  `unfold` makes a `Block` of what hangs below a block; everything
that only looks at blocks is asked of it.

An edit that fails part-way leaves what it has done so far.

Names in the program: `insert_child`, `append_child`, `replace_children`, `replace_child` and
`remove_child` for `insertChild`, `appendChild`, `replaceChildren`, `replaceChild` and
`removeChild`; `replace_by_path` for `replaceAt`, `add_indentation` for `indentBy`,
`sync_indentation` for `alignIndentation`, `create_comment_block` for `addNote`, `structure_block`
for `enclosingStructure`, `full_path` for `path`, `last` for `lastLinked`, `get_indexed_blocks`
for `indexedBlocks`, `find_related_span_ids` for `relatedSpanIds`, `show_spans` for `hideSpans`
followed by `showSpan`.
-/

namespace CodeAtlas

/-- A numbered block of an outline. -/
structure OutlineEntry where
  data : BlockData
  parent : Option Nat := none
  children : List Nat := []
  /-- The number of the span it belongs to. -/
  span : Option Nat := none
  /-- What hangs there if it is no block. -/
  thing : Option Value := none
  deriving Inhabited

/-- Blocks and spans under edit. -/
structure Outline where
  entries : Array OutlineEntry := #[]
  spans : Array Span := #[]
  /-- The table of the module's spans: name and number. -/
  spanTable : List (String × Nat) := []
  /-- The blocks that are linked to a block before and after them, in a row. -/
  links : List Nat := []
  graph : Option NameGraph := none
  /-- Where the source of the module lies. -/
  filePath : Option String := none
  language : Option String := none
  deriving Inhabited

namespace Outline

/-! ## §1. Looking. -/

def parent? (o : Outline) (i : Nat) : Option Nat :=
  (o.entries[i]?).bind (·.parent)

def data (o : Outline) (i : Nat) : BlockData :=
  (o.entries[i]?.map (·.data)).getD default

def childrenOf (o : Outline) (i : Nat) : List Nat :=
  (o.entries[i]?.map (·.children)).getD []

/-- The blocks around a block, nearest first, and whether they come round in a circle; then each of
them stands once. -/
def around (o : Outline) (i : Nat) : List Nat × Bool :=
  go (o.entries.size + 1) [] i
where
  go : Nat → List Nat → Nat → List Nat × Bool
    | 0, _, _ => ([], true)
    | fuel + 1, seen, i =>
      match o.parent? i with
      | none => ([], false)
      | some p =>
        if seen.contains p then ([], true)
        else
          let (further, circles) := go fuel (p :: seen) p
          (p :: further, circles)

/-- All blocks around a block, nearest first. -/
def ancestors (o : Outline) (i : Nat) : Outcome (List Nat) :=
  let (above, circles) := o.around i
  if circles then .error .endless else .ok above

/-- The full path of a block. -/
def path (o : Outline) (i : Nat) : Outcome Path :=
  (o.ancestors i).map fun above => ((i :: above).reverse).flatMap fun j => (o.data j).namePath

/-- A span with what is known of the block that opened it. -/
def spanAt (o : Outline) (n : Nat) : Option Span := do
  let s ← o.spans[n]?
  match s.opener with
  | none => return s
  | some opener =>
    let pathOf (i : Nat) : Path := (o.path i).toOption.getD []
    return { s with
      opener := some { opener with
        kind := (o.data opener.block).kind, path := pathOf opener.block
        parentPath := (o.parent? opener.block).map pathOf } }

/-- The thing that hangs in the place of a block, if it is none. -/
def thing? (o : Outline) (i : Nat) : Option Value :=
  (o.entries[i]?).bind (·.thing)

/-- The block of a number as a value. -/
def valueOf (o : Outline) (i : Nat) : Value :=
  (o.thing? i).getD (.block i (o.data i).isModule)

/-- Has a block the path of the first block in the module around it?  A block that was taken out
still knows the module it was in, which may hold no blocks any more. -/
def opensModule (o : Outline) (i : Nat) : Outcome Bool :=
  match o.parent? i with
  | none => .error (.absent "type")
  | some p =>
    if (o.data p).kind ≠ .moduleDef then .ok false
    else
      match o.childrenOf p with
      | [] => .error .noItem
      | first :: _ => do
        if (o.thing? first).isSome then return false
        return (← o.path first) == (← o.path i)

/-- What is known of a block. -/
def infoOf (o : Outline) (i : Nat) : BlockInfo :=
  let entry := o.entries[i]?.getD default
  let path := (o.path i).toOption
  { entry.data with
    id := i, path := path.getD [], isLost := path.isNone, span := entry.span.bind o.spanAt
    opensModule := (o.opensModule i).toOption.getD false
    hurdle := entry.thing.map fun v => .foreign v.sort }

/-- What hangs below a block.  A block that lies below itself is a hurdle there. -/
def unfold (o : Outline) (i : Nat) : Block :=
  go (o.entries.size + 1) [] i
where
  go : Nat → List Nat → Nat → Block
    | 0, _, i => ⟨{ o.infoOf i with hurdle := some .loop }, []⟩
    | fuel + 1, above, i =>
      if above.contains i then ⟨{ o.infoOf i with hurdle := some .loop }, []⟩
      else ⟨o.infoOf i, (o.childrenOf i).map (go fuel (i :: above))⟩

/-- What hangs below a block, so many levels deep. -/
def glimpse (o : Outline) : Nat → Nat → Block
  | 0, i => ⟨o.infoOf i, []⟩
  | depth + 1, i => ⟨o.infoOf i, (o.childrenOf i).map (o.glimpse depth)⟩

/-- What hangs below a block, all of which is asked for the member. -/
def view (o : Outline) (i : Nat) (member : String) : Outcome Block := do
  let b := o.unfold i
  b.comeToAll member
  return b

/-- The tokens of a block and of the block right around it. -/
def tokensWithParent (o : Outline) (i : Nat) : Int :=
  (o.data i).tokens + ((o.parent? i).map fun p => (o.data p).tokens).getD 0

/-- The outermost block around a block. -/
def root (o : Outline) (i : Nat) : Outcome Nat :=
  (o.ancestors i).map fun above => above.getLastD i

/-- The nearest of some blocks for which the test holds; blocks in a circle have no last one. -/
def nearest (o : Outline) (blocks : List Nat × Bool) (p : BlockData → Bool) : Outcome (Option Nat) :=
  match blocks.1.find? fun j => p (o.data j) with
  | some j => .ok (some j)
  | none => if blocks.2 then .error .endless else .ok none

/-- The nearest block around a block for which the test holds. -/
def findAbove (o : Outline) (i : Nat) (p : BlockData → Bool) : Outcome (Option Nat) :=
  o.nearest (o.around i) p

/-- The nearest module, class, function or test: the block itself or one around it. -/
def enclosingStructure (o : Outline) (i : Nat) : Outcome (Option Nat) :=
  let (above, circles) := o.around i
  o.nearest (i :: above, circles) fun d => d.kind.isStructure

/-! ## §2. The row of linked blocks. -/

/-- The row that a block is linked into, and its place there.  A block without links is a row of
its own. -/
def chainAt (o : Outline) (i : Nat) : Chain × List Nat × Nat :=
  let row := if o.links.contains i then o.links else [i]
  (row.map fun j =>
      let d := o.data j
      { startLine := d.startLine, endLine := d.endLine, tokens := d.tokens },
    row, row.idxOf i)

def next? (o : Outline) (i : Nat) : Option Nat :=
  let (_, row, place) := o.chainAt i
  row[place + 1]?

def previous? (o : Outline) (i : Nat) : Option Nat :=
  let (_, row, place) := o.chainAt i
  if place = 0 then none else row[place - 1]?

/-- The outline with other units for lines and tokens, of which so many make one. -/
def inUnits (o : Outline) (lineUnits tokenUnits : Int) : Outline :=
  { o with
    entries := o.entries.map fun e =>
      { e with
        data := { e.data with
          startLine := e.data.startLine * lineUnits, endLine := e.data.endLine * lineUnits
          tokens := e.data.tokens * tokenUnits } } }

/-- The last block of the row. -/
def lastLinked (o : Outline) (i : Nat) : Nat :=
  (o.chainAt i).2.1.getLastD i

/-- Can a line be reached from a block within a budget of tokens? -/
def reachesLine (o : Outline) (i : Nat) (line budget : Int) : Outcome Bool :=
  let (chain, _, place) := o.chainAt i
  chain.reachesLine place line budget

/-- The last block on the way to a line. -/
def lastUntilLine (o : Outline) (i : Nat) (line budget : Int) : Outcome Nat :=
  let (chain, row, place) := o.chainAt i
  (chain.lastUntilLine place line budget).map fun p => row[p]?.getD i

def tokensPastLine (o : Outline) (i : Nat) (line : Int) : Int :=
  let (chain, _, place) := o.chainAt i
  chain.tokensPastLine place line

/-! ## §3. The module's spans. -/

/-- The span of the given name in the module's table. -/
def spanNamed? (o : Outline) (id : String) : Option Nat :=
  Assoc.get? id o.spanTable

/-- The span of the given name among all spans. -/
def spanNumber? (o : Outline) (id : String) : Option Nat :=
  o.spans.findIdx? fun s => s.id = id

/-- The module's own tokens and those of the given spans. -/
def tokensInSpans (o : Outline) (i : Nat) (spanIds : List String) : Int :=
  (o.data i).tokens + tally (fun id =>
    (((o.spanNamed? id).bind fun n => o.spans[n]?).map (·.tokens)).getD 0) spanIds

/-- The spans of the blocks that share a reference with the blocks of a span, and the heads of
the classes and the module they are in. -/
def relatedSpanIds (o : Outline) (i : Nat) (spanId : Option String) : Outcome (List String) := do
  let module ← o.view i "find_blocks_by_span_id"
  let blocks := spanId.elim [] module.blocksInSpan
  let near ← blocks.foldlM (fun ids b => do
    let graph ← o.graph.elim (.error (.absent "successors")) Except.ok
    let neighbours ← graph.neighbours (← o.path b.info.id).text
    let ids ← neighbours.foldlM (fun ids j => do
      match (o.infoOf j).span with
      | some s => return Assoc.insertNew s.id ids
      | none => throw (.absent "span_id")) ids
    match o.parent? b.info.id with
    | none => return ids
    | some p =>
      if (o.data p).kind ≠ .classDef then return ids
      else
        let ids := (b.info.span.map (·.id)).elim ids (Assoc.insertNew · ids)
        (o.childrenOf p).foldlM (fun ids j => do
          (o.glimpse 0 j).touch "belongs_to_span"
          match (o.infoOf j).span with
          | some s => return if s.role = .initiation then Assoc.insertNew s.id ids else ids
          | none => throw (.absent "span_type")) ids) []
  o.spanTable.foldlM (fun ids (_, n) => do
    match o.spanAt n with
    | none => return ids
    | some s =>
      match s.opener with
      | none => throw (.absent "type")
      | some opener =>
        return if opener.kind = .moduleDef && s.role = .initiation then Assoc.insertNew s.id ids
          else ids) near

/-! ## §4. Asking for what blocks do not keep. -/

/-- Blocks keep no mark that they are indexed, so the first block that is asked fails. -/
def indexedBlocks (o : Outline) (i : Nat) : Outcome (List Nat) :=
  match o.childrenOf i with
  | [] => .ok []
  | j :: _ => .error (.noMember ((o.valueOf j).sort) "is_indexed")

/-! ## §5. Editing. -/

/-- An edit: it may fail, and keeps what it has done before it fails. -/
abbrev Edit := ExceptT Failure (StateM Outline)

/-- Lifts a question about the outline. -/
def ask {α : Type} (question : Outline → Outcome α) : Edit α :=
  fun o => pure (question o, o)

/-- Changes a block. -/
def change (i : Nat) (f : OutlineEntry → OutlineEntry) : Edit Unit :=
  modify fun o => { o with entries := o.entries.modify i f }

/-- Changes the data of a block. -/
def changeData (i : Nat) (f : BlockData → BlockData) : Edit Unit :=
  change i fun e => { e with data := f e.data }

/-- Adds a block and gives its number. -/
def addEntry (e : OutlineEntry) : Edit Nat := do
  let o ← get
  set { o with entries := o.entries.push e }
  return o.entries.size

/-- The place in a list of `size` items that a signed position stands for, if there is one;
negative positions count from the end. -/
def place? (size : Nat) (position : Int) : Option Nat :=
  if 0 ≤ position then (if position < size then some position.toNat else none)
  else if 0 ≤ position + size then some (position + size).toNat
  else none

/-- The place nearest to a signed position. -/
def nearestPlace (size : Nat) (position : Int) : Nat :=
  if position < 0 then (position + size).toNat else min position.toNat size

/-- Nothing stands in front of the first child without a line break in between. -/
def makeRoom (i : Nat) : Edit Unit := do
  match (← get).childrenOf i with
  | [] => throw .noItem
  | first :: _ =>
    ask fun o => (o.glimpse 0 first).touch "pre_lines"
    changeData first fun d => if d.gapLines = 0 then { d with gapLines := 1 } else d

/-- Puts a child in front of the one at the position. -/
def insertChild (i : Nat) (position : Int) (child : Nat) : Edit Unit := do
  if position = 0 then makeRoom i
  let children := (← get).childrenOf i
  let at_ := nearestPlace children.length position
  change i fun e => { e with children := children.take at_ ++ child :: children.drop at_ }
  change child fun e => { e with parent := some i }

/-- Puts a child behind the others; its spans become the parent's. -/
def appendChild (i child : Nat) : Edit Unit := do
  let spanIds := ((← get).data child).spanIds
  change i fun e =>
    { e with
      children := e.children ++ [child]
      data := { e.data with spanIds := Assoc.union e.data.spanIds spanIds } }
  change child fun e => { e with parent := some i }

/-- Puts children in the place of those from `first` up to `last`, from the beginning or to the end
where there is no such bound. -/
def replaceChildren (i : Nat) (first last : Option Int) (children : List Nat) : Edit Unit := do
  let old := (← get).childrenOf i
  let before := (first.map (nearestPlace old.length)).getD old.length
  let after := (last.map (nearestPlace old.length)).getD 0
  change i fun e => { e with children := old.take before ++ children ++ old.drop after }

/-- Indents a block and those below it further.  Of the lines after the first only those that
begin with a blank are kept. -/
def indentData (more : String) (d : BlockData) : BlockData :=
  let indentation := if d.gapLines = 0 then d.indentation else d.indentation ++ more
  let content :=
    match Text.lines d.content with
    | [] | [_] => d.content
    | first :: rest =>
      first ++ String.join ((rest.filter (Text.beginsWith " ")).map fun line => "\n" ++ more ++ line)
  { d with indentation, content }

/-- Does something to a block and to all below it. -/
def changeAll (i : Nat) (f : Block → Edit Unit) : Edit Unit := do
  let b := (← get).unfold i
  b.preorder.forM fun c => do
    ask fun _ => c.touch "add_indentation"
    ask fun _ => c.enter
    f c

def indentBy (i : Nat) (more : String) : Edit Unit :=
  changeAll i fun c => changeData c.info.id (indentData more)

/-- Brings the indentation of a block that replaces another one in line with it. -/
def alignIndentation (i replaced child : Nat) : Edit Unit := do
  let o ← get
  match o.parent? child with
  | none => throw (.absent "indentation")
  | some parent =>
    let width (j : Nat) : Nat := Text.length (o.data j).indentation
    let wanted := width replaced + width i
    let present := width child + width parent
    if wanted = present && width child = 0 then
      changeData child fun d => { d with indentation := Text.replicate wanted " " }
    else if present < wanted then
      indentBy child (Text.replicate ((wanted - present : Nat) : Int) " ")

/-- Puts a child in the place of the one at the position; it takes over the gap in front. -/
def replaceChild (i : Nat) (position : Int) (child : Nat) : Edit Unit := do
  let o ← get
  let children := o.childrenOf i
  match (place? children.length position).bind fun p => (children[p]?).map ((p, ·)) with
  | none => throw .noItem
  | some (p, replaced) =>
    ask fun o => (o.glimpse 0 replaced).touch "pre_code"
    let old := o.data replaced
    changeData child fun d => { d with gap := old.gap, gapLines := old.gapLines }
    alignIndentation i replaced child
    change i fun e => { e with children := e.children.set p child }
    change child fun e => { e with parent := some i }

def removeChild (i : Nat) (position : Int) : Edit Unit := do
  let children := (← get).childrenOf i
  match place? children.length position with
  | none => throw .noItemToReplace
  | some p => change i fun e => { e with children := children.eraseIdx p }

/-- The name of a child. -/
def nameOf (o : Outline) (j : Nat) : Outcome (Option String) := do
  (o.glimpse 0 j).touch "identifier"
  return (o.data j).name

/-- The place of the first child of a name. -/
def placeOf (o : Outline) (name : Option String) : Nat → List Nat → Outcome (Option Nat)
  | _, [] => .ok none
  | p, j :: rest => do
    if (← o.nameOf j) = name then return some p
    o.placeOf name (p + 1) rest

/-- Does `put` at the place that a row of names leads to; at every level but the last all children
of the name are followed. -/
def replaceAt (put : Nat → Int → Edit Unit) : List (Option String) → Nat → Edit Unit
  | [], _ => pure ()
  | [name], i => do
    match ← ask fun o => o.placeOf name 0 (o.childrenOf i) with
    | some p => put i p
    | none => pure ()
  | name :: rest, i => do
    ((← get).childrenOf i).forM fun j => do
      if (← ask (·.nameOf j)) = name then replaceAt put rest j

/-- A comment block that hangs at a block without being one of its children. -/
def addNote (i : Nat) (kind : BlockKind) (note : String) (gapLines : Int) : Edit Nat := do
  let d := (← get).data i
  addEntry { data := d.noteBlock kind note gapLines, parent := some i }

/-- Hides all spans of the module. -/
def hideSpans : Edit Unit :=
  modify fun o =>
    { o with
      spans := o.spanTable.foldl (fun spans (_, n) =>
        spans.modify n fun s => { s with visible := false }) o.spans }

/-- Shows a span of the module; tells whether there is such a span. -/
def showSpan (id : String) : Edit Bool := do
  match (← get).spanNamed? id with
  | none => return false
  | some n =>
    modify fun o => { o with spans := o.spans.modify n fun s => { s with visible := true } }
    return true

/-! ## §6. Building. -/

/-- What a new block is made from. -/
structure BlockSpec where
  /-- The parts of the block that are records of their own, unless one of them breaks the rules. -/
  parts : Outcome BlockParts
  /-- The data besides these parts, unless they break the rules of a record. -/
  data : Outcome BlockData
  /-- The name of the span it belongs to. -/
  span : Option String := none
  children : List BlockSpec := []

mutual
/-- Adds a block with all below it and gives its number; the numbers run in document order.  Its
parts are checked before the blocks below it, its data after them. -/
def addSpec (parent : Option Nat) : BlockSpec → Edit Nat
  | ⟨parts, data, _, children⟩ => do
    let i ← addEntry { data := default, parent }
    let parts ← ask fun _ => parts
    let numbers ← addSpecs i children
    let made ← ask fun _ => data.bind fun d => (parts.into d).make
    change i fun e => { e with data := made, children := numbers }
    return i

def addSpecs (parent : Nat) : List BlockSpec → Edit (List Nat)
  | [] => pure []
  | s :: rest => do
    let i ← addSpec (some parent) s
    return i :: (← addSpecs parent rest)
end

mutual
/-- The span names of a block and of all below it, in document order. -/
def BlockSpec.spanNames : BlockSpec → List (Option String)
  | ⟨_, _, span, children⟩ => span :: spanNamesAll children

def BlockSpec.spanNamesAll : List BlockSpec → List (Option String)
  | [] => []
  | s :: rest => s.spanNames ++ spanNamesAll rest
end

/-- Gives the blocks the spans of the given names, block by block from the first. -/
def assignSpans (names : List (Option String)) : Edit Unit :=
  names.zipIdx.forM fun (name, i) =>
    match name with
    | none => pure ()
    | some id => do
      match (← get).spanNumber? id with
      | none => throw (.noEntry (Text.quoted id))
      | some n => change i fun e => { e with span := some n }

/-- Gives the outline its spans.  Of spans with one name the last one counts, in the place of the
first. -/
def withSpans (o : Outline) (spans : List Span) : Outline :=
  { o with spans := ((spans.foldl (fun t s => Assoc.put s.id s t) []).map (·.2)).toArray }

/-- Makes the first block a module that keeps a table of all spans. -/
def asModule (o : Outline) : Outline :=
  { o with
    entries := o.entries.modify 0 fun e => { e with data := { e.data with isModule := true } }
    spanTable := (o.spans.toList.zipIdx).map fun (s, n) => (s.id, n) }

/-- Gives the outline the graph of the names of its blocks, the first one apart. -/
def withEdges (o : Outline) (edges : List (String × String)) : Outcome Outline := do
  let g ← ((List.range o.entries.size).drop 1).foldlM (fun (g : NameGraph) (i : Nat) => do
    return g.addBlock (← o.path i).text i) {}
  return { o with graph := some (edges.foldl (fun g (a, b) => g.addEdge a b) g) }

/-- Links the blocks in document order. -/
def linked (o : Outline) : Outline :=
  { o with links := List.range o.entries.size }

end Outline

end CodeAtlas
