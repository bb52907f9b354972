import CodeAtlas.Block.Outline
import CodeAtlas.Block.Record

/-!
# Questions about blocks

Questions that are asked of a block in an outline with values of any sort.  Each comes down to a
search, a walk or a view of the blocks once its values are read; a value that cannot be used makes
the question fail only where the search comes to look at it.

Names in the program: `find_reference` for `resolve`, `get_blocks` for `indexableBlocks`,
`get_children` for `childrenExcept`, `has_any_block` for `leadsToAny`, `has_content` for
`mentions`, `_build_path_tree` for `nameTree`, `find_span_by_id` for `spanNamed`; the others ask
for a search, a walk or a view of the same name.
-/

namespace CodeAtlas.Question

/-! ## §1. Answers. -/

def ofBlocks (l : List Block) : Value :=
  .list (l.map Block.value)

def ofBlock? (b : Option Block) : Value :=
  Value.ofOption Block.value b

/-- The blocks of a row of numbers as a value. -/
def ofNumbers (o : Outline) (l : List Nat) : Value :=
  .list (l.map o.valueOf)

def ofNumber? (o : Outline) (i : Option Nat) : Value :=
  Value.ofOption o.valueOf i

def ofRecord (j : Json) : Value :=
  .table j.fields

/-- The source of a block. -/
def source (o : Outline) (i : Nat) : Outcome String :=
  (o.view i "_to_string").map Block.text

/-- A value inside a text; a block is its source there. -/
def say (o : Outline) (v : Value) : Outcome String :=
  match v with
  | .block i _ => source o i
  | .span id => .ok ((((o.spanNumber? id).bind fun n => o.spans[n]?).map Span.text).getD id)
  | v => .ok v.said

/-! ## §2. Names and kinds. -/

/-- Comes to the children on a way, at each level up to the first one of the name. -/
def checkWay : List (Option String) → Block → Outcome Unit
  | [], _ => .ok ()
  | name :: rest, b => do
    let here := b.children.takeWhile fun c => c.info.hurdle.isNone && c.info.name ≠ name
    match b.children.drop here.length with
    | [] => return
    | c :: _ =>
      c.touch "identifier"
      checkWay rest c

/-- The block that a row of names leads to from a block. -/
def followNames (o : Outline) (i : Nat) (names : List (Option String)) : Outcome (Option Block) := do
  let b := o.glimpse names.length i
  checkWay names b
  return b.followNames names

/-- The block that a path leads to. -/
def follow (o : Outline) (i : Nat) (path : Value) : Outcome Value := do
  match path with
  | .nothing => return .nothing
  | path =>
    if !path.isTruthy then return o.valueOf i
    match o.childrenOf i with
    | [] => return .nothing
    | first :: _ =>
      (o.glimpse 0 first).touch "identifier"
      match ← path.path? with
      | some names => return ofBlock? (← followNames o i names)
      | none =>
        (o.unfold i).children.forM (Block.touch "identifier")
        return .nothing

/-- The first child of a name, and of a kind if one is given, or the first block below. -/
def findByName (o : Outline) (i : Nat) (name kind anywhere : Value) : Outcome Value := do
  let b := o.unfold i
  let isWanted (c : Block) : Bool :=
    (name.name?.any fun n => c.info.name = n) && (!kind.isTruthy || kind.kind? = some c.info.kind)
  if anywhere.isTruthy then Block.come "identifier" isWanted b.descendants
  else discard (b.walk "identifier" fun c => .ok (if isWanted c then .found else .skip))
  if kind.isTruthy && kind.kind?.isNone then return .nothing
  return ofBlock? (name.name?.bind fun n => b.findByName n kind.kind? anywhere.isTruthy)

/-- All blocks below with a name. -/
def blocksNamed (o : Outline) (i : Nat) (name : Value) : Outcome Value := do
  let b ← o.view i "identifier"
  return ofBlocks ((name.name?.map b.blocksNamed).getD [])

def findByKind (o : Outline) (i : Nat) (kind : Value) : Outcome Value := do
  let b := o.unfold i
  Block.come "find_block_by_type" (fun c => kind.kind? = some c.info.kind) b.preorder
  return ofBlock? (kind.kind?.bind b.findByKind)

/-- The nearest block around a block that is of a kind. -/
def findKindAbove (o : Outline) (i : Nat) (kind : Value) : Outcome Value :=
  (o.findAbove i fun d => kind.kind? = some d.kind).map (ofNumber? o)

/-- The nearest block around a block whose kind is of a group. -/
def findGroupAbove (o : Outline) (i : Nat) (group : Value) : Outcome Value :=
  (o.findAbove i fun d => group.text? = some d.kind.group.label).map (ofNumber? o)

/-- The children that are of none of the kinds. -/
def childrenExcept (o : Outline) (i : Nat) (kinds : Value) : Outcome Value := do
  let b := o.unfold i
  let kept ← b.children.filterM fun c => do
    c.touch "type"
    return !(← kinds.kinds).contains c.info.kind
  return ofBlocks kept

def blocksOfKinds (o : Outline) (i : Nat) (kinds : Value) : Outcome Value := do
  let kinds ← kinds.kinds
  return ofBlocks ((← o.view i "find_blocks_with_types").blocksOfKinds kinds)

/-- Is a block or one below it of the kinds? -/
def blockHasKinds (kinds : List BlockKind) (b : Block) : Outcome Bool := do
  Block.come "has_blocks_with_types" (fun c => kinds.contains c.info.kind) b.preorder
  return b.hasKinds kinds

def hasKinds (o : Outline) (i : Nat) (kinds : Value) : Outcome Value := do
  return .flag (← blockHasKinds (← kinds.kinds) (o.unfold i))

/-- Is no code left out, in a block and below it? -/
def blockIsComplete (b : Block) : Outcome Bool := do
  Block.come "is_complete" (fun c => c.info.kind = .placeholder) b.preorder
  return b.isComplete

def isComplete (o : Outline) (i : Nat) : Outcome Value := do
  return .flag (← blockIsComplete (o.unfold i))

/-- The blocks below that are of the kinds and have code left out. -/
def incompleteBlocks (o : Outline) (i : Nat) (kinds : Value) : Outcome Value := do
  let b := o.unfold i
  let _ ← b.walk "type" fun c => do
    if (← kinds.kinds).contains c.info.kind then discard (blockIsComplete c)
    return .down
  if b.children.isEmpty then return .list []
  return ofBlocks (b.incompleteBlocks (← kinds.kinds))

mutual
/-- Comes to the blocks whose relationships are asked for. -/
def checkRelationships (excluded : Value) : Block → Outcome Unit
  | ⟨_, children⟩ => checkRelationshipsOf excluded children

def checkRelationshipsOf (excluded : Value) : List Block → Outcome Unit
  | [] => .ok ()
  | b :: bs => do
    if excluded.isTruthy then b.touch "type"
    let isExcluded ←
      if excluded.isTruthy then excluded.kinds.map (·.contains b.info.kind) else pure false
    if !isExcluded then
      b.touch "get_all_relationships"
      b.enter
      checkRelationships excluded b
    checkRelationshipsOf excluded bs
end

/-- The relationships of a block and of those below it, subtrees of the kinds apart. -/
def relationships (o : Outline) (i : Nat) (excluded : Value) : Outcome (List Relationship) := do
  let b := o.unfold i
  checkRelationships excluded b
  return b.allRelationships ((excluded.kinds.toOption).getD [])

def allRelationships (o : Outline) (i : Nat) (excluded : Value) : Outcome Value := do
  return .list ((← relationships o i excluded).map fun r => ofRecord r.toJson)

/-- The block and what its children have to say, if they have a name (where `named`) and are of the
kinds.  They have nothing to say, so the first of them fails. -/
def indexableBlocks (o : Outline) (i : Nat) (named kinds : Value) : Outcome Value := do
  (o.childrenOf i).forM fun j => do
    let c := o.glimpse 0 j
    if named.isTruthy then c.touch "identifier"
    if named.isTruthy && c.info.namePath.isEmpty then return
    if kinds.isTruthy then
      c.touch "type"
      if !(← kinds.kinds).contains c.info.kind then return
    throw (.noMember (o.valueOf j).sort "get_indexable_blocks")
  return .list [o.valueOf i]

/-- The reference that a path stands for, as seen among the children of one block; `names` are those
of the path if all its items are texts. -/
def referenceAmong (o : Outline) (kind : BlockKind) (path : Value) (names : Option Path) :
    List Nat → Outcome (Option Relationship)
  | [] => .ok none
  | j :: rest => do
    let info := o.infoOf j
    (o.glimpse 0 j).touch "type"
    let imported ←
      if info.kind = .importStmt && !info.relationships.isEmpty then do
        let _ ← path.length
        pure (info.relationships.find? fun r => names.any (Block.pathEndsIn r.path))
      else pure none
    match imported with
    | some r => return some r
    | none =>
      let own ← o.path j
      let _ ← path.length
      if names.any (Block.pathEndsIn own) then
        let scope :=
          match kind with
          | .classDef => RefScope.inClass
          | .moduleDef => RefScope.global
          | _ => RefScope.inBlock
        (Relationship.checked { scope, path := own }).map some
      else referenceAmong o kind path names rest

/-- The reference that a path stands for, as seen from a block: among its children first, then among
those of the blocks around it. -/
def resolve (o : Outline) (i : Nat) (path : Value) : Outcome Value := do
  let names :=
    match path with
    | .list items => items.mapM Value.text?
    | _ => none
  let (above, circles) := o.around i
  let found ← (i :: above).foldlM (fun found j =>
    match found with
    | some r => return some r
    | none => referenceAmong o (o.data j).kind path names (o.childrenOf j)) none
  if found.isNone && circles then throw .endless
  return Value.ofOption (fun r => ofRecord r.toJson) found

/-- The names of a dotted path.  With references wanted, a path that leads to a block fails if a
reference would have to be followed. -/
def namesOfPath (o : Outline) (i : Nat) (references : Bool) (path : String) : Outcome Path := do
  let names := Text.split '.' path
  if references && (← followNames o i (names.map some)).isSome then
    let excluded : Value :=
      if (o.data i).kind = .classDef then .list [.kind .functionDef, .kind .testCase] else .list []
    if (← relationships o i excluded).any fun r => r.scope ≠ .external then
      throw (.noMember (o.valueOf i).sort "_fix_reference_path")
  return names

/-- The tree of the given dotted paths; what counts as false and is no text is left out. -/
def nameTree (o : Outline) (i : Nat) (paths references : Value) : Outcome Value := do
  let tree ← (← paths.items).foldlM (fun (tree : NameTree) v => do
    match v.text? with
    | some "" => return { tree with shown := true }
    | some p => return tree.add (← namesOfPath o i references.isTruthy p)
    | none => if v.isTruthy then throw (.noMember v.sort "split") else return tree) NameTree.empty
  return ofRecord tree.toJson

/-- Does the block lie on the way to one of the others? -/
def leadsToAny (o : Outline) (i : Nat) (others : Value) : Outcome Value := do
  let rec search : List Value → Outcome Bool
    | [] => .ok false
    | .block j _ :: rest => do
      let other ← o.path j
      let path ← o.path i
      if other.take path.length = path then return true else search rest
    | v :: _ => .error (.noMember v.sort "full_path")
  return .flag (← search (← others.items))

/-- Has the block the path of the other one? -/
def isSameBlock (o : Outline) (i : Nat) (other : Value) : Outcome Value := do
  match other with
  | .block j _ => return .flag ((← o.path i) == (← o.path j))
  | _ => return .flag false

/-! ## §3. Spans. -/

def blocksInSpan (o : Outline) (i : Nat) (spanId : Value) : Outcome Value := do
  let b ← o.view i "find_blocks_by_span_id"
  return ofBlocks ((spanId.text?.map b.blocksInSpan).getD [])

def firstInSpan (o : Outline) (i : Nat) (spanId : Value) : Outcome Value := do
  let b := o.unfold i
  Block.come "find_first_by_span_id" (fun c => spanId.text?.any c.info.inSpan) b.preorder
  return ofBlock? (spanId.text?.bind b.firstInSpan)

def lastInSpan (o : Outline) (i : Nat) (spanId : Value) : Outcome Value := do
  let b := o.unfold i
  Block.come "belongs_to_span" (fun c => spanId.text?.any c.info.inSpan)
    (Block.backwardPreorderAll b.children)
  return ofBlock? (spanId.text?.bind b.lastInSpan)

/-- The last block of another span before a span begins, where `last` is the best so far. -/
def lastBeforeSpan (o : Outline) (i : Nat) (spanId last : Value) : Outcome Value :=
  (o.unfold i).lastBeforeSpan spanId.text? last

/-- Does a block below belong to the span? -/
def meetsSpan (o : Outline) (i : Nat) (spanId : Value) : Outcome Value := do
  let name ← spanId.keyName?
  let b := o.unfold i
  b.comeToSpans
  return .flag (b.meetsSpans name.toList)

/-- Does a block below belong to one of the spans? -/
def meetsSpans (o : Outline) (i : Nat) (spanIds : Value) : Outcome Value := do
  let b := o.unfold i
  b.comeToSpans
  return .flag (b.meetsSpans (← spanIds.memberNames))

/-- Does a block below belong to a span that is shown? -/
def hasVisibleDescendant (o : Outline) (i : Nat) : Outcome Value := do
  let b := o.unfold i
  Block.come "is_visible" (fun c => c.info.isVisible) b.descendants
  return .flag b.hasVisibleDescendant

/-- Does the block itself belong to one of the spans? -/
def inAnySpan (o : Outline) (i : Nat) (spanIds : Value) : Outcome Value := do
  match (o.infoOf i).span with
  | none => return .nothing
  | some s => return .flag (← spanIds.holds s.id)

/-- The names of the spans that a block (where `itself`) and those below it belong to. -/
def allSpanIds (o : Outline) (i : Nat) (itself : Value) : Outcome Value := do
  return Value.textSet ((← o.view i "get_all_span_ids").allSpanIds itself.isTruthy)

/-- The span of a name in the table of the module. -/
def spanNamed (o : Outline) (_ : Nat) (spanId : Value) : Outcome Value := do
  return Value.ofOption (fun id => if (o.spanNamed? id).isSome then .span id else .nothing)
    (← spanId.keyName?)

def relatedSpanIds (o : Outline) (i : Nat) (spanId : Value) : Outcome Value :=
  (o.relatedSpanIds i spanId.text?).map Value.textSet

/-- The tokens of a block and of all below it; of a module also its own and those of given spans. -/
def totalTokens (o : Outline) (i : Nat) (spanIds : Value) : Outcome Value := do
  if spanIds.isTruthy then
    let names ← (← spanIds.items).mapM Value.keyName?
    return .whole (o.tokensInSpans i (names.filterMap id))
  else return .whole (← o.view i "sum_tokens").totalTokens

/-- What a search for a text does at a block.  Subtrees that the span does not reach into are left
out. -/
def mentionStep (query spanId : Value) (b : Block) : Outcome Block.Step := do
  if b.info.content ≠ "" then
    match query.text? with
    | none => throw (.notInText query.sort)
    | some text =>
      if Text.contains text b.info.content
          && (!spanId.isTruthy || spanId.text?.any b.info.inSpan) then
        return .found
  if spanId.isTruthy then
    let name ← spanId.keyName?
    b.comeToSpans
    if !b.meetsSpans name.toList then return .skip
  return .down

/-- Does the block or one below it hold a text, inside a span if one is given? -/
def mentions (o : Outline) (i : Nat) (query spanId : Value) : Outcome Value := do
  let b := o.unfold i
  match ← mentionStep query spanId b with
  | .found => return .flag true
  | .down => return .flag (← b.walk "has_content" (mentionStep query spanId))
  | _ => return .flag false

/-! ## §4. Lines. -/

/-- Does the block share a line with the given ones? -/
def hasLines (o : Outline) (i : Nat) (first last : Value) : Outcome Value := do
  let d := o.data i
  if ← first.exceeds d.endLine then return .flag false
  return .flag !(← last.fallsBelow d.startLine)

/-- Does the block lie inside the given lines? -/
def withinLines (o : Outline) (i : Nat) (first last : Value) : Outcome Value := do
  let places := Value.placesOf [first, last]
  let d := (o.inUnits (Nat.pow 2 places) 1).data i
  if d.startLine < (← first.compared ">=" places) then return .flag false
  return .flag (d.endLine ≤ (← last.compared "<=" places))

/-- The first block below that starts at a line or later, or is a leaf that reaches it. -/
def firstFromLine (o : Outline) (i : Nat) (line : Value) : Outcome Value := do
  let places := Value.placesOf [line]
  let b := (o.inUnits (Nat.pow 2 places) 1).unfold i
  let _ ← b.walk "start_line" fun c => do
    let n ← line.compared ">=" places
    if n ≤ c.info.startLine then return .found
    if n ≤ c.info.endLine then return if c.isLeaf then .found else .down
    return .skip
  if b.children.isEmpty then return .nothing
  return ofBlock? (b.firstFromLine (← line.compared ">=" places))

mutual
/-- Comes to the blocks on the way to the last one up to a line; tells whether there is one. -/
def checkLastToLine (line : Int) (budget : Option Int) : Block → Outcome Bool
  | ⟨_, children⟩ => checkLastToLineIn line budget false children

def checkLastToLineIn (line : Int) (budget : Option Int) (hasLast : Bool) :
    List Block → Outcome Bool
  | [] => .ok false
  | b :: bs => do
    b.touch "start_line"
    let limit := budget.filter (· ≠ 0)
    if line < b.info.startLine || limit.any (· < b.info.tokens) then return hasLast
    let rest := limit.map (· - b.info.tokens)
    if line < b.info.endLine then
      b.enter
      if ← checkLastToLine line rest b then return true
    checkLastToLineIn line rest true bs
end

/-- The last block below that starts no later than a line, within a budget of tokens. -/
def lastToLine (o : Outline) (i : Nat) (line budget : Value) : Outcome Value := do
  let places := Value.placesOf [line]
  let tokenPlaces := Value.placesOf [budget]
  let b := (o.inUnits (Nat.pow 2 places) (Nat.pow 2 tokenPlaces)).unfold i
  match b.children with
  | [] => return .nothing
  | first :: _ =>
    first.touch "start_line"
    let n ← line.compared ">" places
    if n < first.info.startLine then return .nothing
    let limit ← if budget.isTruthy then (budget.compared ">" tokenPlaces).map some else pure none
    let _ ← checkLastToLine n limit b
    return ofBlock? (b.lastToLine n limit)

/-- The spans of the blocks below that share lines with the given ones; without a last line it is
the first. -/
def spansAtLines (o : Outline) (i : Nat) (first last : Value) : Outcome Value := do
  let last := if last == .nothing then first else last
  let places := Value.placesOf [first, last]
  let b := (o.inUnits (Nat.pow 2 places) 1).unfold i
  let _ ← b.walk "end_line" fun c => do
    if c.info.endLine < (← first.compared "<" places) then return .skip
    if (← last.compared ">" places) < c.info.startLine then return .leave
    return .down
  if b.children.isEmpty then return .list []
  let low ← first.compared "<" places
  if b.children.all fun c => c.info.endLine < low then return .list []
  return .list ((b.spansAtLines low (← last.compared ">" places)).map fun s => .span s.id)

/-- Can a line be reached from a block within a budget of tokens? -/
def reachesLine (o : Outline) (i : Nat) (line budget : Value) : Outcome Value := do
  let places := Value.placesOf [line]
  let tokenPlaces := Value.placesOf [budget]
  match budget.inUnits? tokenPlaces with
  | none => throw (.notOrdered "<=" budget.sort "int")
  | some limit =>
    if limit ≤ 0 then return .flag false
    let n ← line.compared "<" places
    return .flag (← (o.inUnits (Nat.pow 2 places) (Nat.pow 2 tokenPlaces)).reachesLine i n limit)

/-- The last block on the way to a line.  The budget is looked at where the walk could go on. -/
def lastUntilLine (o : Outline) (i : Nat) (line budget : Value) : Outcome Value := do
  let places := Value.placesOf [line]
  let tokenPlaces := Value.placesOf [budget]
  let scaled := o.inUnits (Nat.pow 2 places) (Nat.pow 2 tokenPlaces)
  let n ← line.compared "<" places
  match budget.inUnits? tokenPlaces with
  | some limit => return o.valueOf (← scaled.lastUntilLine i n limit)
  | none =>
    let wrong : Failure := .notOrdered ">" "int" budget.sort
    if (scaled.data i).endLine < n then
      match o.next? i with
      | none => return o.valueOf i
      | some next => if n < (scaled.data next).startLine then return o.valueOf i else throw wrong
    else
      match o.previous? i with
      | none => return o.valueOf i
      | some previous =>
        if (scaled.data previous).endLine < n then return o.valueOf i
        else if (o.next? i).isNone then throw (.absent "tokens")
        else throw wrong

/-- The tokens from a line up to and including a block. -/
def tokensPastLine (o : Outline) (i : Nat) (line : Value) : Outcome Value := do
  let places := Value.placesOf [line]
  if (o.previous? i).isNone then return .whole (o.data i).tokens
  let n ← line.compared "<" places
  return .whole ((o.inUnits (Nat.pow 2 places) 1).tokensPastLine i n)

/-! ## §5. Views. -/

/-- What a selection of the source is asked with. -/
structure Selection where
  spanIds : Value := .nothing
  firstLine : Value := .nothing
  lastLine : Value := .nothing
  markHidden : Value := .flag true
  note : Value := .text "..."
  showSpanIds : Value := .nothing
  /-- The span shown last. -/
  current : Value := .nothing
  lineNumbers : Value := .nothing
  excluded : Value := .nothing
  included : Value := .nothing

namespace Selection

/-- Are the lines of a selection limited? -/
def isLimited (s : Selection) : Bool :=
  s.firstLine.isTruthy && s.lastLine.isTruthy

/-- Is the child part of the selection?  What is asked first can spare what comes after it. -/
def admits (o : Outline) (s : Selection) (b : Block) : Outcome Bool := do
  if s.excluded.isTruthy then
    b.touch "type"
    if (← s.excluded.kinds).contains b.info.kind then return false
  if s.spanIds.isTruthy then
    b.touch "has_any_span"
    b.comeToSpans
    if !b.meetsSpans (← s.spanIds.memberNames) then return false
  if s.included.isTruthy then
    b.touch "has_blocks_with_types"
    if !(← blockHasKinds (← s.included.kinds) b) then return false
  if s.isLimited then
    b.touch "has_lines"
    let shares ← hasLines o b.info.id s.firstLine s.lastLine
    if shares.isTruthy then return true
    return (← withinLines o b.info.id s.firstLine s.lastLine).isTruthy
  return true

mutual
/-- Asks for each block below whether it is selected, and if so, whether it opens its module. -/
def check (o : Outline) (s : Selection) : Block → Outcome Unit
  | ⟨_, children⟩ => checkAll o s children

def checkAll (o : Outline) (s : Selection) : List Block → Outcome Unit
  | [] => .ok ()
  | b :: bs => do
    if ← admits o s b then
      b.touch "belongs_to_span"
      let _ ← o.opensModule b.info.id
      b.enter
      check o s b
    checkAll o s bs
end

/-- A line as the nearest whole one on the side of `up`. -/
def wholeLine (up : Bool) (v : Value) : Int :=
  match v.binary? with
  | none => 0
  | some (n, places) =>
    if up then -((-n) / Nat.pow 2 places) else n / Nat.pow 2 places

/-- The options of a selection whose values can be used. -/
def options (o : Outline) (s : Selection) : Outcome Block.PromptOptions := do
  let read {α : Type} (v : Value) (f : Value → Outcome α) : Option α :=
    if v.isTruthy then (f v).toOption else none
  return {
    spanIds := read s.spanIds Value.memberNames
    lines := if s.isLimited then some (wholeLine true s.firstLine, wholeLine false s.lastLine) else none
    markHidden := s.markHidden.isTruthy
    note := ← say o s.note
    markEnd := s.note.isTruthy
    showSpanIds := s.showSpanIds.isTruthy
    lineNumbers := s.lineNumbers.isTruthy
    excluded := (read s.excluded Value.kinds).getD []
    included := read s.included Value.kinds }

end Selection

/-- The selected blocks below a block. -/
def prompt (o : Outline) (i : Nat) (s : Selection) : Outcome Value := do
  let b := o.unfold i
  s.check o b
  return .text (b.promptFrom (← s.options o) s.current.text?)

/-- The own text of a block, after a header that names its span if one is wanted. -/
def lonePrompt (o : Outline) (i : Nat) (withHeader heading lineNumbers : Value) : Outcome Value := do
  let marker :=
    match heading with
    | .heading h => some h
    | _ => none
  return .text (← Block.lonePrompt (o.opensModule i) lineNumbers.isTruthy withHeader.isTruthy marker
    (o.infoOf i))

/-- The drawn tree of a block. -/
def drawing (o : Outline) (i : Nat) (options : Block.OutlineOptions) (indent current : Value) :
    Outcome Value := do
  return .text (← (o.unfold i).outlineText options indent current)

end CodeAtlas.Question
