import CodeAtlas.Assoc
import CodeAtlas.Block.Basic

/-!
# The ledger of spans

While a file is read, every block is entered into a span: into the current one, or into a new one
that it opens.  The ledger keeps the spans, their names, and which block belongs to which span.

* `SpanNames.next` finds a name for a span: the path of the class or function around it, a label,
  and a running number if the name was used before.
* `roleAndLabel` and `opened?` decide what kind of span a block would open, and whether it does.
* `enter` writes a block into a span.

Names in the program: `_create_span_id` for `SpanNames.next`, `_create_new_span` for `opened?`.
-/

namespace CodeAtlas

/-! ## §1. Names of spans. -/

/-- How often each name has been asked for. -/
abbrev SpanNames := List (String × Nat)

/-- A word that tells spans of one block apart. -/
inductive SpanLabel where
  | docstring | imports
  deriving Repr, DecidableEq, Inhabited

def SpanLabel.text : SpanLabel → String
  | .docstring => "docstring"
  | .imports => "imports"

namespace SpanNames

/-- The name of a span before it is numbered. -/
def base (structurePath : Path) (label : Option SpanLabel) : String :=
  let path := structurePath.text
  match label with
  | some l => if path = "" then l.text else path ++ ":" ++ l.text
  | none => if path = "" then "impl" else path

/-- A name that has not been given out: the first span of a name has it plain, later ones are
numbered from 2. -/
def next (names : SpanNames) (structurePath : Path) (label : Option SpanLabel) : String × SpanNames :=
  let name := base structurePath label
  match Assoc.get? name names with
  | some n => (name ++ ":" ++ Nat.repr (n + 1), Assoc.put name (n + 1) names)
  | none => (name, Assoc.put name 1 names)

end SpanNames

/-! ## §2. The block to be entered. -/

/-- A block whose children are being read. -/
structure OpenBlock where
  id : Nat
  kind : BlockKind
  name : Option String
  path : Path
  relationships : List Relationship
  deriving Inhabited

/-- What decides the span of a new block. -/
structure NewBlock where
  id : Nat
  kind : BlockKind
  path : Path
  startLine : Int
  endLine : Int
  tokens : Int
  /-- The blocks around it, nearest first. -/
  above : List OpenBlock
  deriving Inhabited

namespace NewBlock

def parent (b : NewBlock) : OpenBlock :=
  b.above.headD default

/-- The path of the nearest module, class, function or test: the block itself or one around it. -/
def structurePath (b : NewBlock) : Path :=
  if b.kind.isStructure then b.path
  else ((b.above.find? fun a => a.kind.isStructure).map (·.path)).getD []

/-- The block as the opener of a span. -/
def asOpener (b : NewBlock) : Opener :=
  { block := b.id, kind := b.kind, path := b.path, parentPath := some b.parent.path }

/-- The block around it as the opener of a span. -/
def parentAsOpener (b : NewBlock) : Opener :=
  { block := b.parent.id, kind := b.parent.kind, path := b.parent.path
    parentPath := (b.above.drop 1).head?.map (·.path) }

end NewBlock

/-! ## §3. Which span a block opens. -/

/-- The kind of the block that opened a span. -/
def Span.openerKind (s : Span) : Option BlockKind :=
  s.opener.map (·.kind)

/-- The role that a block gives to the span it opens, and the label of that span. -/
def roleAndLabel (current : Option Span) (b : NewBlock) : SpanRole × Option SpanLabel :=
  let inModule (s : Span) : Bool := s.openerKind = some .moduleDef
  let documents :=
    b.kind = .comment &&
      current.all fun s => inModule s && (s.role ≠ .implementation || s.index = 0)
  let initiates :=
    b.kind = .classDef || b.kind = .constructorDef ||
      current.any fun s =>
        (s.openerKind = some .classDef || s.openerKind = some .constructorDef)
          && s.opener.bind (·.parentPath) ≠ some b.parent.path
          && s.role ≠ .implementation && b.kind ≠ .functionDef
  let heads := b.kind = .importStmt && current.all inModule
  if documents then (.documentation, some .docstring)
  else if initiates then (.initiation, none)
  else if heads then (.initiation, some .imports)
  else (.implementation, none)

/-- The span that a block opens, if it opens one, and whether the current span thereby covers
only a part of its block. -/
def opened? (limit : Int) (current : Option Span) (b : NewBlock) (id : String) (role : SpanRole) :
    Option Span × Bool :=
  let fresh : Span := { id, role, startLine := b.startLine, endLine := b.startLine }
  let own : Span := { fresh with opener := some b.asOpener, parentPath := some b.path }
  match current with
  | none =>
    if b.kind.isStructure then (some own, false)
    else
      (some { fresh with opener := some b.parentAsOpener, parentPath := some b.parent.path }, false)
  | some s =>
    let outer := s.parentPath.getD []
    if b.kind.isStructure && (b.parent.kind = .moduleDef || b.parent.kind = .classDef)
        && outer = b.parent.path then
      (some own, outer.length < b.path.length)
    else if b.parent.path.length < outer.length then
      let parentPath := if b.kind.isStructure then b.path else b.parent.path
      (some { own with parentPath := some parentPath }, false)
    else if limit < s.tokens + b.tokens && b.parent.kind = .moduleDef then
      (some { fresh with
          opener := s.opener, parentPath := s.parentPath, isPartial := true, index := s.index + 1 },
        true)
    else (none, false)

/-! ## §4. The ledger. -/

/-- The spans of a file as far as it has been read. -/
structure SpanLedger where
  spans : Array Span := #[]
  /-- The last span of each name, by the order of the names. -/
  table : List (String × Nat) := []
  names : SpanNames := []
  /-- The span of each block that has been entered. -/
  spanOf : List (Nat × Nat) := []
  deriving Inhabited

namespace SpanLedger

/-- The span that a block belongs to. -/
def spanOfBlock (l : SpanLedger) (block : Nat) : Option Span :=
  (Assoc.get? block l.spanOf).bind fun n => l.spans[n]?

def changeSpan (l : SpanLedger) (n : Nat) (f : Span → Span) : SpanLedger :=
  { l with spans := l.spans.modify n f }

/-- Writes a block into a span. -/
def enter (l : SpanLedger) (n block : Nat) (path : Path) (tokens : Int) : SpanLedger :=
  let l := l.changeSpan n fun s =>
    { s with blockPaths := s.blockPaths ++ [path], tokens := s.tokens + tokens }
  { l with spanOf := Assoc.put block n l.spanOf }

/-- Opens a span for a block or goes on with the current one; gives the number of the span. -/
def openFor (l : SpanLedger) (limit : Int) (current : Option Nat) (b : NewBlock) : Nat × SpanLedger :=
  let currentSpan := current.bind fun n => l.spans[n]?
  let (role, label) := roleAndLabel currentSpan b
  let (id, names) := l.names.next b.structurePath label
  let l := { l with names }
  match opened? limit currentSpan b id role with
  | (some span, cutsShort) =>
    let l := if cutsShort then current.elim l fun n => l.changeSpan n fun s =>
      { s with isPartial := true } else l
    let n := l.spans.size
    (n, { l with spans := l.spans.push span, table := Assoc.put id n l.table })
  | (none, _) =>
    let n := current.getD 0
    (n, l.changeSpan n fun s => { s with endLine := b.endLine })

/-- A block turned out to be of another kind; the spans it opened follow. -/
def rekind (l : SpanLedger) (block : Nat) (kind : BlockKind) : SpanLedger :=
  { l with
    spans := l.spans.map fun s =>
      match s.opener with
      | some o => if o.block = block then { s with opener := some { o with kind } } else s
      | none => s }

/-- The spans by the order of their names. -/
def toList (l : SpanLedger) : List Span :=
  l.table.filterMap fun (_, n) => l.spans[n]?

end SpanLedger

end CodeAtlas
