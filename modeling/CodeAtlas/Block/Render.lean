import CodeAtlas.Block.Search
import CodeAtlas.Text.Blank
import CodeAtlas.Json.Writer

/-!
# Showing blocks

Three views of a tree of blocks.  `text` gives the source back.  `prompt` gives the source with
some blocks left out (a comment stands in their place), with line numbers and the names of spans
if wanted.  `outlineText` draws the tree, one coloured line for each block.

Names in the program: `to_string` for `text`, `to_prompt` for `prompt`, `_to_prompt_string` for
`lonePrompt`, `to_tree` for `outlineText`.
-/

namespace CodeAtlas.Block

/-! ## §1. The source. -/

/-- The text of the block and of all blocks below it. -/
def text (b : Block) : String :=
  String.join (b.preorder.map fun c => c.info.ownText)

/-! ## §2. A selection of the source. -/

/-- What a selection shows. -/
structure PromptOptions where
  /-- Only blocks that reach into one of these spans. -/
  spanIds : Option (List String) := none
  /-- Only blocks on these lines. -/
  lines : Option (Int × Int) := none
  /-- Mark the places where code is left out. -/
  markHidden : Bool := true
  /-- The words of the mark. -/
  note : String := "..."
  /-- Is there a mark after the last block? -/
  markEnd : Bool := true
  showSpanIds : Bool := false
  lineNumbers : Bool := false
  excluded : List BlockKind := []
  /-- Only blocks that are or hold blocks of these kinds. -/
  included : Option (List BlockKind) := none

/-- The number of a line as it stands in front of the line. -/
def lineMark (lineNumbers : Bool) (line : Int) : String :=
  if lineNumbers then Text.padRight 6 (Text.decimal line) else ""

/-- The name of a span in front of a block. -/
def spanMark (marker : SpanHeading) (spanId : String) (d : BlockData) : String :=
  match marker with
  | .comment => d.indentation ++ BlockData.commentText ("span_id: " ++ spanId)
  | .tag => "\n<span id='" ++ spanId ++ "'>"

/-- The lines in front of a block with a mark in them. -/
def headerWith (mark : String) (d : BlockData) : String :=
  "\n\n" ++ mark ++ (if d.gapLines = 0 then "\n" else "")

/-- The lines that name the span of a block. -/
def spanHeader (marker : SpanHeading) (spanId : String) (d : BlockData) : String :=
  headerWith (spanMark marker spanId d) d

/-- The line breaks in front of a block, each followed by the number of its line. -/
def brokenGap (lineNumbers : Bool) (d : BlockData) : String :=
  String.join ((List.range d.gapLines.toNat).map fun (i : Nat) =>
    "\n" ++ lineMark lineNumbers (d.startLine - d.gapLines + (i : Int) + 1))

/-- The lines of a block after its first. -/
def furtherLines (lineNumbers : Bool) (d : BlockData) : String :=
  String.join ((d.lines.tail.zipIdx).map fun (line, i) =>
    "\n" ++ lineMark lineNumbers (d.startLine + (i : Int) + 1) ++ line)

/-- A block's own text in a selection, after the header of its span if it has one.  `opens` says
that it is the first block of a module, which is not preceded by a line break. -/
def ownPrompt (opens lineNumbers : Bool) (header : String) (d : BlockData) : String :=
  header
    ++ (if opens then lineMark lineNumbers d.startLine else "")
    ++ brokenGap lineNumbers d ++ d.indentation ++ d.lines.headD "" ++ furtherLines lineNumbers d

/-- The own text of one block, after a header if one is wanted, in which the span is named if a
marker is given. -/
def lonePrompt (opens : Outcome Bool) (lineNumbers withHeader : Bool) (marker : Option SpanHeading)
    (info : BlockInfo) : Outcome String := do
  let mark ←
    match marker, info.span with
    | none, _ => pure ""
    | some m, some s => pure (spanMark m s.id info.toBlockData)
    | some _, none => if withHeader then throw (.absent "span_id") else pure ""
  let header := if withHeader then headerWith mark info.toBlockData else ""
  return ownPrompt (← opens) lineNumbers header info.toBlockData

/-- Is the child part of the selection? -/
def isSelected (o : PromptOptions) (b : Block) : Bool :=
  !o.excluded.contains b.info.kind
    && o.spanIds.all b.meetsSpans
    && o.included.all b.hasKinds
    && o.lines.all fun (first, last) => b.info.hasLines first last || b.info.withinLines first last

/-- The header of a block whose span differs from the one before it. -/
def headerFor (o : PromptOptions) (current : Option String) (info : BlockInfo) : String :=
  match info.span with
  | some s =>
    if o.showSpanIds && (current.all (· = "") || current ≠ some s.id) then
      spanHeader .comment s.id info.toBlockData
    else ""
  | none => ""

/-- The mark that stands for the code left out in front of a block or after it. -/
def hiddenMark (o : PromptOptions) (info : BlockInfo) : String :=
  (info.placeholder o.note).ownText

/-- The mark after the last child when code is left out at the end. -/
def closingNote (o : PromptOptions) (hidden : Bool) (last : Option BlockInfo) : String :=
  match last with
  | some info =>
    if o.markEnd && hidden && !info.kind.isComment && info.kind ≠ .space then
      (if o.lineNumbers then "\n.    " else "\n") ++ hiddenMark o info ++ "\n"
    else ""
  | none => ""

mutual
/-- The selected blocks below a block, where `current` is the span shown last. -/
def promptFrom (o : PromptOptions) (current : Option String) : Block → String
  | ⟨_, children⟩ => promptChildren o current false none children

/-- The children of a block.  `hidden` says that code was left out since the last block shown,
`last` is the child before. -/
def promptChildren (o : PromptOptions) (current : Option String) (hidden : Bool)
    (last : Option BlockInfo) : List Block → String
  | [] => closingNote o hidden last
  | b :: bs =>
    if isSelected o b then
      let mark := if hidden then hiddenMark o b.info else ""
      let header := headerFor o current b.info
      let current := (b.info.span.map (·.id)).or current
      mark ++ ownPrompt b.info.opensModule o.lineNumbers header b.info.toBlockData
        ++ promptFrom o current b ++ promptChildren o current false (some b.info) bs
    else
      promptChildren o current
        (hidden || (o.markHidden && !b.info.kind.isComment)) (some b.info) bs
end

/-- The selected blocks below a block. -/
def prompt (o : PromptOptions) (b : Block) : String :=
  promptFrom o none b

/-! ## §3. The drawn tree. -/

namespace Colour

def green : String := "\x1b[92m"
def yellow : String := "\x1b[93m"
def blue : String := "\x1b[94m"
def white : String := "\x1b[97m"
def grey : String := "\x1b[90m"
def reset : String := "\x1b[0m"

end Colour

/-- What a drawn tree shows. -/
structure OutlineOptions where
  /-- The spans to highlight; without any all is highlighted. -/
  highlight : Value := .nothing
  onlyNames : Bool := false
  fullPaths : Bool := true
  showTokens : Bool := false
  showSpans : Bool := false
  showProperties : Bool := false
  onlyHighlighted : Bool := false
  lineNumbers : Bool := false
  showParameters : Bool := false
  showReferences : Bool := false
  /-- Ask for the history of merges, which blocks do not keep. -/
  showHistory : Bool := false

/-- Is the block itself highlighted? -/
def isHighlighted (o : OutlineOptions) (info : BlockInfo) : Outcome Bool :=
  if !o.highlight.isTruthy then .ok true
  else
    match info.span with
    | none => .ok false
    | some s => o.highlight.holds s.id

/-- The name of a block as a drawn tree shows it. -/
def nameText (o : OutlineOptions) (info : BlockInfo) (name : String) : String :=
  if o.showParameters && !info.parameters.isEmpty then
    name ++ "(" ++ Text.join ", " (info.parameters.map (·.name)) ++ ")"
  else if o.fullPaths then " (" ++ info.path.text ++ ")"
  else " (" ++ name ++ ")"

/-- The quoted part of a block's line: its content where it is not highlighted, and its name. -/
def contentText (o : OutlineOptions) (lit : Bool) (info : BlockInfo) : String :=
  let content :=
    if lit then Colour.yellow
    else Colour.grey ++ Text.substitute '\n' "\\n" (Text.trim info.content) ++ Colour.reset
  match info.name with
  | none | some "" => content
  | some name =>
    (if o.onlyNames then "" else content) ++ (if lit then Colour.green else Colour.grey)
      ++ nameText o info name ++ Colour.reset

/-- What follows the quoted part. -/
def extraText (o : OutlineOptions) (info : BlockInfo) : String :=
  (if o.showTokens then " (" ++ Text.decimal info.tokens ++ " tokens)" else "")
    ++ (if o.showReferences && !info.relationships.isEmpty then
          " references: " ++ Text.join ", " (info.relationships.map (·.text))
        else "")
    ++ (if o.lineNumbers then
          " " ++ Text.decimal info.startLine ++ "-" ++ Text.decimal info.endLine
        else "")
    ++ (if o.showProperties && !info.properties.isEmpty then
          " properties: " ++ (Json.obj info.properties).shown
        else "")

/-- How deep a line stands in a drawn tree, and how that is written. -/
structure Depth where
  level : Int
  label : String

/-- The depth of the given level. -/
def Depth.of (level : Int) : Depth :=
  ⟨level, Text.decimal level⟩

/-- The beginning of a line in a drawn tree. -/
def Depth.text (depth : Depth) : String :=
  Text.replicate depth.level " " ++ " " ++ depth.label ++ " "

/-- The line of a block. -/
def outlineLine (o : OutlineOptions) (depth : Depth) (lit : Bool) (info : BlockInfo) : String :=
  depth.text ++ (if lit then Colour.blue else Colour.grey) ++ info.kind.label ++ Colour.reset
    ++ " `" ++ contentText o lit info ++ "`" ++ extraText o info ++ Colour.reset ++ "\n"

/-- The line of a span that begins among the children of a block. -/
def spanLine (depth : Depth) (lit : Bool) (s : Span) : String :=
  depth.text ++ (if lit then Colour.white else Colour.grey) ++ "Span: " ++ s.text ++ Colour.reset
    ++ "\n"

/-- The span that a child begins, if it is another one than the current one. -/
def entersSpan (current : Value) (info : BlockInfo) : Outcome (Option Span) :=
  match info.span, current with
  | none, _ => .ok none
  | some s, .span id => .ok (if id = s.id then none else some s)
  | some s, v => if v.isTruthy then .error (.noMember v.sort "span_id") else .ok (some s)

/-- Is a span that begins highlighted? -/
def isLit (o : OutlineOptions) (s : Span) : Outcome Bool :=
  match o.highlight with
  | .nothing => .ok true
  | v => v.holds s.id

/-- Is a child left out, where `lit` says that the span it is in is highlighted? -/
def isSkipped (o : OutlineOptions) (lit : Bool) (b : Block) : Outcome Bool := do
  if o.onlyHighlighted && !lit then
    b.comeToSpans
    return !b.meetsSpans (← o.highlight.memberNames)
  else return false

/-- Is the full path of a block shown? -/
def showsPath (o : OutlineOptions) (info : BlockInfo) : Bool :=
  !(info.name.getD "").isEmpty && o.fullPaths && !(o.showParameters && !info.parameters.isEmpty)

mutual
/-- Draws the block and those below it, each level one deeper. -/
def drawAt (o : OutlineOptions) (depth : Depth) (current : Value) : Block → Outcome String
  | ⟨info, children⟩ =>
    if !o.showHistory && info.kind = .delimiter then .ok ""
    else do
      let below ← drawChildren o depth current false children
      let lit ← isHighlighted o info
      if info.isLost && showsPath o info then throw .endless
      if o.showHistory then throw (.noMember (info.sortName) "merge_history")
      return outlineLine o depth lit info ++ below

/-- Draws the children of a block.  `lit` says that the span they are in is highlighted. -/
def drawChildren (o : OutlineOptions) (depth : Depth) (current : Value) (lit : Bool) :
    List Block → Outcome String
  | [] => .ok ""
  | b :: bs => do
    b.touch "belongs_to_span"
    let entered ← entersSpan current b.info
    let lit ← entered.elim (pure lit) (isLit o)
    let header := (entered.map fun s => if o.showSpans then spanLine depth lit s else "").getD ""
    let current := (entered.map fun s => Value.span s.id).getD current
    let own ←
      if ← isSkipped o lit b then pure ""
      else do
        b.enter
        drawAt o (.of (depth.level + 1)) current b
    return header ++ own ++ (← drawChildren o depth current lit bs)
end

/-- Draws a tree of blocks; `indent` is how deep it stands, `current` the span it stands in. -/
def outlineText (o : OutlineOptions) (indent current : Value) (b : Block) : Outcome String :=
  if !o.showHistory && b.info.kind = .delimiter then .ok ""
  else do drawAt o ⟨← indent.count, indent.said⟩ current b

end CodeAtlas.Block
