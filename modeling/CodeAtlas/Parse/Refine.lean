import CodeAtlas.Parse.SpanLedger
import CodeAtlas.Block.Search
import CodeAtlas.Text.Fold
import CodeAtlas.Text.Blank

/-!
# Refining blocks of Python

What the syntax tree does not say outright: a function named `__init__` is a constructor, a
comment such as `# ...` stands for code left out, names that begin with `self` or `super()` mean
the class around or its superclass, and two functions or classes of one name in a row are a
mistake.

Names in the program: `is_outcommented_code` for `isPlaceholder`; `pre_process` and `post_process`
for the other refinements.
-/

namespace CodeAtlas.Refine

/-! ## §1. Comments that stand for code. -/

def placeholderWords : List String :=
  ["rest of the code", "existing code", "other code"]

/-- Does a comment hold words that say that code was left out? -/
def mentionsOmission (comment : String) : Bool :=
  placeholderWords.any fun w => Text.contains w (Text.lower comment)

/-- Does a comment stand for code left out? -/
def isPlaceholder (comment : String) : Bool :=
  Text.beginsWith "# ..." comment || mentionsOmission comment

/-! ## §2. Before the children are read. -/

/-- A function named `__init__` is a constructor. -/
def firstKind (kind : BlockKind) (name : Option String) : BlockKind :=
  if kind = .functionDef && name = some "__init__" then .constructorDef else kind

/-- An assignment whose right side begins on a later line gets a backslash at the end of its
first line.  `broken` says that the right side begins on a later row. -/
def continueLine (kind : BlockKind) (broken : Bool) (lines : List String) : List String :=
  match lines with
  | first :: rest =>
    if kind = .assignment && broken && Text.endsWith "=" (Text.trim first) then
      (first ++ " \\") :: rest
    else first :: rest
  | [] => []

/-! ## §3. After the children are read. -/

/-- A reference through `self` leads into the class around. -/
def resolveSelf (above : List OpenBlock) (name : Option String) (r : Relationship) : Relationship :=
  match r.path, above.find? fun a => a.kind = .classDef with
  | "self" :: rest, some c =>
    match rest with
    | [] => { r with scope := .inClass }
    | member :: _ => { r with scope := .inClass, path := c.path ++ [member], identifier := name }
  | _, _ => r

/-- A reference through `super()` leads into the superclass, if that is found among the blocks
of the module read so far. -/
def resolveSuper (above : List OpenBlock) (module : Block) (r : Relationship) : Relationship :=
  match r.path with
  | "super()" :: rest =>
    let superclass : Option Block := do
      let c ← above.find? fun a => a.kind = .classDef
      let isA ← c.relationships.find? fun r => r.kind = .isA
      module.follow isA.path
    match superclass with
    | some s => { r with path := s.info.path ++ rest.take 1, identifier := s.info.name }
    | none => r
  | _ => r

/-- The relationships of a finished block. -/
def relationships (kind : BlockKind) (above : List OpenBlock) (module : Block)
    (name : Option String) (rs : List Relationship) : List Relationship :=
  rs.map fun r =>
    let r := if kind = .assignment then { r with kind := .typed } else r
    resolveSuper above module (resolveSelf above name r)

/-- A comment may stand for code. -/
def commentKind (kind : BlockKind) (content : String) : BlockKind :=
  if kind = .comment && isPlaceholder content then .placeholder else kind

/-- A class or function with nothing but a placeholder in it is one. -/
def bodyKind (kind : BlockKind) (children : List Block) : BlockKind :=
  match children with
  | [c] =>
    if (kind = .classDef || kind = .functionDef) && c.info.kind = .placeholder then .placeholder
    else kind
  | _ => kind

/-- Notes a mistake at each child of the kind whose name an earlier one has. -/
def markRepeats (kind : BlockKind) (word : String) :
    List (Option String) → List Block → List Block
  | _, [] => []
  | seen, b :: bs =>
    if b.info.kind = kind then
      let marked : Block :=
        if seen.contains b.info.name then
          { b with info := { b.info with
              errors := b.info.errors ++ ["Duplicate " ++ word ++ " name: " ++ b.info.name.getD "None"] } }
        else b
      marked :: markRepeats kind word (b.info.name :: seen) bs
    else b :: markRepeats kind word seen bs

/-- Notes repeated names of functions and of classes. -/
def markAllRepeats (children : List Block) : List Block :=
  markRepeats .classDef "class" [] (markRepeats .functionDef "function" [] children)

end CodeAtlas.Refine
