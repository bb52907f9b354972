import CodeAtlas.Block.Basic
import CodeAtlas.Block.NameTree
import CodeAtlas.Json.Lenient
import CodeAtlas.Json.Writer

/-!
# Blocks as records

How relationships, spans, name trees and the data of blocks are given and shown as JSON.  A field
that is missing has its default, one that cannot be read makes the record invalid; lists that stand
for sets are shown sorted.
-/

namespace CodeAtlas

/-- The members of a set, sorted. -/
def Json.ofSet (members : List String) : Json :=
  Json.ofStrings (members.mergeSort Text.le)

/-- What `read?` makes of a field, or the default if the field is missing. -/
def Json.fieldOr? {α : Type} (key : String) (missing : α) (read? : Json → Option α) (j : Json) :
    Option α :=
  match j.field? key with
  | none => some missing
  | some value => read? value

/-- A list of what `read?` reads. -/
def Json.listOf? {α : Type} (read? : Json → Option α) : Json → Option (List α)
  | .arr items => items.mapM read?
  | _ => none

/-- A value that is there, or an invalid record. -/
def Outcome.ofValid {α : Type} (value : Option α) : Outcome α :=
  value.elim (.error .invalidRecord) .ok

/-! ## §1. Relationships. -/

namespace Relationship

/-- The word in a value, which must be a text. -/
def wordIn {α : Type} (sort : String) (read : String → Outcome α) (j : Json) : Outcome α :=
  match j with
  | .str s => read s
  | other => .error (.unknownWord other.shown sort)

/-- The scope in the record of a relationship, which must be given. -/
def scopeOf (j : Json) : Outcome RefScope :=
  match j.field? "scope" with
  | some word => wordIn "ReferenceScope" RefScope.ofLabel word
  | none => .error (.noEntry (Text.quoted "scope"))

/-- The kind in the record of a relationship. -/
def kindOf (j : Json) : Outcome RefKind :=
  match j.field "type" with
  | .null => .ok .uses
  | word => wordIn "RelationshipType" RefKind.ofLabel word

def ofJson (j : Json) : Outcome Relationship := do
  let scope ← scopeOf j
  let kind ← kindOf j
  let path (key : String) : Outcome Path := Outcome.ofValid (j.fieldOr? key [] Json.plainTexts?)
  let r : Relationship :=
    { scope, kind
      identifier :=
        ← Outcome.ofValid (j.fieldOr? "identifier" none (Json.orNull? Json.plainText?))
      externalPath := ← path "external_path"
      resolvedPath := ← path "resolved_path"
      path := ← path "path" }
  r.checked

def toJson (r : Relationship) : Json :=
  .obj [("scope", .str r.scope.label), ("type", .str r.kind.label),
    ("identifier", Json.ofOption .str r.identifier),
    ("external_path", Json.ofStrings r.externalPath),
    ("resolved_path", Json.ofStrings r.resolvedPath), ("path", Json.ofStrings r.path)]

end Relationship

/-! ## §2. Name trees. -/

namespace NameTree

mutual
def toJson : NameTree → Json
  | ⟨shown, branches⟩ => .obj [("show", .bool shown), ("tree", .obj (branchFields branches))]

def branchFields : List (String × NameTree) → List (String × Json)
  | [] => []
  | (name, t) :: rest => (name, toJson t) :: branchFields rest
end

/-- The name that a value stands for; numbers and truth values are written out. -/
def keyOf (j : Json) : Outcome String :=
  match j with
  | .str s => .ok s
  | .arr _ | .obj _ => .error (.notHashable j.sort)
  | other => .ok other.compact

/-- The items of a path, unless it is missing.  A text is the path of its letters. -/
def pathItems? (j : Json) : Outcome (Option (List Json)) :=
  match j with
  | .null => .ok none
  | .obj (_ :: _) => .error (.noEntry "0")
  | j => j.members?.elim (.error (.noLength j.sort)) fun items => .ok (some items)

/-- Puts a path into the set.  A path with an item that is no name leads up to it. -/
def addFrom (j : Json) (t : NameTree) : Outcome Unit × NameTree :=
  match pathItems? j with
  | .error e => (.error e, t)
  | .ok none => (.ok (), t)
  | .ok (some items) =>
    let names := items.map keyOf
    let known := (names.takeWhile fun n => n.toOption.isSome).filterMap (·.toOption)
    match names[known.length]? with
    | some (.error e) => (.error e, t.lead known)
    | _ => (.ok (), t.add known)

/-- Puts paths into the set, one after the other, up to the first that cannot be read. -/
def extendFrom (paths : Json) (t : NameTree) : Outcome Unit × NameTree :=
  match paths.members? with
  | none => (.error (.notIterable paths.sort), t)
  | some items =>
    items.foldl (fun (r, t) p => if r.toOption.isSome then addFrom p t else (r, t)) (.ok (), t)

end NameTree

/-! ## §3. Spans. -/

namespace Span

/-- The role in the record of a span, which must be given. -/
def roleOf (j : Json) : Outcome SpanRole :=
  match j.field? "span_type" with
  | none => .error (.noEntry (Text.quoted "span_type"))
  | some word =>
    (word.str?.bind SpanRole.ofLabel?).elim (.error (.unknownWord word.shown "SpanType")) .ok

/-- A span, where `blockOf` finds the block of a number.  Its role is looked at first, then the block
that opened it; its name and lines must be given. -/
def ofJson (blockOf : Int → Outcome Nat) (j : Json) : Outcome Span := do
  let role ← roleOf j
  let opener ← (j.field "initiating_block").int?.mapM fun n => do
    return ({ (default : Opener) with block := ← blockOf n } : Opener)
  Outcome.ofValid do
    return {
      id := ← (j.field "span_id").plainText?
      role
      startLine := ← (j.field "start_line").wholeNumber?
      endLine := ← (j.field "end_line").wholeNumber?
      opener
      visible := ← j.fieldOr? "visible" true Json.truthValue?
      index := ← j.fieldOr? "index" 0 Json.wholeNumber?
      parentPath := ← j.fieldOr? "parent_block_path" none (Json.orNull? Json.plainTexts?)
      isPartial := ← j.fieldOr? "is_partial" false Json.truthValue?
      blockPaths := ← j.fieldOr? "block_paths" [] (Json.listOf? Json.plainTexts?)
      tokens := ← j.fieldOr? "tokens" 0 Json.wholeNumber? }

def toJson (s : Span) : Json :=
  .obj [("span_id", .str s.id), ("span_type", .str s.role.label), ("start_line", .int s.startLine),
    ("end_line", .int s.endLine), ("visible", .bool s.visible), ("index", .int s.index),
    ("parent_block_path", Json.ofOption Json.ofStrings s.parentPath),
    ("is_partial", .bool s.isPartial), ("block_paths", .arr (s.blockPaths.map Json.ofStrings)),
    ("tokens", .int s.tokens),
    ("initiated_by", Json.ofOption (fun (o : Opener) => .str o.path.text) s.opener),
    ("text", .str s.text)]

end Span

/-! ## §4. Data of blocks. -/

namespace BlockData

def parameterOf? : Json → Option Parameter
  | .arr [name, typeName] => do return ⟨← name.plainText?, ← typeName.orNull? Json.plainText?⟩
  | _ => none

/-- The parts in the record of a block that are records of their own, after its kind, which must be
one that there is. -/
def partsOf (j : Json) : Outcome BlockParts := do
  match (j.field "type").str? with
  | some word => if (BlockKind.ofName? word).isNone then throw (.noEntry (Text.quoted word))
  | none => pure ()
  return {
    parameters := ← Outcome.ofValid (j.fieldOr? "parameters" [] (Json.listOf? parameterOf?))
    relationships := ← (j.field "relationships").items.mapM Relationship.ofJson
    errors := ← Outcome.ofValid (j.fieldOr? "validation_errors" [] Json.plainTexts?) }

/-- The data of a block besides these parts; its kind and content must be given. -/
def ofJson? (j : Json) : Option BlockData := do
  let number (key : String) : Option Int := j.fieldOr? key 0 Json.wholeNumber?
  return {
    kind := ← (j.field "type").str?.bind BlockKind.ofName?
    content := ← (j.field "content").plainText?
    name := ← j.fieldOr? "identifier" none (Json.orNull? Json.plainText?)
    spanIds := Assoc.union [] (← j.fieldOr? "span_ids" [] Json.plainTexts?)
    startLine := ← number "start_line"
    endLine := ← number "end_line"
    properties := ← j.fieldOr? "properties" [] Json.tableFields?
    gap := ← j.fieldOr? "pre_code" "" Json.plainText?
    gapLines := ← number "pre_lines"
    indentation := ← j.fieldOr? "indentation" "" Json.plainText?
    tokens := ← number "tokens" }

def ofJson (j : Json) : Outcome BlockData :=
  Outcome.ofValid (ofJson? j)

/-- The data of a whole module.  It is of the kind of modules unless another one is given; its
content may be missing, but then it has no lines. -/
def moduleOfJson (j : Json) : Outcome BlockData := do
  let fields := if (j.field? "type").isSome then j.fields else ("type", .str "MODULE") :: j.fields
  if j.field "content" == .null then
    let _ ← (← ofJson (.obj (Assoc.put "content" (.str "None") fields))).make
    throw (.absent "split")
  else ofJson (.obj fields)

/-- What a block carries besides its place in the tree. -/
def shownFields (d : BlockData) : List (String × Json) :=
  [("type", .str d.kind.name), ("identifier", Json.ofOption .str d.name),
   ("content", .str d.content), ("lines", Json.ofStrings d.lines), ("pre_code", .str d.gap),
   ("pre_lines", .int d.gapLines), ("indentation", .str d.indentation),
   ("start", .int d.startLine), ("end", .int d.endLine), ("tokens", .int d.tokens),
   ("parameters", .arr (d.parameters.map fun p =>
     .arr [.str p.name, Json.ofOption .str p.typeName])),
   ("relationships", .arr (d.relationships.map Relationship.toJson)),
   ("span_ids", Json.ofSet d.spanIds), ("properties", .obj d.properties),
   ("errors", Json.ofStrings d.errors)]

/-- The fields of a block that stands alone, by name. -/
def fieldTable (d : BlockData) : List (String × Json) :=
  let parameter (p : Parameter) : Json :=
    .obj [("identifier", .str p.name), ("type", Json.ofOption .str p.typeName)]
  [("belongs_to_span", .null), ("children", .arr []), ("content", .str d.content),
   ("content_lines", Json.ofStrings d.lines), ("end_line", .int d.endLine),
   ("identifier", Json.ofOption .str d.name), ("indentation", .str d.indentation),
   ("next", .null), ("parameters", .arr (d.parameters.map parameter)), ("pre_code", .str d.gap),
   ("pre_lines", .int d.gapLines), ("previous", .null), ("properties", .obj d.properties),
   ("relationships", .arr (d.relationships.map Relationship.toJson)),
   ("span_ids", Json.ofSet d.spanIds), ("start_line", .int d.startLine), ("tokens", .int d.tokens),
   ("type", .str d.kind.label),
   ("validation_errors", .arr (d.errors.map fun e => .obj [("error", .str e)]))]

/-- What a module has besides the fields of a block; its spans are shown by their names. -/
def moduleFields (filePath language : Option String) (spanIds : List String) : List (String × Json) :=
  [("file_path", Json.ofOption .str filePath), ("language", Json.ofOption .str language),
   ("spans_by_id", .obj (spanIds.map fun id => (id, .obj [("span", .str id)])))]

end BlockData

end CodeAtlas
