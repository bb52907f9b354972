import CodeAtlas.Scope.Query
import CodeAtlas.Scope.Reading
import CodeAtlas.Syntax.Record

/-!
# Scope maps as records

How ranges, nodes, scope maps and tagged sources are given and shown as JSON.  A range is a list of
six numbers.  Beside the bytes of a source stand the range of its syntax tree (`root`) and its
tagged ranges (`captures`), or the tree itself (`tree`) and the captures of each query.
-/

namespace CodeAtlas

/-! ## §1. Ranges and nodes. -/

namespace SourceRange

def ofJson (j : Json) : SourceRange :=
  match j.items.filterMap Json.int? with
  | [a, b, c, d, e, f] => ⟨a, b, c, d, e, f⟩
  | _ => default

def toJson (r : SourceRange) : Json :=
  .arr ([r.start, r.stop, r.startRow, r.startColumn, r.stopRow, r.stopColumn].map .int)

end SourceRange

def ImportStmt.ofJson (j : Json) : ImportStmt :=
  ⟨(j.field "names").strings, (j.field "from_name").str?.getD "", (j.field "aliases").strings⟩

/-- What is written down with a node. -/
def ScopeItem.data : ScopeItem → Json
  | .definition (.recorded sort) => .obj [("def_type", Json.ofOption .str sort)]
  | .importStmt s =>
    .obj [("from_name", .str s.source), ("aliases", Json.ofStrings s.aliases),
      ("names", Json.ofStrings s.names)]
  | _ => .obj []

def ScopeEntry.toJson (n : ScopeEntry) : Json :=
  .obj [("range", n.range.toJson), ("type", .str n.item.label), ("name", .str n.name),
    ("data", n.item.data)]

namespace ScopeMap

def linksJson (links : List (Nat × Link)) : Json :=
  .arr (links.map fun (i, l) => .arr [.int i, .int l.target, .str l.kind.label])

def toJson (g : ScopeMap) : Json :=
  .obj [("nodes", .arr (g.nodes.toList.map ScopeEntry.toJson)), ("edges", linksJson g.edges)]

end ScopeMap

/-! ## §2. Tagged sources. -/

namespace Reading

/-- The label of the query that tags scopes, imports, definitions and references. -/
def queryLabel : String := "scopes"

def taggedOf? : Json → Option Tagged
  | .arr [.int a, .int b, .str tag] => some ⟨a, b, tag⟩
  | _ => none

/-- What the captures of a syntax tree say. -/
def ofTree (t : SyntaxTree) (table : CaptureTable) : Reading :=
  ⟨t.source, t.start 0, t.stop 0, (t.capturesAt table queryLabel 0).map fun c =>
    ⟨t.start c.node, t.stop c.node, c.tag⟩⟩

/-- A source with its tagged ranges. -/
def ofJson (j : Json) : Reading :=
  if (j.field? "tree").isSome then ofTree (SyntaxTree.ofJson j) (CaptureTable.ofJson j)
  else
    let source := Source.ofJson j
    let tagged := (j.field "captures").items.filterMap taggedOf?
    match (j.field "root").items.filterMap Json.int? with
    | [a, b] => ⟨source, a, b, tagged⟩
    | _ => { plain source with tagged }

end Reading

end CodeAtlas
