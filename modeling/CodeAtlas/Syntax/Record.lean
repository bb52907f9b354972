import CodeAtlas.Source.Record
import CodeAtlas.Syntax.Tree

/-!
# Syntax trees as records

A syntax tree is given by its nodes (`tree`), each with the number of its parent, or -1, its kind
and its offsets; the captures of each query (`captures`) are listed by label.  Without nodes the
tree is one node over the range `root`, or over the whole source.
-/

namespace CodeAtlas

def SyntaxNode.ofJson : Json → SyntaxNode
  | .arr [.int parent, .str kind, .int start, .int stop] =>
    { parent := if parent < 0 then none else some parent.toNat, kind, start, stop }
  | _ => default

/-- The syntax tree of a source. -/
def SyntaxTree.ofJson (j : Json) : SyntaxTree :=
  let source := Source.ofJson j
  match j.field? "tree", (j.field "root").items.filterMap Json.int? with
  | some nodes, _ => { source, nodes := (nodes.items.map SyntaxNode.ofJson).toArray }
  | none, [a, b] => { source, nodes := #[⟨none, "module", a, b⟩] }
  | none, _ => { source, nodes := #[⟨none, "module", 0, source.size⟩] }

def Capture.ofJson : Json → Capture
  | .arr [.int owner, .int node, .str tag] => { owner := owner.toNat, node := node.toNat, tag }
  | _ => default

def CaptureTable.ofJson (j : Json) : CaptureTable :=
  (j.field "captures").fields.map fun (label, rows) => (label, rows.items.map Capture.ofJson)

end CodeAtlas
