import CodeAtlas.Assoc
import CodeAtlas.Failure

/-!
# The graph of names

Which names refer to which, inside one module.  A node is a dotted path; it may stand for a block.
Nodes and the references of each node keep the order in which they came.
-/

namespace CodeAtlas

/-- Names of blocks with the block that has the name last, and references from name to name. -/
structure NameGraph where
  nodes : List (String × Option Nat) := []
  edges : List (String × String) := []
  deriving Inhabited

namespace NameGraph

/-- Adds a node, or gives it another block. -/
def addBlock (g : NameGraph) (name : String) (block : Nat) : NameGraph :=
  { g with nodes := Assoc.put name (some block) g.nodes }

/-- Adds a node without a block unless it is there. -/
def touch (g : NameGraph) (name : String) : NameGraph :=
  if Assoc.has name g.nodes then g else { g with nodes := g.nodes ++ [(name, none)] }

/-- Adds a reference and its ends. -/
def addEdge (g : NameGraph) (source target : String) : NameGraph :=
  let g := (g.touch source).touch target
  if g.edges.contains (source, target) then g
  else { g with edges := g.edges ++ [(source, target)] }

/-- The references by source, in the order of the nodes. -/
def edgeList (g : NameGraph) : List (String × String) :=
  g.nodes.flatMap fun (name, _) => g.edges.filter fun e => e.1 == name

/-- The blocks that the neighbours of a node stand for; the nodes referred to come first. -/
def neighbours (g : NameGraph) (name : String) : Outcome (List Nat) :=
  if Assoc.has name g.nodes then
    let out := g.edges.filterMap fun (s, t) => if s == name then some t else none
    let back := g.edges.filterMap fun (s, t) => if t == name then some s else none
    .ok ((out ++ back).filterMap fun n => (Assoc.get? n g.nodes).join)
  else .error (.noNamedNode name)

end NameGraph

end CodeAtlas
