import CodeAtlas.Assoc

/-!
# Directed graphs

Nodes in the order in which they came, and edges with a label.  From one node to another there is
at most one edge; adding it again gives it the new label and keeps its place.
-/

namespace CodeAtlas

/-- A directed graph over keys `κ` with labels `ε`. -/
structure Digraph (κ ε : Type) where
  nodes : List κ := []
  edges : List ((κ × κ) × ε) := []
  deriving Repr, DecidableEq, Inhabited

namespace Digraph

variable {κ ε : Type} [BEq κ]

/-- Adds a node unless it is there. -/
def addNode (g : Digraph κ ε) (n : κ) : Digraph κ ε :=
  { g with nodes := Assoc.insertNew n g.nodes }

/-- Adds an edge and its ends. -/
def addEdge (g : Digraph κ ε) (source target : κ) (label : ε) : Digraph κ ε :=
  let g := (g.addNode source).addNode target
  { g with edges := Assoc.put (source, target) label g.edges }

/-- The edges by source, in the order of the nodes. -/
def edgeList (g : Digraph κ ε) : List ((κ × κ) × ε) :=
  g.nodes.flatMap fun n => g.edges.filter fun e => e.1.1 == n

/-- The ends of the edges that leave a node. -/
def targets (g : Digraph κ ε) (n : κ) : List κ :=
  (g.edges.filter fun e => e.1.1 == n).map (·.1.2)

end Digraph

end CodeAtlas
