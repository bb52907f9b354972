import CodeAtlas.Assoc
import CodeAtlas.Number.Double

/-!
# Networks

Graphs whose edges have a direction or none, and of which several may run between the same two
nodes if they are parallel.  Nodes and edges keep the order in which they came; adding an edge that
is there changes its label and keeps its place.
-/

namespace CodeAtlas

/-- What tells parallel edges apart. -/
inductive EdgeKey where
  | number (n : Int)
  /-- A number that is not whole. -/
  | fraction (x : Double)
  | word (s : String)
  deriving Repr, DecidableEq, Inhabited

/-- A graph over keys `κ` with labels `ε`. -/
structure Network (κ ε : Type) where
  isDirected : Bool := true
  isParallel : Bool := false
  nodes : List κ := []
  /-- The edges between two nodes, each pair of nodes once. -/
  bundles : List ((κ × κ) × List (EdgeKey × ε)) := []
  deriving Repr, Inhabited

namespace Network

variable {κ ε : Type} [BEq κ]

/-! ## §1. Adding. -/

/-- Adds a node unless it is there. -/
def addNode (g : Network κ ε) (n : κ) : Network κ ε :=
  { g with nodes := Assoc.insertNew n g.nodes }

/-- The pair under which the edges between two nodes are kept. -/
def ends (g : Network κ ε) (source target : κ) : κ × κ :=
  if !g.isDirected && Assoc.has (target, source) g.bundles then (target, source)
  else (source, target)

/-- The edges between two nodes. -/
def between (g : Network κ ε) (source target : κ) : List (EdgeKey × ε) :=
  (Assoc.get? (g.ends source target) g.bundles).getD []

/-- A number that no edge has yet: at least as large as there are edges. -/
def freshKey (edges : List (EdgeKey × ε)) : EdgeKey :=
  ((List.range (edges.length + 1)).map fun (k : Nat) => EdgeKey.number (edges.length + k)).find?
    (fun key => !Assoc.has key edges) |>.getD (.number edges.length)

/-- The key of an edge that is added. -/
def keyFor (g : Network κ ε) (source target : κ) (key : Option EdgeKey) : EdgeKey :=
  if g.isParallel then key.getD (freshKey (g.between source target)) else .number 0

/-- Adds an edge and its ends.  `label` says what becomes of the label that is there. -/
def addEdge (g : Network κ ε) (source target : κ) (key : Option EdgeKey) (label : Option ε → ε) :
    Network κ ε :=
  let g := (g.addNode source).addNode target
  let edges := g.between source target
  let key := g.keyFor source target key
  { g with
    bundles := Assoc.put (g.ends source target) (Assoc.put key (label (Assoc.get? key edges)) edges)
      g.bundles }

/-! ## §2. Listing. -/

/-- The node at the other end of an edge from `n`. -/
def otherEnd? (g : Network κ ε) (n : κ) (ends : κ × κ) : Option κ :=
  if ends.1 == n then some ends.2
  else if !g.isDirected && ends.2 == n then some ends.1
  else none

/-- The edges from a node.  Without directions, those to nodes seen before are left out. -/
def edgesFrom (g : Network κ ε) (seen : List κ) (n : κ) : List ((κ × κ) × ε) :=
  g.bundles.flatMap fun (ends, edges) =>
    match g.otherEnd? n ends with
    | some m => if g.isDirected || !seen.contains m then edges.map fun e => ((n, m), e.2) else []
    | none => []

/-- The edges from several nodes, one after the other. -/
def edgesFromAll (g : Network κ ε) (seen : List κ) : List κ → List ((κ × κ) × ε)
  | [] => []
  | n :: rest => g.edgesFrom seen n ++ g.edgesFromAll (n :: seen) rest

/-- All edges, in the order of the nodes. -/
def edgeList (g : Network κ ε) : List ((κ × κ) × ε) :=
  g.edgesFromAll [] g.nodes

end Network

end CodeAtlas
