import CodeAtlas.Digraph
import CodeAtlas.Failure
import CodeAtlas.Text.Basic

/-!
# Clusters

The nodes of a graph are numbered for a clustering method, and its answer is read back: which node
is in which cluster, and which nodes a cluster has.  A method answers either with the leaves of a
tree of modules or with lists of node numbers.

Names in the program: `cluster_infomap` for `ofLeaves`, `cluster_leiden` for `ofPartition`.
-/

namespace CodeAtlas

/-- A leaf or an inner node of a tree of modules. -/
structure ModuleLeaf where
  node : Int
  cluster : Int
  isLeaf : Bool
  deriving Repr, Inhabited

/-- Which node is in which cluster, the last one counting, and which nodes each cluster has. -/
structure Clusters (κ : Type) where
  ofNode : List (κ × Int) := []
  members : List (Int × List κ) := []
  deriving Repr, Inhabited

namespace Clusters

variable {κ : Type} [BEq κ]

/-- Puts a node into a cluster. -/
def add (c : Clusters κ) (node : κ) (cluster : Int) : Clusters κ :=
  { ofNode := Assoc.put node cluster c.ofNode
    members := Assoc.put cluster ((Assoc.get? cluster c.members).getD [] ++ [node]) c.members }

/-- The node with a number. -/
def at? (nodes : List κ) (i : Int) : Option κ :=
  if i < 0 then none else nodes[i.toNat]?

/-- The clusters in a tree of modules. -/
def ofLeaves (nodes : List κ) (leaves : List ModuleLeaf) : Outcome (Clusters κ) :=
  (leaves.filter (·.isLeaf)).foldlM (fun c l =>
    match at? nodes l.node with
    | some n => .ok (c.add n l.cluster)
    | none => .error (.noEntry (Text.decimal l.node))) {}

/-- The node with a number, where a negative number counts from the end. -/
def numbered (nodes : List κ) (i : Int) : Outcome κ :=
  match at? nodes (if i < 0 then i + nodes.length else i) with
  | some n => .ok n
  | none => .error .noItem

/-- The clusters in a partition. -/
def ofPartition (nodes : List κ) (partition : List (List Int)) : Outcome (Clusters κ) :=
  partition.zipIdx.foldlM (fun c (numbers, i) =>
    numbers.foldlM (fun c n => do return c.add (← numbered nodes n) i) c) {}

end Clusters

/-- The edges of a graph as pairs of numbers. -/
def Digraph.links {κ ε : Type} [BEq κ] (g : Digraph κ ε) : List (Nat × Nat) :=
  g.edgeList.map fun ((u, v), _) => (g.nodes.idxOf u, g.nodes.idxOf v)

end CodeAtlas
