import CodeAtlas.Scope.Map

/-!
# Asking a scope map

What is in which scope, the ways down and up between scopes, and the map as text.  Questions by
number take any integer, and say how they fail for a number that no node has.

Names in the program: `child_scopes` for `scopesBelow`, `child_scope_stack` for `allScopesBelow`,
`get_leaf_children` for `leaves`, `scope_by_range` for `smallestAround`, `get_all_imports` and
`get_all_definitions` for `allImports` and `allDefinitions`, `get_node` for `node?`, `to_str` for
`text`.
-/

namespace CodeAtlas.ScopeMap

/-! ## §1. Ways down. -/

/-- The scopes right below a scope. -/
def scopesBelow (g : ScopeMap) (i : Nat) : List Nat :=
  g.sources .scopeToScope i

/-- All scopes below a scope: those right below it, then what is below each of these. -/
def allScopesBelow (g : ScopeMap) (i : Nat) : List Nat :=
  g.scopesBelow i ++ (g.scopesBelow i).attach.flatMap fun ⟨c, _⟩ =>
    if _h : i < c ∧ c < g.nodes.size then g.allScopesBelow c else []
termination_by g.nodes.size - i

/-! ## §2. Everything of one sort. -/

def node? (g : ScopeMap) (i : Nat) : Option ScopeEntry :=
  g.nodes[i]?

/-- The nodes with the given numbers. -/
def pick (g : ScopeMap) (numbers : List Nat) : List ScopeEntry :=
  numbers.filterMap g.node?

/-- The imports of all scopes. -/
def allImports (g : ScopeMap) : List Nat :=
  g.scopes.flatMap (g.sources .importToScope)

/-- The definitions of all scopes. -/
def allDefinitions (g : ScopeMap) : List Nat :=
  g.scopes.flatMap (g.sources .defToScope)

/-! ## §3. Ends. -/

/-- Walks along the links from node `i` and adds each node to `done` when all that it leads to has
been added.  A way has no more than `depth` nodes. -/
def finish (g : ScopeMap) : Nat → List Nat → Nat → List Nat
  | 0, done, _ => done
  | depth + 1, done, i =>
    if done.contains i then done
    else (g.links i).foldl (fun acc l => g.finish depth acc l.target) done ++ [i]

/-- The nodes without links that can be reached from node `i`. -/
def leaves (g : ScopeMap) (i : Nat) : List Nat :=
  (g.finish (g.nodes.size + 1) [] i).filter fun j => (g.links j).isEmpty

/-! ## §4. Questions by number. -/

/-- The node with a number. -/
def number? (g : ScopeMap) (id : Int) : Option Nat :=
  if 0 ≤ id && id < g.nodes.size then some id.toNat else none

/-- The answer for the node with a number; without one, the number is no entry. -/
def atEntry {α : Type} (g : ScopeMap) (id : Int) (answer : Nat → α) : Outcome α :=
  match g.number? id with
  | some i => .ok (answer i)
  | none => .error (.noEntry (Text.decimal id))

/-- The answer for the node with a number; without one, there are no links to look at. -/
def atNode {α : Type} (g : ScopeMap) (id : Int) (answer : Nat → α) : Outcome α :=
  match g.number? id with
  | some i => .ok (answer i)
  | none => .error .noGraphNode

/-- The smallest scope around a range, or the number to begin with; zero and none stand for the
whole source. -/
def smallestAround (g : ScopeMap) (range : SourceRange) (start : Option Int) : Outcome Int := do
  range.rows.measure
  return ((g.placed.enclosing? range).map Int.ofNat).getD (start.getD root)

/-! ## §5. As text. -/

/-- The name of a node, empty for a node without one. -/
def nameOf (g : ScopeMap) (i : Nat) : String :=
  (g.nodes[i]?.map (·.name)).getD ""

/-- One line for each link, after an empty line. -/
def text (g : ScopeMap) : String :=
  "\n" ++ String.join (g.edges.map fun (i, l) =>
    Nat.repr i ++ ":" ++ g.nameOf i ++ " --EdgeKind." ++ l.kind.label ++ "-> "
      ++ Nat.repr l.target ++ ":" ++ g.nameOf l.target ++ "\n")

end CodeAtlas.ScopeMap
