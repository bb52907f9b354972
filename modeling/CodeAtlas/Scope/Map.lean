import CodeAtlas.Scope.RowSpan

/-!
# Scope maps

The scopes of a source, with what is defined, imported and referred to in them.  Nodes are
numbered in the order in which they came; node 0 is the scope of the whole source.  A node comes
with the links that leave it, and these lead to older nodes only, so that the way from a scope to
the scopes around it always ends.

Names in the program: `ScopeGraph` for `ScopeMap`, with `ScopeNode` and `EdgeKind` as `ScopeEntry`
and `LinkKind`; `parent_scope` for `around?`, `parent_scope_stack` for `outward`, `range_by_scope`
for `rangeOf?`.
-/

namespace CodeAtlas

/-! ## §1. Nodes and links. -/

/-- What a link says. -/
inductive LinkKind where
  /-- From a scope to the scope around it. -/
  | scopeToScope
  | defToScope
  | importToScope
  | refToDef
  /-- From a reference to the scope that it stands in. -/
  | refToOrigin
  | refToImport
  deriving Repr, DecidableEq, Inhabited

def LinkKind.label : LinkKind → String
  | .scopeToScope => "ScopeToScope"
  | .defToScope => "DefToScope"
  | .importToScope => "ImportToScope"
  | .refToDef => "RefToDef"
  | .refToOrigin => "RefToOrigin"
  | .refToImport => "RefToImport"

/-- A link to an older node. -/
structure Link where
  target : Nat
  kind : LinkKind
  deriving Repr, DecidableEq, Inhabited

/-- An import: `from <source> import <names> as <aliases>`, where an empty source is left out. -/
structure ImportStmt where
  names : List String
  source : String := ""
  aliases : List String := []
  deriving Repr, DecidableEq, Inhabited

/-- An import as a line of code. -/
def ImportStmt.text (s : ImportStmt) : String :=
  (if s.source = "" then "" else "from " ++ s.source ++ " ")
    ++ "import " ++ Text.join ", " s.names
    ++ (if s.aliases.isEmpty then "" else " as " ++ Text.quotedList s.aliases)

/-- What is known about the sort of a definition. -/
inductive DefSort where
  /-- Nothing was written down. -/
  | unrecorded
  /-- The sort was written down, even if there was none to be named. -/
  | recorded (name : Option String)
  deriving Repr, DecidableEq, Inhabited

/-- What a node stands for. -/
inductive ScopeItem where
  | scope
  | definition (sort : DefSort)
  | importStmt (statement : ImportStmt)
  | reference
  deriving Repr, DecidableEq, Inhabited

def ScopeItem.label : ScopeItem → String
  | .scope => "LocalScope"
  | .definition _ => "LocalDef"
  | .importStmt _ => "Import"
  | .reference => "Reference"

/-- A node of a scope map. -/
structure ScopeEntry where
  range : SourceRange
  item : ScopeItem
  name : String := ""
  links : List Link := []
  deriving Repr, DecidableEq, Inhabited

/-- The scopes of a source and what is in them. -/
structure ScopeMap where
  nodes : Array ScopeEntry
  /-- The scopes by the rows that they span. -/
  placed : RowStore Nat
  deriving Repr, DecidableEq, Inhabited

namespace ScopeMap

/-- The number of the scope of the whole source. -/
def root : Nat := 0

/-- A map with nothing but the scope of the whole source. -/
def empty (range : SourceRange) : Outcome ScopeMap := do
  return { nodes := #[{ range, item := .scope }], placed := ← RowStore.add [] range root }

/-- Adds a node; its number is the former number of nodes. -/
def push (g : ScopeMap) (node : ScopeEntry) : ScopeMap :=
  { g with nodes := g.nodes.push node }

/-! ## §2. Links. -/

/-- What a node stands for. -/
def item? (g : ScopeMap) (i : Nat) : Option ScopeItem :=
  g.nodes[i]?.map (·.item)

/-- The links that leave a node. -/
def links (g : ScopeMap) (i : Nat) : List Link :=
  (g.nodes[i]?.map (·.links)).getD []

/-- Does a link of the kind lead from node `i` to node `target`? -/
def hasLink (g : ScopeMap) (kind : LinkKind) (i target : Nat) : Bool :=
  (g.links i).contains ⟨target, kind⟩

/-- All links, from the oldest node on. -/
def edges (g : ScopeMap) : List (Nat × Link) :=
  (List.range g.nodes.size).flatMap fun i => (g.links i).map fun l => (i, l)

/-- The nodes from which a link of the kind leads to node `target`, from the oldest on. -/
def sources (g : ScopeMap) (kind : LinkKind) (target : Nat) : List Nat :=
  (List.range g.nodes.size).filter fun i => g.hasLink kind i target

/-! ## §3. Scopes. -/

/-- All scopes. -/
def scopes (g : ScopeMap) : List Nat :=
  (List.range g.nodes.size).filter fun i => g.item? i = some .scope

/-- The target of the first link from a scope to a scope. -/
def above? (g : ScopeMap) (i : Nat) : Option Nat :=
  ((g.links i).find? fun l => l.kind = .scopeToScope).map (·.target)

/-- The scope around a scope. -/
def around? (g : ScopeMap) (i : Nat) : Option Nat :=
  if g.item? i = some .scope then g.above? i else none

/-- A node, the scope around it, the scope around that one, and so on. -/
def outward (g : ScopeMap) (i : Nat) : List Nat :=
  i ::
    match g.above? i with
    | none => []
    | some p => if _h : p < i then g.outward p else []
termination_by i

/-- The scope with the fewest rows around a range; the whole source if there is none. -/
def scopeAt (g : ScopeMap) (range : SourceRange) : Nat :=
  (g.placed.enclosing? range).getD root

/-- The range of a scope that was placed. -/
def rangeOf? (g : ScopeMap) (i : Nat) : Option SourceRange :=
  (g.placed.find? fun e => e.2 = i).map (·.1)

end ScopeMap

end CodeAtlas
