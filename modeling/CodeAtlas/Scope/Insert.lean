import CodeAtlas.Scope.Map

/-!
# Growing a scope map

What is added to a scope map, and where it is attached: a scope, an import or a local definition
goes to the smallest scope around it, a hoisted definition to the scope around that one, a global
definition to the scope of the whole source.  A reference is added only if its name is known in one
of the scopes around it.

Names in the program: `insert_local_scope` for `addScope`, `insert_local_import` for `addImport`,
`insert_local_def`, `insert_hoisted_def` and `insert_global_def` for `defineInPlace`,
`defineHoisted` and `defineGlobal`, `insert_ref` for `refer`.
-/

namespace CodeAtlas

/-- Where a definition is attached. -/
inductive Attachment where
  | global
  | hoisted
  | inPlace
  deriving Repr, DecidableEq, Inhabited

/-- The scoping that a word stands for. -/
def Attachment.ofWord : String → Outcome Attachment
  | "global" => .ok .global
  | "hoist" => .ok .hoisted
  | "local" => .ok .inPlace
  | word => .error (.unknownWord (Text.quoted word) "Scoping")

/-- Something to be added to a scope map. -/
inductive Insertion where
  | scope (range : SourceRange)
  | importStmt (range : SourceRange) (statement : ImportStmt)
  | definition (scoping : Attachment) (range : SourceRange) (name : String) (sort : Option String)
  | reference (range : SourceRange) (name : String)
  deriving Repr, DecidableEq, Inhabited

/-- The range whose place among the scopes decides, if one does. -/
def Insertion.sought : Insertion → Option SourceRange
  | .scope range => some range
  | .importStmt range _ => some range
  | .definition .global _ _ _ => none
  | .definition _ range _ _ => some range
  | .reference range _ => some range

namespace ScopeMap

/-! ## §1. Definitions and imports. -/

/-- Adds an import to the smallest scope around it. -/
def addImport (g : ScopeMap) (range : SourceRange) (statement : ImportStmt) : ScopeMap :=
  g.push { range, item := .importStmt statement, links := [⟨g.scopeAt range, .importToScope⟩] }

/-- Adds a definition to the smallest scope around it. -/
def defineInPlace (g : ScopeMap) (range : SourceRange) (name : String) (sort : Option String) :
    ScopeMap :=
  g.push {
    range, name, item := .definition (.recorded sort), links := [⟨g.scopeAt range, .defToScope⟩] }

/-- Adds a definition one scope further out than the smallest scope around it. -/
def defineHoisted (g : ScopeMap) (range : SourceRange) (name : String) : ScopeMap :=
  let defining := g.scopeAt range
  g.push {
    range, name, item := .definition .unrecorded
    links := [⟨(g.around? defining).getD defining, .defToScope⟩] }

/-- Adds a definition to the scope of the whole source. -/
def defineGlobal (g : ScopeMap) (range : SourceRange) (name : String) : ScopeMap :=
  g.push { range, name, item := .definition .unrecorded, links := [⟨root, .defToScope⟩] }

/-! ## §2. Scopes. -/

/-- Adds the node of a scope below the smallest scope around it. -/
def pushScope (g : ScopeMap) (range : SourceRange) : ScopeMap :=
  g.push { range, item := .scope, links := [⟨g.scopeAt range, .scopeToScope⟩] }

/-- Adds a scope.  Where its rows are empty the node is there, but the scope is not found by its
rows. -/
def addScope (g : ScopeMap) (range : SourceRange) : Outcome Unit × ScopeMap :=
  let grown := g.pushScope range
  match g.placed.add range g.nodes.size with
  | .error e => (.error e, grown)
  | .ok placed => (.ok (), { grown with placed })

/-! ## §3. References. -/

/-- Is the node a definition of the name? -/
def defines (g : ScopeMap) (name : String) (i : Nat) : Bool :=
  match g.nodes[i]? with
  | some { item := .definition _, name := known, .. } => name = known
  | _ => false

/-- Is the node an import of the name? -/
def importsName (g : ScopeMap) (name : String) (i : Nat) : Bool :=
  match g.nodes[i]? with
  | some { item := .importStmt s, .. } => s.names.contains name
  | _ => false

/-- The oldest definition of a name in each of the scopes that has one. -/
def definitionsOf (g : ScopeMap) (chain : List Nat) (name : String) : List Nat :=
  chain.filterMap fun s => (g.sources .defToScope s).find? (g.defines name)

/-- All imports of a name in the scopes. -/
def importsOf (g : ScopeMap) (chain : List Nat) (name : String) : List Nat :=
  chain.flatMap fun s => (g.sources .importToScope s).filter (g.importsName name)

/-- Adds a reference to what its name means in the scopes around it, if it means anything. -/
def refer (g : ScopeMap) (range : SourceRange) (name : String) : ScopeMap :=
  let origin := g.scopeAt range
  let chain := g.outward origin
  let defs := g.definitionsOf chain name
  let imports := g.importsOf chain name
  if defs.isEmpty && imports.isEmpty then g
  else
    g.push {
      range, name, item := .reference
      links := defs.map (⟨·, .refToDef⟩) ++ imports.map (⟨·, .refToImport⟩)
        ++ [⟨origin, .refToOrigin⟩] }

/-! ## §4. Any insertion. -/

/-- Adds something whose rows can be measured. -/
def insertMeasured (g : ScopeMap) : Insertion → Outcome Unit × ScopeMap
  | .scope range => g.addScope range
  | .importStmt range statement => (.ok (), g.addImport range statement)
  | .definition .global range name _ => (.ok (), g.defineGlobal range name)
  | .definition .hoisted range name _ => (.ok (), g.defineHoisted range name)
  | .definition .inPlace range name sort => (.ok (), g.defineInPlace range name sort)
  | .reference range name => (.ok (), g.refer range name)

/-- Adds something; the map is what is left, also after a failure. -/
def insert (g : ScopeMap) (new : Insertion) : Outcome Unit × ScopeMap :=
  match new.sought.mapM fun range => range.rows.measure with
  | .error e => (.error e, g)
  | .ok _ => g.insertMeasured new

/-- Adds one thing after the other, up to the first failure. -/
def insertAll (g : ScopeMap) : List Insertion → Outcome ScopeMap
  | [] => .ok g
  | new :: rest =>
    match g.insert new with
    | (.error e, _) => .error e
    | (.ok _, grown) => grown.insertAll rest

end ScopeMap

end CodeAtlas
