import CodeAtlas.Scope.Insert

/-!
# Reading a source into a scope map

A query tags ranges of a source: scopes, imports and their parts, definitions and references.
`Reading.scopeMap` turns them into a scope map.  Scopes go in first, then imports, definitions
and references, each group in the order of its tags; so the order between groups does not matter.

Names in the program: `build_scope_graph` for `scopeMap`, `capture_refs` for `references`.
-/

namespace CodeAtlas

/-- A tagged range of a source. -/
structure Tagged where
  start : Int
  stop : Int
  tag : String
  deriving Repr, DecidableEq, Inhabited

/-- A source, the range that its syntax tree covers, and the tagged ranges in it. -/
structure Reading where
  source : ByteArray
  start : Int
  stop : Int
  tagged : List Tagged
  deriving Inhabited

namespace Reading

/-- A source about which nothing else is known. -/
def plain (source : ByteArray) : Reading :=
  ⟨source, 0, source.size, []⟩

/-- What is known about a source: the last reading of the same bytes counts. -/
def find (readings : List Reading) (source : ByteArray) : Reading :=
  (readings.reverse.find? fun r => r.source.data = source.data).getD (plain source)

/-! ## §1. Tags. -/

/-- What a tag says about its range. -/
inductive Role where
  | scope
  | importStmt
  /-- A part of an import: `module`, `name` or `alias`, where other parts say nothing. -/
  | importPart (part : String)
  /-- A definition; the word for its scoping is not checked yet. -/
  | definition (scoping : String) (sort : Option String)
  | reference
  | other
  deriving Repr, DecidableEq, Inhabited

/-- The role of a tag. -/
def Role.ofTag (tag : String) : Role :=
  match Text.split '.' tag with
  | [scoping, "definition", sort] => .definition scoping (some sort)
  | [scoping, "definition"] => .definition scoping none
  | ["local", "reference"] => .reference
  | ["local", "scope"] => .scope
  | ["local", "import", "statement"] => .importStmt
  | ["local", "import", part] => .importPart part
  | _ => .other

/-- The tagged ranges, with their roles. -/
def roles (r : Reading) : List (SourceRange × Role) :=
  r.tagged.map fun t => (SourceRange.between r.source t.start t.stop, .ofTag t.tag)

/-! ## §2. What the roles give rise to. -/

/-- The range of the whole source. -/
def range (r : Reading) : SourceRange :=
  SourceRange.between r.source r.start r.stop

def scopeRanges (roles : List (SourceRange × Role)) : List SourceRange :=
  roles.filterMap fun (range, role) => if role = .scope then some range else none

def importRanges (roles : List (SourceRange × Role)) : List SourceRange :=
  roles.filterMap fun (range, role) => if role = .importStmt then some range else none

def referenceRanges (roles : List (SourceRange × Role)) : List SourceRange :=
  roles.filterMap fun (range, role) => if role = .reference then some range else none

def importParts (roles : List (SourceRange × Role)) : List (SourceRange × String) :=
  roles.filterMap fun (range, role) =>
    match role with
    | .importPart part => some (range, part)
    | _ => none

/-- The definitions; a word that is no scoping fails. -/
def definitions (roles : List (SourceRange × Role)) :
    Outcome (List (SourceRange × Attachment × Option String)) :=
  (roles.filterMap fun (range, role) =>
    match role with
    | .definition scoping sort => some (range, scoping, sort)
    | _ => none).mapM fun (range, scoping, sort) => do
      return (range, ← Attachment.ofWord scoping, sort)

/-- Takes one part into an import. -/
def addPart (source : ByteArray) (statement : ImportStmt) (range : SourceRange) :
    String → Outcome ImportStmt
  | "module" => do return { statement with source := ← range.text source }
  | "alias" => do return { statement with aliases := statement.aliases ++ [← range.text source] }
  | "name" => do return { statement with names := statement.names ++ [← range.text source] }
  | _ => .ok statement

/-- The import at a range: all the parts inside it, where the last module counts. -/
def importAt (source : ByteArray) (parts : List (SourceRange × String)) (range : SourceRange) :
    Outcome ImportStmt :=
  parts.foldlM (fun statement (part, word) => do
    if ← range.containsBytes part then addPart source statement part word else return statement)
    { names := [] }

/-! ## §3. The map. -/

/-- Adds imports. -/
def withImports (source : ByteArray) (roles : List (SourceRange × Role)) (g : ScopeMap) :
    Outcome ScopeMap :=
  (importRanges roles).foldlM (fun g range => do
    g.insertAll [.importStmt range (← importAt source (importParts roles) range)]) g

/-- Adds definitions. -/
def withDefinitions (source : ByteArray) (defs : List (SourceRange × Attachment × Option String))
    (g : ScopeMap) : Outcome ScopeMap :=
  defs.foldlM (fun g (range, scoping, sort) => do
    g.insertAll [.definition scoping range (← range.text source) sort]) g

/-- Adds references. -/
def withReferences (source : ByteArray) (ranges : List SourceRange) (g : ScopeMap) :
    Outcome ScopeMap :=
  ranges.foldlM (fun g range => do g.insertAll [.reference range (← range.text source)]) g

/-- The scope map of a source. -/
def scopeMap (r : Reading) : Outcome ScopeMap := do
  let roles := r.roles
  let defs ← definitions roles
  let g ← ScopeMap.empty r.range
  let g ← g.insertAll ((scopeRanges roles).map .scope)
  let g ← withImports r.source roles g
  let g ← withDefinitions r.source defs g
  withReferences r.source (referenceRanges roles) g

/-- The names that are referred to, with their ranges. -/
def references (r : Reading) : Outcome (List (String × SourceRange)) :=
  (r.tagged.filter fun t => t.tag = "local.reference").mapM fun t => do
    let range := SourceRange.between r.source t.start t.stop
    return (← range.text r.source, range)

/-- Only one language can be read. -/
def checkLanguage (language : String) : Outcome Unit :=
  if language = "python" then .ok () else .error (.noEntry (Text.quoted language))

end Reading

end CodeAtlas
