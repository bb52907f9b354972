import CodeAtlas.Block.Kind
import CodeAtlas.Block.Basic
import CodeAtlas.Syntax.Tree
import CodeAtlas.Parse.Dialect

/-!
# What a node means

The captures of a query say what a node of the syntax tree means: the kind of block it makes, the
node that names it, where the blocks below it begin and end, its parameters and references.  The
first query that yields a kind decides.  A query may hand the question on to a node below
(`check_child`), or take over what such a node has to say (`parse_child`).

Names in the program: `NodeMatch` for `Meaning`; `find_match` for `ofNode`, `_find_match` for
`search`, `find_match_with_gpt_tweaks` for `searchTweaks`, `create_references` for
`relationships`, `create_parameters` for `typedParameters`.
-/

namespace CodeAtlas

/-- What the captures say about a node. -/
structure Meaning where
  kind : Option BlockKind := none
  identifier : Option Nat := none
  firstChild : Option Nat := none
  lastChild : Option Nat := none
  /-- The node below that the question was handed on to. -/
  checked : Option Nat := none
  /-- Nodes of parameters, with the nodes of their types. -/
  parameters : List (Nat × Option Nat) := []
  /-- Nodes of references, with their tags. -/
  references : List (Nat × String) := []
  /-- The label of the query that decided. -/
  query : Option String := none
  deriving Inhabited

namespace Meaning

/-- A node that no query knows. -/
def unknown : Meaning :=
  { kind := some .code }

/-- A node with a syntax error. -/
def error : Meaning :=
  { kind := some .error }

/-! ## §1. Reading captures. -/

/-- Sets the type of the last parameter. -/
def typeLast (node : Nat) : List (Nat × Option Nat) → List (Nat × Option Nat)
  | [] => []
  | [(p, _)] => [(p, some node)]
  | p :: q :: ps => p :: typeLast node (q :: ps)

/-- What a node below has to say is taken over. -/
def adopt (m below : Meaning) : Meaning :=
  { m with
    references := if below.references.isEmpty then m.references else below.references
    parameters := m.parameters ++ below.parameters
    firstChild := below.firstChild.or m.firstChild }

/-- One capture with a tag that concerns the node alone. -/
def note (m : Meaning) (node : Nat) (tag : String) : Meaning :=
  let m :=
    match tag with
    | "identifier" => { m with identifier := m.identifier.or (some node) }
    | "child.first" => { m with firstChild := m.firstChild.or (some node) }
    | "child.last" => { m with lastChild := m.lastChild.or (some node) }
    | "parameter.identifier" => { m with parameters := m.parameters ++ [(node, none)] }
    | "parameter.type" => { m with parameters := typeLast node m.parameters }
    | _ => m
  let m := if Text.beginsWith "reference" tag then
      { m with references := m.references ++ [(node, tag)] } else m
  { m with kind := m.kind.or (BlockKind.ofTag? tag) }

/-- Reads the captures of a query for a node.  Nothing counts before the capture that tags the
node itself as `root`.  `search` answers the question for another node. -/
def read (tree : SyntaxTree) (search : Nat → Outcome (Option Meaning)) (node : Nat) :
    Bool → Meaning → List Capture → Outcome (Option Meaning)
  | _, m, [] => .ok (if m.kind.isSome then some m else none)
  | rooted, m, c :: cs =>
    let rooted := rooted || (c.tag = "root" && c.node = node)
    if !rooted then read tree search node false m cs
    else if c.tag = "no_children" && !(tree.children c.node).isEmpty then .ok none
    else if c.tag = "check_child" then
      match search c.node with
      | .error e => .error e
      | .ok found => .ok (found.map fun f => { f with checked := some c.node })
    else if c.tag = "parse_child" then
      match search c.node with
      | .error e => .error e
      | .ok found =>
        read tree search node true ((found.elim m m.adopt).note c.node c.tag) cs
    else read tree search node true (m.note c.node c.tag) cs

/-! ## §2. Trying queries. -/

/-- The answer of the first query that has one. -/
def firstAnswer (answer : Query → Outcome (Option Meaning)) : List Query → Outcome (Option Meaning)
  | [] => .ok none
  | q :: qs =>
    match answer q with
    | .error e => .error e
    | .ok (some m) => .ok (some { m with query := m.query.or (some q.label) })
    | .ok none => firstAnswer answer qs

/-- What the queries say about a node.  A question that is handed on more often than there are
nodes never ends. -/
def search (tree : SyntaxTree) (table : CaptureTable) (queries : List Query) :
    Nat → Nat → Outcome (Option Meaning)
  | 0, _ => .error .endless
  | fuel + 1, node =>
    firstAnswer (fun q => read tree (search tree table queries fuel) node false {}
        (tree.capturesAt table q.label node))
      (queries.filter fun q => q.admits (tree.kind node))

/-- What the queries for generated code say about a node; their matches begin at the parent. -/
def searchTweaks (tree : SyntaxTree) (table : CaptureTable) (dialect : Dialect) (node : Nat) :
    Outcome (Option Meaning) :=
  firstAnswer (fun q => read tree (search tree table dialect.queries (tree.nodes.size + 1)) node
      false {} ((tree.parent? node).elim [] (tree.capturesAt table q.label)))
    (dialect.tweaks.filter fun q => q.admits (tree.kind node))

/-- What a node means.  Around a syntax error nothing is asked. -/
def ofNode (tree : SyntaxTree) (table : CaptureTable) (dialect : Dialect) (tweaked : Bool)
    (node : Nat) : Outcome Meaning := do
  if tree.kind node = "ERROR" || (tree.children node).any fun c => tree.kind c = "ERROR" then
    return error
  let tweak ← if tweaked then searchTweaks tree table dialect node else pure none
  match tweak with
  | some m => return m
  | none =>
    return (← search tree table dialect.queries (tree.nodes.size + 1) node).getD unknown

/-! ## §3. References and parameters. -/

/-- The kind of relationship that a tag stands for. -/
def refKind (kind : Option BlockKind) : String → RefKind
  | "reference.utilizes" =>
    if kind = some .functionDef || kind = some .classDef then .definedBy else .utilizes
  | "reference.provides" => .provides
  | "reference.calls" => .calls
  | "reference.type" => .isA
  | "reference.imports" => .imports
  | _ => .uses

/-- The relationships of an import: everything it names comes from the module that it names
first.  An alias of the module names no path inside it. -/
def importRelationships (tree : SyntaxTree) (references : List (Nat × String)) :
    Outcome (List Relationship) := do
  match references.find? fun r => r.2 = "reference.module" with
  | none => return []
  | some module =>
    let source ← tree.text module.1
    let base : Relationship :=
      { scope := .external, kind := .imports, externalPath := [source] }
    if references.length ≤ 1 then return [{ base with identifier := some source }]
    (references.filter (· ≠ module)).mapM fun r => do
      let name ← tree.text r.1
      return { base with
        identifier := some name
        path := if r.2 = "reference.alias" then [] else [name] }

/-- The relationships that a node's references stand for. -/
def relationships (tree : SyntaxTree) (m : Meaning) (name : Option String) :
    Outcome (List Relationship) :=
  if m.kind = some .importStmt && !m.references.isEmpty then importRelationships tree m.references
  else
    m.references.mapM fun r => do
      return { scope := .inBlock, kind := refKind m.kind r.2, identifier := name
               path := Text.split '.' (← tree.text r.1) }

/-- The parameters of a node, each with the reference to its type if it has one. -/
def typedParameters (tree : SyntaxTree) (m : Meaning) :
    Outcome (List (Parameter × Option Relationship)) :=
  m.parameters.mapM fun (node, typeNode) => do
    let typeName ← typeNode.mapM tree.text
    let name ← tree.text node
    let reference :=
      match typeName with
      | none | some "" => none
      | some t =>
        some { scope := .inBlock, identifier := some name
               path := Text.split '.' (String.ofList (t.toList.filter (· ≠ '"'))) }
    return (⟨name, typeName⟩, reference)

end Meaning

end CodeAtlas
