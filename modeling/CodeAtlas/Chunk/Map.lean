import CodeAtlas.Chunk.Cluster
import CodeAtlas.Json.Lenient
import CodeAtlas.Json.Writer
import CodeAtlas.Network
import CodeAtlas.Repo.Map

/-!
# The map of chunks

Pieces of the source files of a repository, and which piece uses what another one exports.  A
reference in a chunk is looked up in the scopes of its file, followed to the exported scope in the
map of the repository, and from the rows of that scope back to a chunk.

Names in the program: `ChunkMetadata`, `ChunkNode` and `ChunkGraph` for `ChunkRecord`,
`ChunkEntry` and `ChunkMap`; `from_chunks` for `ofChunks`, `build_import_exports` for `linkChunk`
of each chunk, `find_chunk` for `chunkAt?`, `from_json` for `ofJson`, `get_node` and
`get_all_nodes` for `nodeOf` and `allNodes`, `set_community` for `assign`, `update_node` for
`addAsNode`, `cluster` for `clusters`, `to_nodes` for `clustered`, `to_str` for `text`,
`_chunk_short_name` for `shortName`, `_get_classes_and_funcs` for `classesAndFunctions`.
-/

namespace CodeAtlas

/-! ## §1. Chunks. -/

/-- What is known about a chunk. -/
structure ChunkRecord where
  filePath : String
  fileName : String
  fileType : String
  category : String
  tokens : Int
  spanIds : List String
  startLine : Int
  endLine : Int
  /-- The cluster that the chunk was put into. -/
  community : Json := .null
  deriving BEq, Inhabited

/-- A chunk in a map. -/
structure ChunkEntry where
  id : String
  record : ChunkRecord
  content : String
  deriving BEq, Inhabited

/-- The rows of a chunk. -/
def ChunkEntry.range (c : ChunkEntry) : SourceRange :=
  SourceRange.ofRows c.record.startLine c.record.endLine

/-- The chunk in a cluster. -/
def ChunkEntry.moveTo (c : ChunkEntry) (community : Json) : ChunkEntry :=
  { c with record := { c.record with community } }

namespace ChunkRecord

/-- The file of a chunk. -/
def file (r : ChunkRecord) : FilePath :=
  FilePath.ofText r.filePath

/-- The fields that a record must have. -/
def neededFields : List String :=
  ["file_path", "file_name", "file_type", "category", "tokens", "span_ids", "start_line",
   "end_line"]

/-- The fields that a record can have, in order. -/
def fieldNames : List String :=
  neededFields ++ ["community"]

/-- The record with the given values. -/
def ofValues? (value : String → Json) : Option ChunkRecord := do
  return {
    filePath := ← (value "file_path").plainText?
    fileName := ← (value "file_name").plainText?
    fileType := ← (value "file_type").plainText?
    category := ← (value "category").plainText?
    tokens := ← (value "tokens").wholeNumber?
    spanIds := ← (value "span_ids").plainTexts?
    startLine := ← (value "start_line").wholeNumber?
    endLine := ← (value "end_line").wholeNumber?
    community := ((← (value "community").orNull? Json.wholeNumber?).map .int).getD .null }

/-- The word for a record in messages. -/
def owner : String := "ChunkMetadata.__init__()"

/-- The record with the given fields: no other fields, then no missing ones, then the values. -/
def ofFields (fields : List (String × Json)) : Outcome ChunkRecord := do
  if let some f := fields.find? fun f => !fieldNames.contains f.1 then
    throw (.unknownField owner f.1)
  let missing := neededFields.filter fun name => !Assoc.has name fields
  if !missing.isEmpty then throw (.missingFields owner missing)
  let value (name : String) : Json := (Assoc.get? name fields).getD .null
  if ["tokens", "start_line", "end_line", "community"].any fun name => (value name).isInfinite then
    throw .infiniteNumber
  (ofValues? value).elim (.error .invalidRecord) .ok

/-- The record that a field of a node stands for: an object, or a list of the values in order. -/
def ofJson (j : Json) : Outcome ChunkRecord :=
  let read :=
    match j with
    | .obj fields => ofFields fields
    | .arr values =>
      if values.length ≤ fieldNames.length then ofFields (fieldNames.zip values)
      else .error .invalidRecord
    | _ => .error .invalidRecord
  match read with
  | .ok record => .ok record
  | .error .infiniteNumber => .error .infiniteNumber
  | .error _ => .error .invalidRecord

/-- The short name of a chunk: the last two names of its path, its number and its size.  `above`
are the names in front of the path. -/
def shortName (r : ChunkRecord) (above : List String) (number : Nat) : String :=
  let names := above ++ Text.split '/' r.filePath
  Text.join "/" (names.drop (names.length - 2)) ++ "#" ++ Nat.repr number ++ "."
    ++ Text.decimal (r.endLine - r.startLine)

end ChunkRecord

/-! ## §2. The map. -/

/-- A node of a chunk map: a name, another value, in which lists are fixed rows, or a chunk. -/
inductive ChunkKey where
  | named (id : String)
  | literal (value : Json)
  /-- A chunk whose record the map keeps under its name. -/
  | shared (id : String)
  /-- A chunk with a record of its own; `number` is that of the node. -/
  | lone (number : Nat) (chunk : ChunkEntry)
  deriving Inhabited

namespace ChunkKey

/-- Nodes are the same if their names are, or their values, or all that is known of their chunks. -/
def same : ChunkKey → ChunkKey → Bool
  | .named a, .named b => a == b
  | .literal a, .literal b => a.same b
  | .shared a, .shared b => a == b
  | .lone _ a, .lone _ b => a == b
  | _, _ => false

instance : BEq ChunkKey := ⟨same⟩

mutual
/-- A value in which lists are fixed rows, as messages show it. -/
def rowText : Json → String
  | .arr [j] => "(" ++ rowText j ++ ",)"
  | .arr items => "(" ++ Text.join ", " (rowTexts items) ++ ")"
  | other => other.shown

def rowTexts : List Json → List String
  | [] => []
  | j :: rest => rowText j :: rowTexts rest
end

mutual
/-- Does a value hold an object, which cannot be part of a key? -/
def objectIn : Json → Bool
  | .obj _ => true
  | .arr items => objectInAny items
  | _ => false

def objectInAny : List Json → Bool
  | [] => false
  | j :: rest => objectIn j || objectInAny rest
end

def text : ChunkKey → String
  | .named id => id
  | .literal value => rowText value
  | .shared id => id
  | .lone _ c => c.id

/-- A key as messages show it. -/
def shown : ChunkKey → String
  | .named id => Text.quoted id
  | key => key.text

/-- The word for the sort of a key. -/
def sort : ChunkKey → String
  | .named _ => "str"
  | .literal (.arr _) => "tuple"
  | .literal value => value.sort
  | .shared _ | .lone .. => "ChunkNode"

/-- The key that a value stands for; a list is a fixed row of its items. -/
def ofJson (j : Json) : Outcome ChunkKey :=
  match j with
  | .str s => .ok (.named s)
  | .null => .error .emptyNode
  | value => if objectIn value then .error (.notHashable "dict") else .ok (.literal value)

/-- The key at the end of an edge: only the outermost list is a fixed row. -/
def ofEnd (j : Json) : Outcome ChunkKey :=
  match j.items.find? fun item => item.sort = "list" || item.sort = "dict" with
  | some item => .error (.notHashable item.sort)
  | none => ofJson j

/-- The key that a value stands for as it is. -/
def ofNode (j : Json) : Outcome ChunkKey :=
  if j.sort = "list" then .error (.notHashable "list") else ofJson j

/-- The key that is looked up. -/
def ofLookup (j : Json) : Outcome ChunkKey :=
  if j.sort = "NoneType" then .error (.noEntry "None") else ofNode j

end ChunkKey

/-- What a node has. -/
inductive ChunkData where
  /-- A chunk whose record is kept, so that changes of it stay. -/
  | kept (record : ChunkRecord) (content : String)
  /-- Fields out of which the chunk is made anew each time. -/
  | given (fields : List (String × Json))
  deriving Inhabited

/-- The names of the fields of a node. -/
def ChunkData.fieldNames : ChunkData → List String
  | .kept .. => ["content", "metadata"]
  | .given fields => fields.map (·.1)

/-- The chunk that a node stands for. -/
def ChunkData.chunk (id : String) : ChunkData → Outcome ChunkEntry
  | .kept record content => .ok ⟨id, record, content⟩
  | .given fields => do
    let record ← ChunkRecord.ofJson ((Assoc.get? "metadata" fields).getD .null)
    match (Assoc.get? "content" fields).bind Json.plainText? with
    | some content => return ⟨id, record, content⟩
    | none => throw .invalidRecord

/-- The fields of an edge. -/
abbrev EdgeFields := List (String × Json)

/-- Chunks of a repository, with edges from chunks that use something to chunks that export it. -/
structure ChunkMap where
  repo : RepoMap
  data : List (ChunkKey × ChunkData) := []
  graph : Network ChunkKey EdgeFields := {}
  /-- The chunks by file. -/
  placed : List (FilePath × ChunkEntry) := []
  deriving Inhabited

namespace ChunkMap

/-- What every edge of a map made from chunks says. -/
def edgeFields : EdgeFields := [("kind", .str "ImportToExport")]

/-- The chunk of a node. -/
def nodeOf (g : ChunkMap) (key : ChunkKey) : Outcome ChunkEntry :=
  match key, Assoc.get? key g.data with
  | .shared _, _ | .lone .., _ | .literal (.arr _), some _ => .error .invalidRecord
  | key, some data => data.chunk key.text
  | key, none => .error (.noEntry key.shown)

/-- All chunks, in the order of the nodes. -/
def allNodes (g : ChunkMap) : Outcome (List ChunkEntry) :=
  g.graph.nodes.mapM g.nodeOf

/-- The first chunk of a file that has all rows of a range. -/
def chunkAt? (g : ChunkMap) (file : FilePath) (range : SourceRange) : Option ChunkEntry :=
  (g.placed.find? fun (f, c) => f = file && c.range.containsRows range).map (·.2)

/-- The edges with their kinds; an edge must have one. -/
def edges (g : ChunkMap) : Outcome (List (ChunkKey × ChunkKey × Json)) :=
  g.graph.edgeList.mapM fun ((u, v), fields) =>
    match Assoc.get? "kind" fields with
    | some kind => .ok (u, v, kind)
    | none => .error (.noEntry "'kind'")

/-- One line for each edge. -/
def text (g : ChunkMap) : Outcome String := do
  return String.join (← g.graph.edgeList.mapM fun ((u, v), _) => do
    return (← g.nodeOf u).id ++ " -> " ++ (← g.nodeOf v).id ++ "\n")

/-! ## §3. Making a map from chunks. -/

/-- Adds a chunk under its short name. -/
def addChunk (g : ChunkMap) (number : Nat) (record : ChunkRecord) (content : String) :
    ChunkMap :=
  let id := record.shortName g.repo.tree.above number
  { g with
    data := Assoc.put (.named id) (.kept record content) g.data
    graph := g.graph.addNode (.named id)
    placed := g.placed ++ [(record.file, ⟨id, record, content⟩)] }

/-- The rows of an exported scope. -/
def exportedRange (g : ChunkMap) (n : RepoPlace) : Outcome SourceRange := do
  match (← g.repo.scopeMap (FilePath.ofText n.file)).rangeOf? n.scope.toNat with
  | some range => return range
  | none => .error (.absent "start_point")

/-- Adds the edges for one reference in a chunk. -/
def linkReference (g : ChunkMap) (c : ChunkEntry) (scopes : ScopeMap) (range : SourceRange) :
    Outcome ChunkMap := do
  let file := c.record.file
  let exported ← g.repo.exportsFor (← RepoPlace.write file.text (scopes.scopeAt range))
  let ranges ← exported.mapM g.exportedRange
  return ranges.foldl (fun g r =>
    match g.chunkAt? file r with
    | some target =>
      { g with
        graph := g.graph.addEdge (.named c.id) (.named target.id) none fun _ => edgeFields }
    | none => g) g

/-- Adds the edges of a chunk. -/
def linkChunk (readings : List Reading) (g : ChunkMap) (c : ChunkEntry) : Outcome ChunkMap := do
  let scopes ← g.repo.scopeMap c.record.file
  let refs ← (Reading.find readings ⟨(Text.bytes c.content).toArray⟩).references
  refs.foldlM (fun g (_, range) => g.linkReference c scopes range) g

/-- The chunks of a repository, numbered from 1, without edges. -/
def unlinked (repo : RepoMap) (chunks : List (ChunkRecord × String)) : ChunkMap :=
  (chunks.zipIdx 1).foldl (fun (g : ChunkMap) ((record, content), i) =>
    g.addChunk i record content) { repo }

/-- The map of the chunks of a repository. -/
def ofChunks (repo : RepoMap) (readings : List Reading) (chunks : List (ChunkRecord × String)) :
    Outcome ChunkMap := do
  let g := unlinked repo chunks
  if g.graph.nodes.length ≠ chunks.length then .error .namesCollide
  else (← g.allNodes).foldlM (linkChunk readings) g

/-! ## §4. Making a map from a description. -/

/-- Puts the fields of `new` into those of `old`. -/
def mergeFields (old new : List (String × Json)) : List (String × Json) :=
  new.foldl (fun fields f => Assoc.put f.1 f.2 fields) old

/-- The fields of a node that is described. -/
def givenFields (g : ChunkMap) (key : ChunkKey) : List (String × Json) :=
  match Assoc.get? key g.data with
  | some (.given fields) => fields
  | _ => []

/-- Adds fields to a node, which is new if it is not there. -/
def describe (g : ChunkMap) (key : ChunkKey) (fields : List (String × Json)) : ChunkMap :=
  { g with
    data := Assoc.put key (.given (mergeFields (g.givenFields key) fields)) g.data
    graph := g.graph.addNode key }

/-- The fields of a description may not have the name of something that is given apart. -/
def checkFields (owner : String) (taken : List String) (fields : List (String × Json)) :
    Outcome Unit :=
  match fields.find? fun f => taken.contains f.1 with
  | some f => .error (.givenTwice owner f.1)
  | none => .ok ()

/-- The word for adding a node in messages. -/
def nodeOwner (g : ChunkMap) : String :=
  (if g.graph.isDirected then "DiGraph" else "Graph") ++ ".add_node()"

/-- The word for adding an edge in messages. -/
def edgeOwner (g : ChunkMap) : String :=
  (if g.graph.isParallel then "Multi" else "") ++ (if g.graph.isDirected then "DiGraph" else "Graph")
    ++ ".add_edge()"

/-- What is given apart from the fields of an edge. -/
def edgeParts (g : ChunkMap) : List String :=
  if g.graph.isParallel then ["self", "u_for_edge", "v_for_edge"]
  else ["self", "u_of_edge", "v_of_edge"]

/-- Adds a described node.  One without an id is known by its number among the nodes. -/
def addGiven (g : ChunkMap) (number : Nat) (j : Json) : Outcome ChunkMap :=
  match j with
  | .obj fields => do
    let rest := fields.filter fun f => f.1 ≠ "id"
    checkFields g.nodeOwner ["self", "node_for_adding"] rest
    return g.describe (← ChunkKey.ofJson ((Assoc.get? "id" fields).getD (.int number))) rest
  | other => .error (.noMember other.sort "get")

/-- The end of a described edge. -/
def endOf (j : Json) (name : String) : Outcome Json :=
  match j with
  | .obj fields => (Assoc.get? name fields).elim (.error (.noEntry (Text.quoted name))) .ok
  | other => .error (.noIndex other.sort)

/-- The key of a described edge, if it has one.  Truth values are numbers, and numbers count by
their size. -/
def keyOf (j : Json) : Outcome (Option EdgeKey) :=
  match j.canonical with
  | .int n => .ok (some (.number n))
  | .real x => .ok (some (.fraction x))
  | .str s => .ok (some (.word s))
  | .arr _ | .obj _ => .error (.notHashable j.sort)
  | _ => .ok none

/-- Adds a described edge; ends that are not there are added without fields. -/
def linkGiven (g : ChunkMap) (j : Json) : Outcome ChunkMap := do
  let source ← endOf j "source"
  let target ← endOf j "target"
  let fields := j.fields.filter fun f =>
    f.1 ≠ "source" && f.1 ≠ "target" && !(g.graph.isParallel && f.1 = "key")
  checkFields g.edgeOwner g.edgeParts fields
  let source ← ChunkKey.ofEnd source
  let target ← ChunkKey.ofEnd target
  let key ← if g.graph.isParallel then keyOf (j.field "key") else pure none
  let g := (g.describe source []).describe target []
  return { g with
    graph := g.graph.addEdge source target key fun old => mergeFields (old.getD []) fields }

/-- The items of a field that a description must have. -/
def listField (j : Json) (name : String) : Outcome (List Json) :=
  match j.field? name with
  | none => .error (.noEntry (Text.quoted name))
  | some value => value.members?.elim (.error (.notIterable value.sort)) .ok

/-- The map of a description with `nodes` and `links`, which is read before the repository. -/
def ofJson (repo : Outcome RepoMap) (j : Json) : Outcome ChunkMap := do
  if j.sort ≠ "dict" then throw (.noMember j.sort "get")
  let shape : Network ChunkKey EdgeFields :=
    { isDirected := (j.field "directed").isTruthy
      isParallel := ((j.field? "multigraph").getD (.bool true)).isTruthy }
  let start : ChunkMap := { repo := default, graph := shape }
  let g ← (← listField j "nodes").zipIdx.foldlM (fun g (node, i) => g.addGiven i node) start
  let g ← (← listField j "links").foldlM linkGiven g
  return { g with repo := ← repo }

/-! ## §5. Changing a map. -/

/-- Puts a chunk into a cluster; only a chunk whose record is kept remembers it. -/
def assign (g : ChunkMap) (key : ChunkKey) (community : Json) :
    Outcome (ChunkEntry × ChunkMap) := do
  let c ← g.nodeOf key
  let moved := c.moveTo community
  match Assoc.get? key g.data with
  | some (.kept _ content) =>
    return (moved, { g with data := Assoc.put key (.kept moved.record content) g.data })
  | _ => return (moved, g)

/-- Puts the chunk with a key into the graph as a node of its own, and counts the nodes. -/
def addAsNode (g : ChunkMap) (key : ChunkKey) : Outcome (Nat × ChunkMap) := do
  let c ← g.nodeOf key
  let node : ChunkKey :=
    match Assoc.get? key g.data with
    | some (.kept ..) => .shared c.id
    | _ => .lone g.graph.nodes.length c
  let grown := { g with graph := g.graph.addNode node }
  return (grown.graph.nodes.length, grown)

/-- Puts the chunk that is the node with a number, and has a record of its own, into a cluster. -/
def moveLone (g : ChunkMap) (number : Nat) (community : Json) : ChunkMap :=
  let nodes := g.graph.nodes.map fun key =>
    match key with
    | .lone n c => if n = number then .lone n (c.moveTo community) else key
    | key => key
  { g with graph := { g.graph with nodes } }

/-- The nodes with the names of their fields. -/
def fieldTable (g : ChunkMap) : List (String × List String) :=
  g.graph.nodes.map fun key => (key.text, ((Assoc.get? key g.data).map (·.fieldNames)).getD [])

/-! ## §6. Clusters. -/

/-- How clusters are found. -/
inductive Method where
  | tree (leaves : List ModuleLeaf)
  | partition (numbers : List (List Int))
  | unknown
  deriving Repr, Inhabited

/-- The clusters of a map. -/
def clusters (g : ChunkMap) : Method → Outcome (Clusters ChunkKey)
  | .tree leaves => Clusters.ofLeaves g.graph.nodes leaves
  | .partition numbers => Clusters.ofPartition g.graph.nodes numbers
  | .unknown => .error (.unset "chunk2clusters")

/-- Notes the cluster of a node in its chunk.  A node that is a mere name or number cannot note it,
and a node that is a chunk is looked up by its name. -/
def noteCluster (g : ChunkMap) (c : Clusters ChunkKey) (key : ChunkKey) : Outcome ChunkMap :=
  let clusterOf (id : String) : Outcome Json :=
    match Assoc.get? (ChunkKey.named id) c.ofNode with
    | none => .error (.noEntry (Text.quoted id))
    | some cluster => .ok (.int cluster)
  match key with
  | .shared id => do
    let cluster ← clusterOf id
    return ((g.assign (.named id) cluster).map (·.2)).toOption.getD g
  | .lone number chunk => do return g.moveLone number (← clusterOf chunk.id)
  | key => .error (.noMember key.sort "set_community")

/-- Notes the clusters of nodes, one after the other, up to the first that cannot note it. -/
def noteClusters (c : Clusters ChunkKey) (g : ChunkMap) : List ChunkKey → Outcome Unit × ChunkMap
  | [] => (.ok (), g)
  | key :: rest =>
    match g.noteCluster c key with
    | .ok g => noteClusters c g rest
    | .error e => (.error e, g)

/-- All chunks, after their clusters were noted if leaves are given. -/
def clustered (g : ChunkMap) : Option (List ModuleLeaf) → Outcome (List ChunkEntry) × ChunkMap
  | none => (g.allNodes, g)
  | some leaves =>
    match g.clusters (.tree leaves) with
    | .error e => (.error e, g)
    | .ok c =>
      let (r, g) := noteClusters c g (c.members.flatMap (·.2))
      (r.bind fun _ => g.allNodes, g)

/-- The classes and functions in a scope of a file. -/
def classesAndFunctions (g : ChunkMap) (file : FilePath) (scope : Int) :
    Outcome (List ScopeEntry) := do
  let scopes ← g.repo.scopeMap file
  let defs ← scopes.atNode scope (scopes.sources .defToScope)
  return scopes.pick (← scopes.classesAndFunctions defs)

end ChunkMap

end CodeAtlas
