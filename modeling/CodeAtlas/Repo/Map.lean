import CodeAtlas.Digraph
import CodeAtlas.Repo.Export
import CodeAtlas.Repo.FileStore
import CodeAtlas.Repo.Import
import CodeAtlas.Repo.Place
import CodeAtlas.Scope.Reading

/-!
# The map of a repository

Which scopes of which files refer to which exported scopes of other files.  Every file is read into
a scope map, its imports are resolved, and each reference to an imported name that the other file
exports becomes an edge from the referring scope to the exported one.

Names in the program: `RepoGraph` for `RepoMap` and for `build`, which makes one;
`_construct_scopes` for `scopeMapOf` of all files, `map_local_to_exports` for `tiesOfFile`,
`create_node` for `ensureNode`, `import_to_export_scope` for `exportsFor`, `to_str` for `text`,
`print_missing_imports` for `report`.
-/

namespace CodeAtlas

/-- A reference to be followed: an import, and the scope of a file that exports the name. -/
structure Tie where
  source : FileImport
  scope : Nat
  name : String
  target : FilePath
  deriving Repr, Inhabited

/-- The map of a repository. -/
structure RepoMap where
  tree : FileTree
  /-- The scope maps of the files, by path. -/
  scopeMaps : List (FilePath × ScopeMap) := []
  imports : List (FilePath × List FileImport) := []
  /-- Imported names that no edge stands for yet, by file. -/
  missing : List (FilePath × List String) := []
  /-- Imported names that edges stand for, by file, once for each time an edge was added. -/
  resolved : List (FilePath × List String) := []
  /-- Referring scopes, noted whenever an edge needs a new node. -/
  noted : List String := []
  graph : Digraph String Unit := {}
  /-- What is said while the map is made. -/
  log : List String := []
  deriving DecidableEq, Inhabited

namespace RepoMap

/-! ## §1. Files and imports. -/

/-- The scope map of a file, by what is known about its source. -/
def scopeMapOf (tree : FileTree) (readings : List Reading) (e : FileEntry) :
    Outcome (FilePath × ScopeMap) := do
  return (e.filePath, ← (Reading.find readings (← tree.read e)).scopeMap)

/-- The scope map of a file; a file that was not read has none. -/
def scopeMap (g : RepoMap) (file : FilePath) : Outcome ScopeMap :=
  match Assoc.get? file g.scopeMaps with
  | some s => .ok s
  | none => .error (.noEntry file.shownKey)

/-! ## §2. Ties. -/

/-- The exports that an import means: those of its name in the file found for its module.  The
opening file of a directory exports nothing. -/
def tiesOf (g : RepoMap) (i : FileImport) : Outcome (List Tie) := do
  match g.tree.find? i.name.path.parts with
  | none => return []
  | some file =>
    if Text.contains "__init__.py" file.text then return []
    let exports ← (← g.scopeMap file).exports
    return (exports.filter fun e => e.1 = i.name.child).map fun (name, scope) =>
      { source := i, scope, name, target := file }

/-- The ties of the imports of a file from the same repository. -/
def tiesOfFile (g : RepoMap) (imports : List FileImport) : Outcome (List Tie) := do
  return (← (imports.filter fun i => i.sort = .inRepo).mapM g.tiesOf).flatten

/-! ## §3. Edges. -/

/-- Adds a node unless it is there; a new node must be readable, and notes a referring scope. -/
def ensureNode (g : RepoMap) (id noting : String) : Outcome RepoMap := do
  if g.graph.nodes.contains id then return g
  let _ ← RepoPlace.decode id
  return { g with graph := g.graph.addNode id, noted := Assoc.insertNew noting g.noted }

/-- Adds a name to the resolved names of a file. -/
def noteResolved (g : RepoMap) (file : FilePath) (name : String) : RepoMap :=
  { g with
    resolved := Assoc.put file ((Assoc.get? file g.resolved).getD [] ++ [name]) g.resolved }

/-- Takes a name off the missing names of a file. -/
def dropMissing (g : RepoMap) (file : FilePath) (name : String) : RepoMap :=
  { g with missing := Assoc.modify file (fun names => names.filter (· ≠ name)) g.missing }

/-- What is said about an edge from a file that is looked at closely. -/
def remark (file : FilePath) (t : Tie) (refScope : Nat) : List String :=
  if Text.contains "client.py" file.text then
    ["Adding ref: " ++ t.source.name.child ++ ":" ++ Nat.repr refScope ++ " -> " ++ t.target.text
      ++ ":" ++ Nat.repr t.scope]
  else []

/-- Adds the edge from a referring scope to an exported one. -/
def addTie (g : RepoMap) (file : FilePath) (t : Tie) (refScope : Nat) : Outcome RepoMap := do
  let g := { g with log := g.log ++ remark file t refScope }
  let source ← RepoPlace.write file.text refScope
  let g ← g.ensureNode source source
  let g := (g.dropMissing file t.source.name.text).noteResolved file t.name
  let target ← RepoPlace.write t.target.text t.scope
  let g ← g.ensureNode target source
  return { g with graph := g.graph.addEdge source target () }

/-- Adds the edges of the imports of a file. -/
def linkFile (g : RepoMap) (file : FilePath) (imports : List FileImport) : Outcome RepoMap := do
  (← g.tiesOfFile imports).foldlM (fun g t =>
    t.source.refScopes.foldlM (fun g s => g.addTie file t s) g) g

/-! ## §4. The whole map. -/

/-- The files of a repository, read, with their imports and no edges. -/
def unlinked (w : FileImport.Setting) (readings : List Reading) : Outcome RepoMap := do
  let scopeMaps ← w.tree.sources.mapM (scopeMapOf w.tree readings)
  let imports ← scopeMaps.mapM fun (file, s) => do return (file, ← FileImport.ofFile w file s)
  return {
    tree := w.tree, scopeMaps, imports
    missing := imports.map fun (file, is) => (file, is.map fun i => i.name.text) }

/-- The map of a repository under given lists of modules. -/
def build (w : FileImport.Setting) (readings : List Reading) : Outcome RepoMap := do
  let g ← unlinked w readings
  g.imports.foldlM (fun g (file, imports) => g.linkFile file imports) g

/-- The map of the files of a tree. -/
def ofTree (tree : FileTree) (readings : List Reading) : Outcome RepoMap :=
  build ⟨tree, .system, .thirdParty⟩ readings

/-- The map of the files below a path, which must be there. -/
def ofDirectory (store : FileStore) (above : List String) (directory : FilePath)
    (readings : List Reading) : Outcome RepoMap :=
  match store.tree? above directory with
  | none => .error (.noSuchRoot directory.text)
  | some tree => ofTree tree readings

/-! ## §5. Asking. -/

/-- The exported scopes that a scope refers to. -/
def exportsFor (g : RepoMap) (id : String) : Outcome (List RepoPlace) :=
  (g.graph.targets id).mapM RepoPlace.decode

/-- One line for each edge, with the names of the files. -/
def text (g : RepoMap) : Outcome String := do
  return String.join (← g.graph.edgeList.mapM fun ((u, v), _) => do
    return (← RepoPlace.decode u).name ++ " -> " ++ (← RepoPlace.decode v).name ++ "\n")

/-- The missing and resolved imports of each file. -/
def report (g : RepoMap) : String :=
  String.join (g.missing.map fun (file, names) =>
    let resolved := (Assoc.get? file g.resolved).getD []
    "Path:  " ++ file.text ++ "\n"
      ++ String.join (names.map fun n => "- " ++ n ++ "\n")
      ++ String.join (resolved.map fun n => "Resolved:  " ++ n ++ "\n")
      ++ "Total missing: " ++ Nat.repr names.length ++ ", Total resolved: "
      ++ Nat.repr resolved.length ++ "\n")

/-- All that is said about a repository: while its map is made, its imports, and its edges. -/
def summary (g : RepoMap) : Outcome String := do
  return String.join (g.log.map (· ++ "\n")) ++ g.report ++ (← g.text) ++ "\n"

end RepoMap

end CodeAtlas
