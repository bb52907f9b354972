import CodeAtlas.Repo.FileTree
import CodeAtlas.Repo.ModuleList
import CodeAtlas.Repo.Namespace
import CodeAtlas.Scope.Query

/-!
# Imports between files

What the imports of a file mean: for each imported name, the sort of its module, the file that it
comes from, and the scopes of the importing file that refer to it.

Names in the program: `LocalImport` for `FileImport`; `import_stmt_to_import` for `ofStatement`,
`_construct_import` for `ofFile`.
-/

namespace CodeAtlas

/-- Where an imported module comes from. -/
inductive ModuleSort where
  /-- From a file of the same repository. -/
  | inRepo
  | system
  | thirdParty
  | unknown
  deriving Repr, DecidableEq, Inhabited

namespace ModuleSort

def label : ModuleSort → String
  | .inRepo => "local"
  | .system => "sys"
  | .thirdParty => "third_party"
  | .unknown => "unknown"

def name : ModuleSort → String
  | .inRepo => "LOCAL"
  | .system => "SYS"
  | .thirdParty => "THIRD_PARTY"
  | .unknown => "UNKNOWN"

end ModuleSort

/-- One imported name. -/
structure FileImport where
  name : Namespace
  sort : ModuleSort
  /-- The importing file. -/
  file : FilePath
  /-- The file that was found last when the import was read. -/
  found : Option FilePath
  /-- The scopes that refer to the name, once for each reference. -/
  refScopes : List Nat
  deriving Repr, DecidableEq, Inhabited

namespace FileImport

def text (i : FileImport) : String :=
  i.name.text ++ " ModuleType." ++ i.sort.name ++ " " ++ (i.found.map (·.text)).getD "None"

/-- The dotted names of an import. -/
def namespacesOf (s : ImportStmt) : List Namespace :=
  if s.source = "" then s.names.map fun n => Namespace.of n ""
  else s.names.map fun n => Namespace.of s.source n

/-- The scopes that refer to a name, once for each reference. -/
def scopesReferringTo (g : ScopeMap) (name : String) : List Nat :=
  g.scopes.flatMap fun s =>
    ((g.sources .refToOrigin s).filter fun r => g.nameOf r = name).map fun _ => s

/-- What is needed to tell where a module comes from. -/
structure Setting where
  tree : FileTree
  system : ModuleList
  thirdParty : ModuleList
  deriving Inhabited

/-- The sort of a module, and the file found for it; `before` is the file found before, which stays
when no file is looked for. -/
def classify (w : Setting) (before : Option FilePath) (n : Namespace) :
    Outcome (ModuleSort × Option FilePath) := do
  if ← w.system.has (.str n.root) then return (.system, before)
  if ← w.thirdParty.has (.str n.root) then return (.thirdParty, before)
  match w.tree.find? n.path.parts with
  | some file => return (.inRepo, some file)
  | none => return (.unknown, none)

/-- The imports of several dotted names, one after the other. -/
def resolveAll (w : Setting) (file : FilePath) (g : ScopeMap) (before : Option FilePath) :
    List Namespace → Outcome (List FileImport)
  | [] => .ok []
  | n :: rest => do
    let (sort, found) ← classify w before n
    let others ← resolveAll w file g found rest
    return { name := n, sort, file, found, refScopes := scopesReferringTo g n.child } :: others

/-- The imports that a statement stands for. -/
def ofStatement (w : Setting) (file : FilePath) (g : ScopeMap) (s : ImportStmt) :
    Outcome (List FileImport) :=
  resolveAll w file g none (namespacesOf s)

/-- The import statements of a file. -/
def statements (g : ScopeMap) : List ImportStmt :=
  g.allImports.filterMap fun i =>
    match g.item? i with
    | some (.importStmt s) => some s
    | _ => none

/-- All imports of a file. -/
def ofFile (w : Setting) (file : FilePath) (g : ScopeMap) : Outcome (List FileImport) := do
  return (← (statements g).mapM (ofStatement w file g)).flatten

end FileImport

end CodeAtlas
