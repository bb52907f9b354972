import CodeAtlas.Repo.FilePath

/-!
# File trees

The files and directories below a directory.  `FileTree.find?` looks for the source file that a
dotted name may mean: it is enough that the names are the last ones of the path.

Names in the program: `RepoFs` for `FileTree`; `match_file` for `find?`, `get_files_content` for
`read` of all `sources`, `_get_all_paths` for `listed`.
-/

namespace CodeAtlas

/-- Sources are the same if their bytes are. -/
local instance (priority := 2000) decEqSource : DecidableEq ByteArray := fun a b =>
  decidable_of_iff (a.data = b.data) ⟨ByteArray.ext, congrArg ByteArray.data⟩

/-- A file with its bytes, or a directory. -/
structure FileEntry where
  /-- The names from the directory of the tree. -/
  path : List String
  /-- Where the entry lies. -/
  place : List String
  /-- None for a directory. -/
  bytes : Option ByteArray
  deriving DecidableEq, Inhabited

/-- The files and directories below a directory, sorted by their paths. -/
structure FileTree where
  /-- The names in front of the directory, as far as they can be seen. -/
  above : List String
  /-- The names by which the directory was asked for. -/
  asked : List String
  entries : List FileEntry
  deriving DecidableEq, Inhabited

/-- The ending of source files. -/
def sourceEnding : String := ".py"

namespace FileEntry

def isDirectory (e : FileEntry) : Bool :=
  e.bytes.isNone

/-- Is it named like a source file?  This may also be a directory. -/
def isSource (e : FileEntry) : Bool :=
  FilePath.endingOf (e.path.getLast?.getD "") = sourceEnding

/-- The path of an entry. -/
def filePath (e : FileEntry) : FilePath :=
  { names := e.place }

/-- The last name, without the ending of source files wherever it occurs. -/
def moduleName (e : FileEntry) : String :=
  String.ofList (Text.without sourceEnding.toList 0 (e.path.getLast?.getD "").toList)

end FileEntry

namespace FileTree

/-! ## §1. Making a tree. -/

/-- Paths are sorted name by name. -/
def pathLe : List String → List String → Bool
  | [], _ => true
  | _ :: _, [] => false
  | a :: as, b :: bs => if a = b then pathLe as bs else Text.le a b

/-- The tree of the given files and directories. -/
def ofEntries (above asked : List String) (entries : List FileEntry) : FileTree :=
  { above, asked, entries := entries.mergeSort fun a b => pathLe a.path b.path }

/-! ## §2. Sources. -/

/-- The entries that count: directories, and what is named like a source file. -/
def listed (t : FileTree) : List FileEntry :=
  t.entries.filter fun e => e.isSource || e.isDirectory

/-- The bytes of a file; a directory has none. -/
def read (t : FileTree) (e : FileEntry) : Outcome ByteArray :=
  match e.bytes with
  | some bytes => .ok bytes
  | none => .error (.isDirectory ({ names := t.asked ++ e.path } : FilePath).text)

/-- The entries that are named like source files. -/
def sources (t : FileTree) : List FileEntry :=
  t.listed.filter (·.isSource)

/-! ## §3. Looking for a module. -/

/-- Do the parts of a dotted name end the path of an entry? -/
def matchesEnd (t : FileTree) (parts : List String) (e : FileEntry) : Bool :=
  !parts.isEmpty && parts.isSuffixOf (t.above ++ t.asked ++ e.path.dropLast ++ [e.moduleName])

/-- The file that stands for an entry: the entry, or the opening file of a directory. -/
def standsFor (e : FileEntry) : FilePath :=
  if e.isSource then e.filePath else { names := e.place ++ ["__init__.py"] }

/-- The first file whose path ends in the given parts. -/
def find? (t : FileTree) (parts : List String) : Option FilePath :=
  (t.listed.find? (t.matchesEnd parts)).map standsFor

end FileTree

end CodeAtlas
