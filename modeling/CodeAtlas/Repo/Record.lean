import CodeAtlas.Repo.Map
import CodeAtlas.Scope.Record

/-!
# Repositories as records

A repository is described by its files: each has a path, and a source with its tagged ranges.  A
path that ends in a slash is a directory.
-/

namespace CodeAtlas

namespace FileStore

/-- The name of the directory that files are written to. -/
def baseName : String := "repo"

/-- Writes a file below a directory; a path that ends in a slash is a directory. -/
def writeText (s : FileStore) (directory path : String) (bytes : ByteArray) : FileStore :=
  s.write (FilePath.namesOf directory ++ FilePath.namesOf path)
    (if Text.endsWith "/" path then none else some bytes)

/-- The store of the described files, below a directory. -/
def ofJson (directory : String) (files : List Json) : FileStore :=
  files.foldl (fun s f => s.writeText directory ((f.field "path").str?.getD "") (Source.ofJson f))
    (.empty [baseName])

end FileStore

namespace FileImport

def toJson (i : FileImport) : Json :=
  .obj [("namespace", .str i.name.text), ("type", .str i.sort.label), ("filepath", .str i.file.text),
    ("import_path", Json.ofOption (fun p => .str p.text) i.found),
    ("ref_scopes", .arr (i.refScopes.map fun (s : Nat) => .int s)), ("text", .str i.text)]

end FileImport

namespace RepoMap

/-- The map of the described files. -/
def ofJson (store : FileStore) (above : List String) (directory : String) (sources : List Json) :
    Outcome RepoMap :=
  ofDirectory store above (FilePath.ofText directory) (sources.map Reading.ofJson)

end RepoMap

end CodeAtlas
