import CodeAtlas.Assoc
import CodeAtlas.Repo.FileTree

/-!
# Stores of files

Files and directories by the place where they lie: a list of names from the top of the store.  A
path is followed name by name, where the name `..` leads one directory up; what it passes through
must be there.
-/

namespace CodeAtlas

/-- Files and directories by place. -/
structure FileStore where
  /-- The directory that paths are given from. -/
  base : List String
  /-- The bytes of each file; a directory has none. -/
  entries : List (List String × Option ByteArray) := []
  deriving Inhabited

namespace FileStore

/-! ## §1. Writing. -/

/-- A store with nothing in its base. -/
def empty (base : List String) : FileStore :=
  { base, entries := [(base, none)] }

/-- Makes a directory unless something is there. -/
def makeDirectory (s : FileStore) (place : List String) : FileStore :=
  if Assoc.has place s.entries then s else { s with entries := s.entries ++ [(place, none)] }

/-- Follows names from a place and makes the directories that are missing. -/
def enter (s : FileStore) (place : List String) : List String → FileStore × List String
  | [] => (s, place)
  | name :: rest =>
    if name = ".." then s.enter place.dropLast rest
    else (s.makeDirectory (place ++ [name])).enter (place ++ [name]) rest

/-- Writes a file at a path below the base, or makes a directory there if it has no bytes. -/
def write (s : FileStore) (names : List String) : Option ByteArray → FileStore
  | none => (s.enter s.base names).1
  | some bytes =>
    let (s, directory) := s.enter s.base names.dropLast
    { s with entries := Assoc.put (directory ++ names.getLast?.toList) (some bytes) s.entries }

/-! ## §2. Following paths. -/

/-- Is there a directory at a place?  The top is one. -/
def isDirectory (s : FileStore) (place : List String) : Bool :=
  place.isEmpty || (match Assoc.get? place s.entries with
    | some none => true
    | _ => false)

/-- The place that names lead to, if all that they pass through is there. -/
def follow? (s : FileStore) (place : List String) : List String → Option (List String)
  | [] => some place
  | name :: rest =>
    if !s.isDirectory place then none
    else if name = ".." then s.follow? place.dropLast rest
    else if Assoc.has (place ++ [name]) s.entries then s.follow? (place ++ [name]) rest
    else none

/-- A place as seen from the base. -/
def fromBase (s : FileStore) (place : List String) : List String :=
  if s.base.isPrefixOf place then place.drop s.base.length else place

/-- The tree below a path, if the path is there.  `above` are the names in front of the path that
can be seen. -/
def tree? (s : FileStore) (above : List String) (p : FilePath) : Option FileTree :=
  if p.root ≠ "" then none
  else
    (s.follow? s.base p.names).map fun place =>
      .ofEntries above p.names ((s.entries.filter fun e =>
        place.isPrefixOf e.1 && place.length < e.1.length).map fun (inner, bytes) =>
          ⟨inner.drop place.length, s.fromBase inner, bytes⟩)

end FileStore

end CodeAtlas
