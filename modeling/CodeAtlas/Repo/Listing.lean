import CodeAtlas.Repo.FileStore
import CodeAtlas.Source.Bytes
import CodeAtlas.Text.Wildcard

/-!
# Listings

The contents of all source files of a tree in one text: directory by directory, first the files of
a directory and then what is in its directories.
-/

namespace CodeAtlas.FileTree

/-- The order of a listing: a file comes before what lies deeper in the same directory. -/
def listingLe : List String → List String → Bool
  | [], _ => true
  | _ :: _, [] => false
  | [a], [b] => Text.le a b
  | [_], _ :: _ :: _ => true
  | _ :: _ :: _, [_] => false
  | a :: as, b :: bs => if a = b then listingLe as bs else Text.le a b

/-- The text of a file, with line feeds at the ends of its lines. -/
def fileText (t : FileTree) (e : FileEntry) : Outcome String := do
  let text ← Source.decode (← t.read e)
  return String.ofList (Text.unifyLineEnds text.toList)

/-- A directory, as it was written, and a name in it. -/
def joinText (directory name : String) : String :=
  if directory = "" || Text.endsWith "/" directory then directory ++ name
  else directory ++ "/" ++ name

/-- The path of an entry of a tree whose directory was written as `directory`. -/
def writtenPath (directory : String) (e : FileEntry) : String :=
  e.path.foldl joinText directory

/-- One file of a listing. -/
def entryText (t : FileTree) (directory : String) (e : FileEntry) : Outcome String := do
  return "File: " ++ writtenPath directory e ++ (← t.fileText e) ++ "\n" ++ Text.replicate 40 "=" ++ "\n"

/-- The files of a listing.  A pattern is compared with the whole path, of which `front` is the
part in front of the directory. -/
def isInListing (front directory : String) (exclude : List String) (e : FileEntry) : Bool :=
  !e.isDirectory && Text.endsWith sourceEnding (e.path.getLast?.getD "")
    && !exclude.any fun pattern =>
      Wildcard.fits (Wildcard.ofText pattern) (Text.codes (front ++ writtenPath directory e))

/-- The listing of a tree. -/
def listing (t : FileTree) (front directory : String) (exclude : List String) : Outcome String := do
  let files := (t.entries.filter (isInListing front directory exclude)).mergeSort
    fun a b => listingLe a.path b.path
  return String.join (← files.mapM (t.entryText directory))

end CodeAtlas.FileTree

namespace CodeAtlas.FileStore

/-- The listing of a directory; one that is not there has no files.  A slash in front of the
directory does not lead out of the store. -/
def listing (s : FileStore) (front directory : String) (exclude : List String) : Outcome String :=
  match s.tree? [] { names := FilePath.namesOf directory } with
  | none => .ok ""
  | some tree => tree.listing front directory exclude

end CodeAtlas.FileStore
