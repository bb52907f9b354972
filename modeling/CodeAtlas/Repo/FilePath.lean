import CodeAtlas.Failure

/-!
# File paths

A path is a root (empty for a relative path) and a list of names.  Reading a path drops empty names
and the name `.`; the name `..` stays.

Names in the program: `get_shortest_subpath` for `relativeTo`.
-/

namespace CodeAtlas

/-- A path to a file or a directory. -/
structure FilePath where
  /-- Empty, one slash, or two slashes. -/
  root : String := ""
  names : List String := []
  deriving Repr, DecidableEq, Inhabited

namespace FilePath

/-! ## §1. Reading and writing. -/

/-- The root of a text: no more than two slashes count, and three or more are one. -/
def rootOf (s : String) : String :=
  match (s.toList.takeWhile (· = '/')).length with
  | 0 => ""
  | 2 => "//"
  | _ => "/"

/-- The names in a text. -/
def namesOf (s : String) : List String :=
  (Text.split '/' s).filter fun n => n ≠ "" && n ≠ "."

/-- Goes on from a path by a text; a text with a root starts again. -/
def extend (p : FilePath) (s : String) : FilePath :=
  if rootOf s = "" then { p with names := p.names ++ namesOf s } else ⟨rootOf s, namesOf s⟩

/-- The path of several texts, one after the other. -/
def ofParts (parts : List String) : FilePath :=
  parts.foldl extend {}

/-- The path that a text stands for. -/
def ofText (s : String) : FilePath :=
  ofParts [s]

/-- The parts of a path: its root, if it has one, and its names. -/
def parts (p : FilePath) : List String :=
  if p.root = "" then p.names else p.root :: p.names

/-- A path as it is put together: the empty path is the empty text. -/
def bareText (p : FilePath) : String :=
  p.root ++ Text.join "/" p.names

/-- A path as it is shown: the empty path is a dot. -/
def text (p : FilePath) : String :=
  if p.bareText = "" then "." else p.bareText

/-- A path as it is shown as a key of a table. -/
def shownKey (p : FilePath) : String :=
  "PosixPath(" ++ Text.quoted p.text ++ ")"

/-! ## §2. Names. -/

/-- The last name. -/
def name (p : FilePath) : String :=
  p.names.getLast?.getD ""

/-- The ending of a name, from its last dot on; there must be something on both sides of it. -/
def endingOf (name : String) : String :=
  let reversed := name.toList.reverse
  let ending := reversed.takeWhile (· ≠ '.')
  let front := (reversed.dropWhile (· ≠ '.')).drop 1
  if ending.isEmpty || front.isEmpty then "" else String.ofList ('.' :: ending.reverse)

/-! ## §3. One path below another. -/

/-- What is left of a path below a directory. -/
def relativeTo (p directory : FilePath) : Outcome FilePath :=
  if p.root = directory.root && directory.names.isPrefixOf p.names then
    .ok { names := p.names.drop directory.names.length }
  else .error (.notBelow p.text directory.bareText)

end FilePath

end CodeAtlas
