import CodeAtlas.Repo.FilePath

/-!
# Dotted names

The name of an imported thing: the dotted name of its module, and the dotted name inside it.

Names in the program: `NameSpace` for `Namespace`; `to_path` for `path`, `__str__` for `text`,
`__hash__` for `key`.
-/

namespace CodeAtlas

/-- A dotted name. -/
structure Namespace where
  parent : List String
  inner : List String
  deriving Repr, DecidableEq, Inhabited

namespace Namespace

/-- The dotted name of `child` in `parent`. -/
def of (parent child : String) : Namespace :=
  ⟨Text.split '.' parent, Text.split '.' child⟩

/-- The first name. -/
def root (n : Namespace) : String :=
  n.parent.head?.getD ""

/-- The last name. -/
def child (n : Namespace) : String :=
  n.inner.getLast?.getD ""

/-- The path of the module. -/
def path (n : Namespace) : FilePath :=
  FilePath.ofParts n.parent

/-- The whole name. -/
def text (n : Namespace) : String :=
  Text.join "." (n.parent ++ n.inner)

/-- A dotted name is made of two lists, and so it has no key of its own. -/
def key (_ : Namespace) : Outcome Int :=
  .error (.tooManyParts 2)

end Namespace

end CodeAtlas
