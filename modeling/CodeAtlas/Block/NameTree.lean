import CodeAtlas.Assoc
import CodeAtlas.Block.Relationship

/-!
# Trees of names

A set of block paths, kept as a tree of names.  `shown` marks the paths that were put in; the
nodes above them are there to lead to them.  Names below a node stand in the order in which they
first came.

Names in the program: `PathTree` for `NameTree`; `from_block_paths` for `ofPaths`, `child_tree`
for `child?`, `add_to_tree` for `add`, `extend_tree` for `extend`.
-/

namespace CodeAtlas

/-- A node of a name tree: whether its path is in the set, and what lies below it. -/
structure NameTree where
  shown : Bool
  branches : List (String × NameTree)
  deriving Inhabited

namespace NameTree

def empty : NameTree :=
  ⟨false, []⟩

/-- The node one name down. -/
def child? (name : String) (t : NameTree) : Option NameTree :=
  Assoc.get? name t.branches

/-- Puts a path into the set. -/
def add : Path → NameTree → NameTree
  | [], t => ⟨true, t.branches⟩
  | name :: rest, t =>
    ⟨t.shown, Assoc.put name (add rest ((t.child? name).getD empty)) t.branches⟩

/-- Makes the nodes along a path, without putting it into the set. -/
def lead : Path → NameTree → NameTree
  | [], t => t
  | name :: rest, t =>
    ⟨t.shown, Assoc.put name (lead rest ((t.child? name).getD empty)) t.branches⟩

/-- Puts paths into the set, one after the other; a missing path changes nothing. -/
def extend (paths : List (Option Path)) (t : NameTree) : NameTree :=
  paths.foldl (fun t p? =>
    match p? with
    | some p => add p t
    | none => t) t

/-- The set of the given paths. -/
def ofPaths (paths : List (Option Path)) : NameTree :=
  empty.extend paths

mutual
/-- The union of two trees; names that are new come after those that are there. -/
def merge (t : NameTree) : NameTree → NameTree
  | ⟨shown, branches⟩ => ⟨t.shown || shown, mergeBranches t.branches branches⟩

def mergeBranches (mine : List (String × NameTree)) :
    List (String × NameTree) → List (String × NameTree)
  | [] => mine
  | (name, t) :: rest =>
    mergeBranches (Assoc.put name (merge ((Assoc.get? name mine).getD empty) t) mine) rest
end

/-- The node that a path leads to. -/
def find? : Path → NameTree → Option NameTree
  | [], t => some t
  | name :: rest, t => (t.child? name).bind (find? rest)

end NameTree

end CodeAtlas
