import CodeAtlas.Repo.Namespace
import CodeAtlas.Scope.Query

/-!
# Exports of a file

The classes and functions that other files can import.  A class or function is attached to the
scope that it opens, so that exports are found in the scopes right below the whole source.

Names in the program: `_get_exports` for `exports`.
-/

namespace CodeAtlas

/-- A name that a file exports, with its scope. -/
structure Export where
  name : Namespace
  scope : Int
  file : FilePath
  deriving Repr, DecidableEq, Inhabited

namespace ScopeMap

/-- The sort of a definition that must have been written down. -/
def sortOf (g : ScopeMap) (i : Nat) : Outcome (Option String) :=
  match g.item? i with
  | some (.definition (.recorded sort)) => .ok sort
  | _ => .error (.noEntry "'def_type'")

/-- Is the definition a class or a function? -/
def isClassOrFunction (g : ScopeMap) (i : Nat) : Outcome Bool := do
  let sort ← g.sortOf i
  return sort = some "class" || sort = some "function"

/-- The classes and functions among definitions. -/
def classesAndFunctions (g : ScopeMap) (defs : List Nat) : Outcome (List Nat) :=
  defs.filterM g.isClassOrFunction

/-- The exported names with their scopes. -/
def exports (g : ScopeMap) : Outcome (List (String × Nat)) := do
  let perScope ← (g.scopesBelow root).mapM fun s => do
    return (← g.classesAndFunctions (g.sources .defToScope s)).map fun i => (g.nameOf i, s)
  return perScope.flatten

end ScopeMap

end CodeAtlas
