import CodeAtlas.Failure
import CodeAtlas.Text.Digit

/-!
# Scopes of a repository

A scope of a repository is known by its file and by its number in that file, written with two
colons between them.

Names in the program: `RepoNode` for `RepoPlace`; `repo_node_id` for `write`, `validate_id` for
`decode`.
-/

namespace CodeAtlas

/-- A scope of a file of a repository. -/
structure RepoPlace where
  file : String
  scope : Int
  deriving Repr, DecidableEq, Inhabited

namespace RepoPlace

/-- The text of a scope. -/
def encode (file : String) (scope : Int) : String :=
  file ++ "::" ++ Text.decimal scope

/-- Writes a scope, unless its number has too many digits to be written. -/
def write (file : String) (scope : Int) : Outcome String :=
  if (Nat.toDigits 10 scope.natAbs).length ≤ Text.mostDigits then .ok (encode file scope)
  else .error (.tooManyDigits none)

/-- Reads a scope: there must be two colons once, and a whole number after them. -/
def decode (id : String) : Outcome RepoPlace :=
  match Text.cutAt [':', ':'] id.toList with
  | none => .error .invalidRecord
  | some (file, rest) =>
    if Text.occursIn [':', ':'] rest then .error .invalidRecord
    else
      match Text.readInt? (String.ofList rest) with
      | some scope => .ok ⟨String.ofList file, scope⟩
      | none => .error .invalidRecord

/-- The name of the file without its directories. -/
def name (n : RepoPlace) : String :=
  (Text.split '/' n.file).getLast?.getD ""

end RepoPlace

end CodeAtlas
