import CodeAtlas.Failure

/-!
# Relationships between blocks

A relationship says that a block refers to something by a path of names: inside the file, or
(`externalPath`) in another one.  Two relationships count as equal when scope and path agree.

Names in the program: `ReferenceScope` and `RelationshipType` for `RefScope` and `RefKind`;
`validate_path` for `checked`, `__eq__` for `sameAs`, `full_path` for `fullPath`.
-/

namespace CodeAtlas

/-- The names that lead to a block, from the outermost in. -/
abbrev Path := List String

/-- The path as one text, names parted by dots. -/
def Path.text (p : Path) : String :=
  Text.join "." p

/-- Where the other end of a relationship lies. -/
inductive RefScope where
  | external | dependency | file | project | inClass | inBlock | global
  deriving Repr, DecidableEq, Inhabited

namespace RefScope

def all : List RefScope :=
  [.external, .dependency, .file, .project, .inClass, .inBlock, .global]

def label : RefScope → String
  | .external => "external"
  | .dependency => "dependency"
  | .file => "file"
  | .project => "project"
  | .inClass => "class"
  | .inBlock => "local"
  | .global => "global"

/-- The scope of the given word. -/
def ofLabel (s : String) : Outcome RefScope :=
  match all.find? fun r => r.label == s with
  | some r => .ok r
  | none => .error (.unknownWord (Text.quoted s) "ReferenceScope")

end RefScope

/-- In what way a block refers to the other end. -/
inductive RefKind where
  | utilizes | uses | definedBy | isA | provides | imports | calls | dependency | typed
  deriving Repr, DecidableEq, Inhabited

namespace RefKind

def all : List RefKind :=
  [.utilizes, .uses, .definedBy, .isA, .provides, .imports, .calls, .dependency, .typed]

def label : RefKind → String
  | .utilizes => "utilizes"
  | .uses => "uses"
  | .definedBy => "defined_by"
  | .isA => "is_a"
  | .provides => "provides"
  | .imports => "imports"
  | .calls => "calls"
  | .dependency => "dependency"
  | .typed => "type"

def name : RefKind → String
  | .utilizes => "UTILIZES"
  | .uses => "USES"
  | .definedBy => "DEFINED_BY"
  | .isA => "IS_A"
  | .provides => "PROVIDES"
  | .imports => "IMPORTS"
  | .calls => "CALLS"
  | .dependency => "DEPENDENCY"
  | .typed => "TYPE"

/-- The kind of the given word. -/
def ofLabel (s : String) : Outcome RefKind :=
  match all.find? fun r => r.label == s with
  | some r => .ok r
  | none => .error (.unknownWord (Text.quoted s) "RelationshipType")

end RefKind

/-- A reference of a block to something else. -/
structure Relationship where
  scope : RefScope
  kind : RefKind := .uses
  identifier : Option String := none
  externalPath : Path := []
  resolvedPath : Path := []
  path : Path := []
  deriving Repr, Inhabited

namespace Relationship

/-- A relationship has to lead somewhere. -/
def checked (r : Relationship) : Outcome Relationship :=
  if r.externalPath.isEmpty && r.path.isEmpty then .error .invalidRecord else .ok r

/-- The part of a relationship that decides whether it equals another one. -/
def key (r : Relationship) : RefScope × Path :=
  (r.scope, r.path)

def sameAs (a b : Relationship) : Bool :=
  a.key == b.key

/-- The way to the other end, through the other file and then inside it. -/
def fullPath (r : Relationship) : Path :=
  r.externalPath ++ r.path

/-- The other end as text: directories parted by slashes, names by dots. -/
def target (r : Relationship) : String :=
  let outside := Text.join "/" r.externalPath
  if r.path.isEmpty then outside
  else if r.externalPath.isEmpty then r.path.text
  else outside ++ "/" ++ r.path.text

/-- The relationship as an arrow between its ends. -/
def text (r : Relationship) : String :=
  "(" ++ r.identifier.getD "" ++ ")-[:" ++ r.kind.name ++ " \x7bscope: " ++ r.scope.label
    ++ "\x7d]->(" ++ r.target ++ ")"

end Relationship

end CodeAtlas
