import CodeAtlas.Assoc
import CodeAtlas.Number.Double

/-!
# JSON values

The values that settings, module lists, properties and node data are made of.  Objects keep the
order of their fields.
-/

namespace CodeAtlas

/-- A JSON value. -/
inductive Json where
  | null
  | bool (b : Bool)
  | int (n : Int)
  /-- A number that was written with a fraction or an exponent. -/
  | real (x : Double)
  | str (s : String)
  | arr (items : List Json)
  | obj (fields : List (String × Json))
  deriving Inhabited

namespace Json

/-! ## Equality -/

mutual
/-- Are two values the same, with their items and fields in the same order? -/
def equal : Json → Json → Bool
  | .null, .null => true
  | .bool a, .bool b => a = b
  | .int m, .int n => m = n
  | .real x, .real y => x = y
  | .str s, .str t => s = t
  | .arr xs, .arr ys => equalItems xs ys
  | .obj xs, .obj ys => equalFields xs ys
  | _, _ => false

def equalItems : List Json → List Json → Bool
  | [], [] => true
  | v :: vs, w :: ws => equal v w && equalItems vs ws
  | _, _ => false

def equalFields : List (String × Json) → List (String × Json) → Bool
  | [], [] => true
  | (k, v) :: vs, (l, w) :: ws => k = l && equal v w && equalFields vs ws
  | _, _ => false
end

instance : BEq Json := ⟨equal⟩

/-! ## Readers of one shape -/

/-- The field of an object; a value that is no object has none. -/
def field? (key : String) : Json → Option Json
  | .obj fields => Assoc.get? key fields
  | _ => none

/-- The field, or null where there is none. -/
def field (key : String) (j : Json) : Json :=
  (j.field? key).getD .null

def str? : Json → Option String
  | .str s => some s
  | _ => none

def int? : Json → Option Int
  | .int n => some n
  | _ => none

def bool? : Json → Option Bool
  | .bool b => some b
  | _ => none

/-- The items of a list; any other value has none. -/
def items : Json → List Json
  | .arr xs => xs
  | _ => []

/-- The fields of an object; any other value has none. -/
def fields : Json → List (String × Json)
  | .obj fs => fs
  | _ => []

/-- The texts in a list of texts. -/
def strings (j : Json) : List String :=
  j.items.filterMap str?

/-- The word for the sort of a value. -/
def sort : Json → String
  | .null => "NoneType"
  | .bool _ => "bool"
  | .int _ => "int"
  | .real _ => "float"
  | .str _ => "str"
  | .arr _ => "list"
  | .obj _ => "dict"

/-! ## Writers of one shape -/

def ofStrings (xs : List String) : Json :=
  .arr (xs.map .str)

def ofOption {α : Type} (f : α → Json) : Option α → Json
  | none => .null
  | some a => f a

end Json

end CodeAtlas
