/-!
# Ordered association lists

Finite maps that remember the order in which their keys first came: a list of pairs without
repeated keys.  `put` on a present key keeps its place.
-/

namespace CodeAtlas.Assoc

variable {κ α : Type} [BEq κ]

/-- The value of the first entry with the key. -/
def get? (key : κ) : List (κ × α) → Option α
  | [] => none
  | (k, v) :: rest => if k == key then some v else get? key rest

/-- Is there an entry with the key? -/
def has (key : κ) (entries : List (κ × α)) : Bool :=
  entries.any fun e => e.1 == key

/-- Sets the value of a key: in its place if it is present, at the end if it is new. -/
def put (key : κ) (value : α) : List (κ × α) → List (κ × α)
  | [] => [(key, value)]
  | (k, v) :: rest => if k == key then (k, value) :: rest else (k, v) :: put key value rest

/-- Changes the value of a present key. -/
def modify (key : κ) (f : α → α) (entries : List (κ × α)) : List (κ × α) :=
  entries.map fun (k, v) => if k == key then (k, f v) else (k, v)

/-- Adds a member to a list that holds each member once. -/
def insertNew {β : Type} [BEq β] (member : β) (members : List β) : List β :=
  if members.contains member then members else members ++ [member]

/-- Adds the members of `more` that are not there yet, in order. -/
def union {β : Type} [BEq β] (members more : List β) : List β :=
  more.foldl (fun acc m => insertNew m acc) members

end CodeAtlas.Assoc
