import CodeAtlas.Text.Code

/-!
# Patterns with wildcards

A star stands for any text, a question mark for one character, and a bracketed set for one of its
characters, or for none of them after an exclamation mark.  Characters are compared by their codes.  A set may hold ranges such as `a-z`; a
range that runs backwards is empty.  A bracket that is never closed stands for itself.
-/

namespace CodeAtlas

/-- One piece of a pattern. -/
inductive Wildcard where
  /-- Any text. -/
  | anything
  /-- Any one character. -/
  | one
  | literal (c : Nat)
  /-- One character that lies in a range, or in none of them if `negated`. -/
  | among (negated : Bool) (ranges : List (Nat × Nat))
  deriving Repr, DecidableEq, Inhabited

namespace Wildcard

/-! ## §1. Sets. -/

/-- Cuts the inside of a set at the hyphens that make ranges.  A hyphen makes a range unless it
stands among the next `skip` characters; a hyphen at the end stands for itself. -/
def cutRanges : Nat → List Nat → List Nat → List (List Nat)
  | _, rev, [] => [rev.reverse]
  | skip + 1, rev, c :: cs => cutRanges skip (c :: rev) cs
  | 0, rev, c :: cs =>
    if c = '-'.toNat then
      if cs.isEmpty then [('-'.toNat :: rev).reverse] else rev.reverse :: cutRanges 2 [] cs
    else cutRanges 0 (c :: rev) cs

/-- Drops the ranges that run backwards, from the last to the first. -/
def dropBackwards : List (List Nat) → List (List Nat)
  | [] => []
  | piece :: rest =>
    match dropBackwards rest with
    | [] => [piece]
    | next :: others =>
      match piece.getLast?, next.head? with
      | some a, some b =>
        if b < a then (piece.dropLast ++ next.drop 1) :: others else piece :: next :: others
      | _, _ => piece :: next :: others

/-- The ranges that the pieces of a set stand for: from the last character of a piece to the first
one of the next. -/
def rangesOf (piece : List Nat) : List (List Nat) → List (Nat × Nat)
  | [] => piece.map fun c => (c, c)
  | next :: others =>
    (piece.dropLast.map fun c => (c, c))
      ++ (match piece.getLast?, next.head? with
          | some a, some b => [(a, b)]
          | _, _ => [])
      ++ rangesOf (next.drop 1) others

/-- The set with the given inside. -/
def ofSet (inside : List Nat) : Wildcard :=
  match dropBackwards (cutRanges (if inside.head? = some '!'.toNat then 2 else 1) [] inside) with
  | [] => .among false []
  | piece :: others =>
    if piece.head? = some '!'.toNat then
      match piece.drop 1, others with
      | [], next :: others => .among true (('-'.toNat, '-'.toNat) :: rangesOf next others)
      | piece, others => .among true (rangesOf piece others)
    else .among false (rangesOf piece others)

/-- The inside of the set that begins here, if it is closed.  A closing bracket at the very
beginning stands for itself. -/
def insideOf? (cs : List Nat) : Option (List Nat) :=
  let mark := cs.takeWhile (· = '!'.toNat) |>.take 1
  let rest := cs.drop mark.length
  let lead := rest.takeWhile (· = ']'.toNat) |>.take 1
  let rest := rest.drop lead.length
  let body := rest.takeWhile (· ≠ ']'.toNat)
  if body.length < rest.length then some (mark ++ lead ++ body) else none

/-! ## §2. Patterns. -/

/-- Reads a pattern, whose first `skip` characters are dropped. -/
def readFrom : Nat → List Nat → List Wildcard
  | _, [] => []
  | skip + 1, _ :: cs => readFrom skip cs
  | 0, c :: cs =>
    if c = '*'.toNat then .anything :: readFrom 0 cs
    else if c = '?'.toNat then .one :: readFrom 0 cs
    else if c = '['.toNat then
      match insideOf? cs with
      | some inside => ofSet inside :: readFrom (inside.length + 1) cs
      | none => .literal '['.toNat :: readFrom 0 cs
    else .literal c :: readFrom 0 cs

/-- The pattern that a text stands for. -/
def ofText (s : String) : List Wildcard :=
  readFrom 0 (Text.codes s)

/-- Does the piece accept the character? -/
def admits (c : Nat) : Wildcard → Bool
  | .anything => false
  | .one => true
  | .literal d => c = d
  | .among negated ranges => (ranges.any fun (a, b) => a ≤ c && c ≤ b) != negated

/-! ## §3. Fitting.

A row has one truth value for each place of the text, the end among them: does the text from there
on fit what is left of the pattern? -/

/-- The row of the empty pattern. -/
def emptyRow : List Nat → List Bool
  | [] => [true]
  | _ :: cs => false :: emptyRow cs

/-- The row that says whether some later place, or this one, is true. -/
def laterRow : List Bool → List Bool
  | [] => []
  | b :: row =>
    let later := laterRow row
    (b || later.headD false) :: later

/-- The row after one more piece in front of the pattern. -/
def pieceRow (cs : List Nat) (row : List Bool) : Wildcard → List Bool
  | .anything => laterRow row
  | p => List.zipWith (fun c b => p.admits c && b) cs (row.drop 1) ++ [false]

/-- Does the whole text fit the pattern? -/
def fits (ps : List Wildcard) (cs : List Nat) : Bool :=
  (ps.foldr (fun p row => pieceRow cs row p) (emptyRow cs)).headD false

end Wildcard

end CodeAtlas
