import CodeAtlas.Block.Basic

/-!
# The chain of blocks

The blocks of a file in a row, each with a block before and a block after it.  Some questions are
answered by walking along the chain from a block towards a line, as long as a budget of tokens
lasts.  A walk decides at each block whether to stop, to go on or to go back; `walk` records the
places it visits and gives up after as many steps as there are blocks.

Names in the program: `line_witin_token_context` for `reachesLine`, `last_block_until_line` for
`lastUntilLine`, `tokens_from_line` for `tokensPastLine`.
-/

namespace CodeAtlas

/-- What a walk looks at in a block. -/
structure Stop where
  startLine : Int
  endLine : Int
  tokens : Int
  deriving Repr, Inhabited

/-- The blocks of a file in a row. -/
abbrev Chain := List Stop

namespace Chain

/-- The stop before a place. -/
def before? (chain : Chain) (i : Nat) : Option Stop :=
  if i = 0 then none else chain[i - 1]?

/-- The stop after a place. -/
def after? (chain : Chain) (i : Nat) : Option Stop :=
  chain[i + 1]?

/-- What a walk does at a place. -/
inductive Move (α : Type) where
  | stop (result : α)
  | forward
  | back

/-- Walks along the chain from place `i`; the tokens of each place that is left are taken from
the budget.  The result comes with the places visited, or nothing comes when the steps ran out. -/
def walk {α : Type} (chain : Chain) (decide : Nat → Stop → Int → Move α) :
    Nat → Nat → Int → Option (α × List Nat)
  | 0, _, _ => none
  | steps + 1, i, budget =>
    match chain[i]? with
    | none => none
    | some here =>
      match decide i here budget with
      | .stop result => some (result, [i])
      | .forward =>
        (walk chain decide steps (i + 1) (budget - here.tokens)).map fun (r, v) => (r, i :: v)
      | .back =>
        (walk chain decide steps (i - 1) (budget - here.tokens)).map fun (r, v) => (r, i :: v)

/-- At a place: is the line between this block and its neighbour on the line's side? -/
def reachDecision (chain : Chain) (line : Int) (i : Nat) (here : Stop) (budget : Int) : Move Bool :=
  if budget ≤ 0 then .stop false
  else if here.endLine < line then
    match chain.after? i with
    | none => .stop false
    | some next => if line < next.startLine then .stop true else .forward
  else
    match chain.before? i with
    | none => .stop false
    | some previous => if previous.endLine < line then .stop true else .back

/-- At a place: is this the last block on the way to the line that the budget allows? -/
def lastDecision (chain : Chain) (line : Int) (i : Nat) (here : Stop) (budget : Int) :
    Move (Outcome Nat) :=
  if here.endLine < line then
    match chain.after? i with
    | none => .stop (.ok i)
    | some next =>
      if line < next.startLine || budget < next.tokens then .stop (.ok i) else .forward
  else
    match chain.before? i with
    | none => .stop (.ok i)
    | some previous =>
      if previous.endLine < line then .stop (.ok i)
      else
        match chain.after? i with
        | none => .stop (.error (.absent "tokens"))
        | some next => if budget < next.tokens then .stop (.ok i) else .back

/-- The walk towards a line, and whether it gets there within the budget. -/
def reachWalk (chain : Chain) (i : Nat) (line budget : Int) : Option (Bool × List Nat) :=
  chain.walk (chain.reachDecision line) chain.length i budget

/-- The walk to the last block on the way to a line. -/
def lastWalk (chain : Chain) (i : Nat) (line budget : Int) : Option (Outcome Nat × List Nat) :=
  chain.walk (chain.lastDecision line) chain.length i budget

/-- Can the line be reached within the budget? -/
def reachesLine (chain : Chain) (i : Nat) (line budget : Int) : Outcome Bool :=
  match chain.reachWalk i line budget with
  | some (found, _) => .ok found
  | none => .error .endless

/-- The place of the last block on the way to a line. -/
def lastUntilLine (chain : Chain) (i : Nat) (line budget : Int) : Outcome Nat :=
  match chain.lastWalk i line budget with
  | some (found, _) => found
  | none => .error .endless

/-- The tokens from a line up to and including a place: `here` is the stop there, the list holds
those before it, nearest first. -/
def tokensFrom (line : Int) (here : Stop) : List Stop → Int
  | [] => here.tokens
  | previous :: rest =>
    if previous.endLine < line then here.tokens
    else here.tokens + tokensFrom line previous rest

/-- The tokens from a line up to and including a place. -/
def tokensPastLine (chain : Chain) (i : Nat) (line : Int) : Int :=
  match chain[i]? with
  | some here => tokensFrom line here (chain.take i).reverse
  | none => 0

end Chain

end CodeAtlas
