import CodeAtlas.Assoc
import CodeAtlas.Failure

/-!
# Signatures

An operation that is asked for by name takes its arguments by position, by the names of its
parameters, or both.  `bind` brings them together: it gives the argument of each parameter that has
one, or says what is wrong with the first of them that does not fit.
-/

namespace CodeAtlas

/-- The parameters of an operation, those that need an argument first. -/
structure Signature where
  /-- The name of the operation, as it is shown. -/
  title : String
  required : List String
  optional : List String := []
  /-- The parameter for the thing that is asked, which always has its argument. -/
  receiver : String := "self"
  deriving Repr, Inhabited

namespace Signature

/-- The names of the parameters, in order. -/
def parameters (s : Signature) : List String :=
  s.required ++ s.optional

/-- Reads a row of parameters, in which a question mark follows those that need no argument. -/
def ofWords (title : String) (words : List String) : Signature :=
  let bare (w : String) : String := String.ofList (w.toList.filter (· ≠ '?'))
  { title
    required := words.filter fun w => bare w = w
    optional := (words.filter fun w => bare w ≠ w).map bare }

/-- Adds an argument under the name of its parameter, which must not have one yet. -/
def bindNamed {α : Type} (s : Signature) (bound : List (String × α)) (argument : String × α) :
    Outcome (List (String × α)) :=
  if argument.1 = s.receiver then .error (.givenTwice s.title argument.1)
  else if !s.parameters.contains argument.1 then .error (.unknownField s.title argument.1)
  else if Assoc.has argument.1 bound then .error (.givenTwice s.title argument.1)
  else .ok (bound ++ [argument])

/-- The arguments under the names of their parameters.  Names are looked at first, then the number
of arguments without a name, last the parameters that are left without an argument. -/
def bind {α : Type} (s : Signature) (inOrder : List α) (named : List (String × α)) :
    Outcome (List (String × α)) := do
  let bound ← named.foldlM s.bindNamed (s.parameters.zip inOrder)
  if s.parameters.length < inOrder.length then
    throw (.tooManyArguments s.title s.required.length s.parameters.length inOrder.length)
  let missing := s.required.filter fun p => !Assoc.has p bound
  if missing.isEmpty then return bound
  else throw (.missingFields s.title missing)

end Signature

end CodeAtlas
