import CodeAtlas.Text.Quoted

/-!
# Failures

Every way in which an operation of the library can fail, by its cause.  `Failure.message` gives
the text that a user sees; causes whose text would depend on the machine have none.
-/

namespace CodeAtlas

/-- Why an operation failed. -/
inductive Failure where
  /-- The text between two blocks holds more than blanks and line breaks. -/
  | gapNotBlank (kind content gap : String)
  /-- Bytes that are no UTF-8 text. -/
  | notUtf8
  /-- A text with a surrogate at the place, and so many more behind it, which have no bytes. -/
  | notEncodable (place code more : Nat)
  /-- A record whose fields break its rules. -/
  | invalidRecord
  /-- A text that is no JSON. -/
  | notJson
  /-- A whole number with too many digits, which are counted where it was to be read and not where
  it was to be written. -/
  | tooManyDigits (count : Option Nat)
  /-- Lists and objects that lie too deep in each other. -/
  | nestedTooDeeply (container : String)
  /-- A value of this sort where a record of the named kind is to be read. -/
  | notARecord (kind sort : String)
  /-- A field that is not among those of a record. -/
  | unknownField (owner field : String)
  /-- Fields that a record must have. -/
  | missingFields (owner : String) (fields : List String)
  /-- A field that is given a second time. -/
  | givenTwice (owner field : String)
  /-- More arguments than an operation takes, not counting the thing it is asked of. -/
  | tooManyArguments (owner : String) (least most given : Nat)
  /-- A thing of this sort is no operation. -/
  | notCallable (sort : String)
  /-- Nothing was given as a node of a graph. -/
  | emptyNode
  /-- A list has no item at the position. -/
  | noItem
  /-- A list has no item at the position that is to be overwritten or removed. -/
  | noItemToReplace
  /-- A part that is looked at is not there. -/
  | absent (member : String)
  /-- A thing of this sort has no such part. -/
  | noMember (owner member : String)
  /-- A thing of this sort has no items. -/
  | notIterable (sort : String)
  /-- A thing of this sort cannot be searched. -/
  | notSearchable (sort : String)
  /-- A thing of this sort cannot be a key of a table. -/
  | notHashable (sort : String)
  /-- A thing of this sort has no parts by name. -/
  | noIndex (sort : String)
  /-- A thing of this sort has no length. -/
  | noLength (sort : String)
  /-- A thing of this sort cannot be the place of an item in a list. -/
  | noPosition (sort : String)
  /-- A place in a list that is beyond all lists. -/
  | positionTooFar
  /-- A place for a new item that is beyond all lists. -/
  | placeTooFar
  /-- A number of copies that is beyond all texts. -/
  | tooManyCopies
  /-- A thing of this sort is no whole number. -/
  | notWhole (sort : String)
  /-- A thing that can bound no part of a list. -/
  | noBound
  /-- A thing of this sort is no number of copies. -/
  | noCount (sort : String)
  /-- Things of these sorts have no order. -/
  | notOrdered (comparison left right : String)
  /-- A thing of this sort cannot be looked for in a text. -/
  | notInText (sort : String)
  /-- A thing of this sort cannot be compared with a pattern. -/
  | notMatched (sort : String)
  /-- A thing of the second sort cannot be put behind one of the first. -/
  | notJoined (first second : String)
  /-- A record of this kind has no such field to set. -/
  | noField (owner field : String)
  /-- A table has no entry under the key; the key is given as it is shown. -/
  | noEntry (shownKey : String)
  /-- A graph has no such node, asked for its edges. -/
  | noGraphNode
  /-- A graph has no node of this name, asked for its neighbours. -/
  | noNamedNode (name : String)
  /-- A word, given as it is shown, that is none of the words of its kind. -/
  | unknownWord (shownWord kind : String)
  /-- Two ranges were compared by bytes, and the bytes of one are not known. -/
  | byteRangeUnset
  /-- An interval that ends before it begins. -/
  | emptyInterval
  /-- A whole number beyond the range of floating point. -/
  | numberTooLarge
  /-- An infinite number where a whole number is to be read. -/
  | infiniteNumber
  /-- A value that no branch has set. -/
  | unset (name : String)
  /-- A language without a reader. -/
  | unsupportedLanguage (name : String)
  /-- A document that is neither text nor bytes. -/
  | notText
  | noSuchFile (path : String)
  | noSuchRoot (path : String)
  | isDirectory (path : String)
  /-- A path that does not lie below the other. -/
  | notBelow (path root : String)
  /-- A pair was offered where one value is expected. -/
  | tooManyParts (count : Nat)
  /-- Two chunks were given one name. -/
  | namesCollide
  /-- The search would never end. -/
  | endless
  deriving Repr, BEq, DecidableEq

/-- Names in a row, in single quotes. -/
def Failure.nameList (names : List String) : String :=
  match names.map fun n => "'" ++ n ++ "'" with
  | [a] => a
  | [a, b] => a ++ " and " ++ b
  | quotedNames =>
    Text.join ", " quotedNames.dropLast ++ ", and " ++ quotedNames.getLast?.getD ""

/-- How many arguments an operation takes and how many it was given, where the thing it is asked of
is counted too. -/
def Failure.countText (least most given : Nat) : String :=
  (if least = most then
      Nat.repr (most + 1) ++ " positional argument" ++ (if most = 0 then "" else "s")
    else
      "from " ++ Nat.repr (least + 1) ++ " to " ++ Nat.repr (most + 1) ++ " positional arguments")
    ++ " but " ++ Nat.repr (given + 1) ++ " were given"

/-- The text of a failure. -/
def Failure.message : Failure → Option String
  | .gapNotBlank kind content gap =>
    some ("Failed to parse code block with type CodeBlockType." ++ kind ++ " and content `" ++ content
      ++ "`. Expected pre_code to only contain spaces and line breaks. Got `" ++ gap ++ "`")
  | .notUtf8 => none
  | .notEncodable place code more =>
    let at_ := Nat.repr place
    some ("'utf-8' codec can't encode character"
      ++ (if more = 0 then " " ++ Text.quoted (Text.ofCodes [code]) ++ " in position " ++ at_
        else "s in position " ++ at_ ++ "-" ++ Nat.repr (place + more))
      ++ ": surrogates not allowed")
  | .invalidRecord => none
  | .notJson => none
  | .tooManyDigits count =>
    some ("Exceeds the limit (4300 digits) for integer string conversion"
      ++ (match count with
        | some n => ": value has " ++ Nat.repr n ++ " digits"
        | none => "")
      ++ "; use sys.set_int_max_str_digits() to increase the limit")
  | .nestedTooDeeply container =>
    some ("maximum recursion depth exceeded while decoding a JSON " ++ container
      ++ " from a unicode string")
  | .notARecord kind sort => some (kind ++ " argument after ** must be a mapping, not " ++ sort)
  | .unknownField owner field =>
    some (owner ++ " got an unexpected keyword argument '" ++ field ++ "'")
  | .missingFields owner fields =>
    some (owner ++ " missing " ++ Nat.repr fields.length ++ " required positional argument"
      ++ (if fields.length = 1 then "" else "s") ++ ": " ++ nameList fields)
  | .givenTwice owner field =>
    some (owner ++ " got multiple values for argument '" ++ field ++ "'")
  | .tooManyArguments owner least most given =>
    some (owner ++ " takes " ++ countText least most given)
  | .notCallable sort => some ("'" ++ sort ++ "' object is not callable")
  | .emptyNode => some "None cannot be a node"
  | .noItem => some "list index out of range"
  | .noItemToReplace => some "list assignment index out of range"
  | .absent member => some ("'NoneType' object has no attribute '" ++ member ++ "'")
  | .noMember owner member => some ("'" ++ owner ++ "' object has no attribute '" ++ member ++ "'")
  | .notIterable sort => some ("'" ++ sort ++ "' object is not iterable")
  | .notHashable sort => some ("unhashable type: '" ++ sort ++ "'")
  | .noIndex "str" => some "string indices must be integers, not 'str'"
  | .noIndex "list" => some "list indices must be integers or slices, not str"
  | .noIndex sort => some ("'" ++ sort ++ "' object is not subscriptable")
  | .noLength sort => some ("object of type '" ++ sort ++ "' has no len()")
  | .noPosition sort => some ("list indices must be integers or slices, not " ++ sort)
  | .positionTooFar => some "cannot fit 'int' into an index-sized integer"
  | .placeTooFar => some "Python int too large to convert to C ssize_t"
  | .tooManyCopies => some "cannot fit 'int' into an index-sized integer"
  | .notWhole sort => some ("'" ++ sort ++ "' object cannot be interpreted as an integer")
  | .noBound => some "slice indices must be integers or None or have an __index__ method"
  | .noCount sort => some ("can't multiply sequence by non-int of type '" ++ sort ++ "'")
  | .notOrdered comparison left right =>
    some ("'" ++ comparison ++ "' not supported between instances of '" ++ left ++ "' and '" ++ right
      ++ "'")
  | .notMatched sort => some ("expected string or bytes-like object, got '" ++ sort ++ "'")
  | .notInText sort => some ("'in <string>' requires string as left operand, not " ++ sort)
  | .notJoined first second =>
    some ("can only concatenate " ++ first ++ " (not \"" ++ second ++ "\") to " ++ first)
  | .noField owner field => some ("\"" ++ owner ++ "\" object has no field \"" ++ field ++ "\"")
  | .notSearchable sort => some ("argument of type '" ++ sort ++ "' is not iterable")
  | .noEntry shownKey => some shownKey
  | .noGraphNode => some "nbunch is not a node or a sequence of nodes."
  | .noNamedNode name => some ("The node " ++ name ++ " is not in the digraph.")
  | .unknownWord shownWord kind => some (shownWord ++ " is not a valid " ++ kind)
  | .byteRangeUnset => some "Byte range is not set, did you mean to call contains_line?"
  | .emptyInterval => none
  | .numberTooLarge => some "int too large to convert to float"
  | .infiniteNumber => some "cannot convert float infinity to integer"
  | .unset name =>
    some ("cannot access local variable '" ++ name ++ "' where it is not associated with a value")
  | .unsupportedLanguage name => some ("Language " ++ name ++ " is not supported.")
  | .notText => some "Content must be either a string or bytes"
  | .noSuchFile path => some ("[Errno 2] No such file or directory: " ++ Text.quoted path)
  | .noSuchRoot path => some ("Path " ++ path ++ " does not exist")
  | .isDirectory path => some ("[Errno 21] Is a directory: " ++ Text.quoted path)
  | .notBelow path root =>
    some (Text.quoted path ++ " is not in the subpath of " ++ Text.quoted root
      ++ " OR one path is relative and the other is absolute.")
  | .tooManyParts count => some ("tuple expected at most 1 argument, got " ++ Nat.repr count)
  | .namesCollide => some "Collision has occurred in chunk names"
  | .endless => some "maximum recursion depth exceeded"

/-- The outcome of an operation that can fail. -/
abbrev Outcome := Except Failure

end CodeAtlas
