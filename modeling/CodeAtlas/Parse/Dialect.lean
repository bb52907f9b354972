import CodeAtlas.Text.Blank
import CodeAtlas.Text.Code
import CodeAtlas.Text.WordChar

/-!
# Dialects

What a reader of source code knows about a language: its name, its queries in the order in which
they are tried, and whether blocks are refined after the fashion of Python.  A query is known by
its label and by the kind of node that it is about.

Names in the program: `_build_queries` for `queriesOf?`, `_extract_node_type` for
`Query.kindInText?`, `_count_tokens` for `Tokenizer.count`.
-/

namespace CodeAtlas

/-- A query: its label, and the kind of node it is tried on (`_` stands for any kind). -/
structure Query where
  label : String
  nodeKind : Option String
  deriving Repr, Inhabited

/-- Is the query tried on nodes of this kind? -/
def Query.admits (q : Query) (kind : String) : Bool :=
  q.nodeKind.all fun k => k = "" || k = kind || k = "_"

/-- The kind of node that the text of a query is about: the first word right after a bracket. -/
def Query.kindInText? (s : String) : Option String :=
  go s.toList
where
  go : List Char → Option String
    | [] => none
    | c :: cs =>
      let word := (cs.dropWhile Text.isBlank).takeWhile Text.isWordChar
      if c = '(' && !word.isEmpty then some (String.ofList word) else go cs

/-- Queries of one file, numbered from 1. -/
def Query.ofFile (file : String) (nodeKinds : List String) : List Query :=
  nodeKinds.zipIdx.map fun (kind, i) =>
    { label := file ++ ":" ++ Nat.repr (i + 1), nodeKind := some kind }

/-- What a reader knows about a language. -/
structure Dialect where
  language : Option String
  queries : List Query
  /-- Queries for code that a model has written, which leaves out bodies. -/
  tweaks : List Query
  /-- Are constructors, placeholders, and references through `self` and `super()` recognised? -/
  refines : Bool
  deriving Inhabited

namespace Dialect

def pythonQueries : List Query :=
  Query.ofFile "python.scm"
    ["module", "decorated_definition", "class_definition", "class_definition",
     "function_definition", "comment", "import_statement", "import_from_statement",
     "import_from_statement", "future_import_statement", "assignment", "call",
     "expression_statement", "expression_statement", "return_statement", "if_statement",
     "for_statement", "while_statement", "with_statement", "match_statement", "elif_clause",
     "else_clause", "except_clause", "finally_clause", "_", "_"]

def pythonTweaks : List Query :=
  Query.ofFile "python_gpt.scm" ["decorated_definition", "decorated_definition", "function_definition"]

def javaQueries : List Query :=
  Query.ofFile "java.scm"
    ["program", "class_declaration", "annotation_type_declaration", "enum_declaration",
     "interface_declaration", "record_declaration", "method_declaration",
     "constructor_declaration", "_", "line_comment", "import_declaration"]

/-- The queries of a file of queries. -/
def queriesOf? : String → Option (List Query)
  | "python.scm" => some pythonQueries
  | "python_gpt.scm" => some pythonTweaks
  | "java.scm" => some javaQueries
  | _ => none

/-- Python, refined. -/
def python : Dialect :=
  { language := some "python", queries := pythonQueries, tweaks := pythonTweaks, refines := true }

/-- The queries of Python, and nothing else. -/
def plain : Dialect :=
  { language := none, queries := pythonQueries, tweaks := [], refines := false }

def java : Dialect :=
  { language := none, queries := javaQueries, tweaks := [], refines := false }

end Dialect

/-- A tokenizer, by the number of tokens that it makes of a text.  Any function will do: a reader
gets one from its caller, or takes the one in common use. -/
structure Tokenizer where
  count : String → Nat
  deriving Inhabited

/-- The number of words, where `inWord` says that the character before belongs to one. -/
def countWords : Bool → List Char → Nat
  | _, [] => 0
  | inWord, c :: cs =>
    if Text.isWordGap c then countWords false cs
    else (if inWord then 0 else 1) + countWords true cs

namespace Tokenizer

/-- Runs of characters other than blanks. -/
def words : Tokenizer :=
  ⟨fun s => countWords false s.toList⟩

/-- Single characters. -/
def chars : Tokenizer :=
  ⟨Text.length⟩

end Tokenizer

end CodeAtlas
