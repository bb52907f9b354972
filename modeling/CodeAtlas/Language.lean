import CodeAtlas.Assoc
import CodeAtlas.Failure
import CodeAtlas.Signature
import CodeAtlas.Text.Fold
import CodeAtlas.Parse.Refine

/-!
# Languages

What is known about a language by its name: how its comments begin, and whether there is a reader
for it.

Names in the program: `get_comment_symbol` for `commentSymbol?`, `is_supported` for `isKnown`,
`supports_codeblocks` for `isDivided`, `get_parser_by_path` for `ofPath?`, `create_parser` for
`reader`.
-/

namespace CodeAtlas.Language

/-- How comments begin. -/
def commentSymbols : List (String × String) :=
  [("ada", "--"),
   ("agda", "--"),
   ("apex", "//"),
   ("bash", "#"),
   ("beancount", ";"),
   ("cap’n proto", "#"),
   ("c", "//"),
   ("c++", "//"),
   ("c#", "//"),
   ("clojure", ";"),
   ("cmake", "#"),
   ("common lisp", ";"),
   ("css", "/* "),
   ("cuda", "//"),
   ("dart", "//"),
   ("d", "//"),
   ("dockerfile", "#"),
   ("dot", "//"),
   ("elixir", "#"),
   ("elm", "--"),
   ("emacs lisp", ";"),
   ("erb / ejs", "<%# ... %>"),
   ("erlang", "%"),
   ("fish", "#"),
   ("fortran", "!"),
   ("gitattributes", "#"),
   ("gitignore", "#"),
   ("gleam", "//"),
   ("go", "//"),
   ("graphql", "#"),
   ("haskell", "--"),
   ("html", "<!--"),
   ("java", "//"),
   ("javascript", "//"),
   ("json5", "//"),
   ("julia", "#"),
   ("kotlin", "//"),
   ("latex", "%"),
   ("lua", "--"),
   ("make", "#"),
   ("motorola 68000 assembly", ";"),
   ("nix", "#"),
   ("objective-c", "//"),
   ("ocaml", "(*"),
   ("pascal", "\x7b"),
   ("perl", "#"),
   ("php", "//"),
   ("powershell", "#"),
   ("protocol buffers", "//"),
   ("python", "#"),
   ("racket", ";"),
   ("rego", "#"),
   ("restructuredtext", ".."),
   ("r", "#"),
   ("ruby", "#"),
   ("rust", "//"),
   ("scala", "//"),
   ("scheme", ";"),
   ("scss", "//"),
   ("s-expressions", ";"),
   ("sql", "--"),
   ("swift", "//"),
   ("toml", "#"),
   ("typescript", "//"),
   ("tsx", "//"),
   ("verilog", "//"),
   ("vhdl", "--"),
   ("vue", "<!-- "),
   ("yaml", "#"),
   ("zig", "//")]

/-- How comments begin in a language; without a language, as in a shell. -/
def commentSymbol? : Option String → Option String
  | none | some "" => some "#"
  | some name => Assoc.get? (Text.lower name) commentSymbols

/-- The languages that a file may be in. -/
def known : List String :=
  ["python", "java", "typescript", "javascript"]

def isKnown (name : String) : Bool :=
  known.contains name

/-- Is a file with this path divided into blocks? -/
def isDivided (path : String) : Bool :=
  Text.endsWith ".py" path

/-- The language of the reader for a file with this path. -/
def ofPath? (path : String) : Option String :=
  if isDivided path then some "python" else none

/-- What a reader is made from: its grammar, and settings that may be left out. -/
def readerSettings : Signature :=
  { title := "CodeParser.__init__()"
    required := ["language"]
    optional := ["encoding", "max_tokens_in_span", "min_tokens_for_docs_span", "index_callback",
      "tokenizer", "apply_gpt_tweaks", "debug"] }

/-- The language of the reader for a language of this name (given as it is said), made with the
settings of the given names. -/
def reader (name : String) (settings : List String) : Outcome String := do
  if settings.contains "language" then throw (.givenTwice "create_parser()" "language")
  if name ≠ "python" then throw (.unsupportedLanguage name)
  if settings.contains "self" then throw (.givenTwice "PythonParser.__init__()" "self")
  let _ ← readerSettings.bind [()] (settings.map ((·, ())))
  return "python"

/-- Does a comment, blanks around it aside, stand for code left out? -/
def isOmission (language : Option String) (comment : String) : Bool :=
  let comment := Text.trim comment
  Text.beginsWith ((commentSymbol? language).getD "None" ++ " ...") comment
    || Refine.mentionsOmission comment

end CodeAtlas.Language
