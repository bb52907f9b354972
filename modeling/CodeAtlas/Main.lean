import CodeAtlas.Repo.Record

/-!
# Command line

`code-atlas DIRECTORY` reads the description of the files of a directory from standard input, and
prints what is known about their imports and about the edges between them.
-/

namespace CodeAtlas.CommandLine

/-- What is printed for the description of a directory. -/
def answer (directory description : String) : Outcome String := do
  let files := ((← Json.parse (Text.ofChars description.toList)).field "files").items
  (← RepoMap.ofJson (.ofJson directory files) [] directory files).summary

end CodeAtlas.CommandLine

def main (args : List String) : IO UInt32 := do
  let input ← IO.getStdin
  match CodeAtlas.CommandLine.answer (args.head?.getD ".") (← input.readToEnd) with
  | .ok text =>
    IO.print (String.ofList (CodeAtlas.Text.chars text))
    return 0
  | .error e =>
    IO.eprintln (e.message.getD "the description cannot be read")
    return 1
