import CodeAtlas.Parse.Module
import CodeAtlas.Syntax.Record

/-!
# What is to be parsed, as a record

A source with its syntax tree and captures, the dialect it is written in, and how its tokens are
counted.
-/

namespace CodeAtlas.Parse

/-- Everything that a reader looks at. -/
def Setting.ofJson (j : Json) : Setting :=
  let wants (key : String) : Bool := (j.field key).bool?.getD false
  { tree := SyntaxTree.ofJson j
    captures := CaptureTable.ofJson j
    dialect := if wants "java" then .java else if wants "base" then .plain else .python
    tweaked := wants "apply_gpt_tweaks"
    tokenizer := if (j.field "tokenizer").str? = some "chars" then .chars else .words
    spanLimit := (j.field "max_tokens_in_span").int?.getD 500 }

end CodeAtlas.Parse
