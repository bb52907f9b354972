import CodeAtlas.Failure
import CodeAtlas.Json.Lenient
import CodeAtlas.Json.Reader
import CodeAtlas.Json.Writer

/-!
# Lists of known modules

The modules that come with a language and those of third parties, each kept in a JSON file.  A list
is whatever value the file holds, and a name is looked up as far as that value allows: in a list
among its items, in a record among the names of its fields, in a text among its characters.

Names in the program: `SysModules` and `ThirdPartyModules` for `systemOf` and `thirdPartyOf`;
`update` for `ModuleShelf.update`.
-/

namespace CodeAtlas

/-- Which list it is. -/
inductive ModuleSource where
  | system
  | thirdParty
  deriving Repr, DecidableEq, Inhabited

/-- The word for a list in messages. -/
def ModuleSource.word : ModuleSource → String
  | .system => "SysModules"
  | .thirdParty => "ThirdPartyModules"

/-- A list of modules. -/
structure ModuleList where
  source : ModuleSource
  value : Json
  deriving Inhabited

namespace ModuleList

/-! ## §1. Reading. -/

/-- The list of system modules in a file; what cannot be read is empty. -/
def systemOf (file : Option String) : ModuleList :=
  ⟨.system, (file.bind fun text => (Json.parse text).toOption).getD (.arr [])⟩

/-- The list of third-party modules in a file, under the field `modules`. -/
def thirdPartyOf (file : Option String) : ModuleList :=
  ⟨.thirdParty, ((file.bind fun text => (Json.parse text).toOption).bind (Json.field? "modules")).getD (.arr [])⟩

/-- The list of system modules that is at hand: a record with the one field `modules`.  The file has
the names of the modules under this field.  They are left out here, since a name is looked up among
the names of the fields, and what a field holds is not looked at. -/
def system : ModuleList :=
  ⟨.system, .obj [("modules", .arr [])]⟩

def thirdParty : ModuleList :=
  ⟨.thirdParty, .arr [.str "pytest"]⟩

/-! ## §2. Looking up. -/

/-- All items. -/
def items (l : ModuleList) : Outcome (List Json) :=
  match l.value.members? with
  | some items => .ok items
  | none => .error (.notIterable l.value.sort)

/-- Is the name one of the items? -/
def has (l : ModuleList) (name : Json) : Outcome Bool :=
  match l.value.members? with
  | some items => .ok (items.any (Json.same name))
  | none => .error (.notSearchable l.source.word)

/-- Is the name in the value?  In a text it may stand anywhere, and only texts can; in a record it
must be able to be the name of a field. -/
def check (l : ModuleList) (name : Json) : Outcome Bool :=
  match l.value, name with
  | .str s, .str part => .ok (Text.contains part s)
  | .str _, other => .error (.notInText other.sort)
  | .obj _, .arr _ | .obj _, .obj _ => .error (.notHashable name.sort)
  | value, name =>
    match value.members? with
    | some items => .ok (items.any (Json.same name))
    | none => .error (.notSearchable value.sort)

/-! ## §3. Adding. -/

/-- Adds names at the end of a list. -/
def extend (l : ModuleList) (names : Json) : Outcome ModuleList :=
  match l.value, names.members? with
  | .arr items, some more => .ok { l with value := .arr (items ++ more) }
  | .arr _, none => .error (.notIterable names.sort)
  | value, _ => .error (.noMember value.sort "extend")

/-- The text of the file in which a list is kept. -/
def fileText (l : ModuleList) : String :=
  (Json.obj [("modules", l.value)]).indented

end ModuleList

/-! ## §4. The directory of the lists. -/

/-- The two lists, the file in which the third-party list is kept, and whether its directory is
still there. -/
structure ModuleShelf where
  system : ModuleList
  thirdParty : ModuleList
  file : String
  isThere : Bool := true
  deriving Inhabited

namespace ModuleShelf

/-- The lists in the given files, or those at hand if no files are given. -/
def ofFiles (file : String) : Option Json → ModuleShelf
  | none => ⟨.system, .thirdParty, file, true⟩
  | some files =>
    ⟨.systemOf (files.field "sys_modules.json").str?,
      .thirdPartyOf (files.field "third_party_modules.json").str?, file, true⟩

def list (s : ModuleShelf) : ModuleSource → ModuleList
  | .system => s.system
  | .thirdParty => s.thirdParty

/-- Adds third-party modules, and answers with the text of their file.  The list grows also where
the file cannot be written. -/
def update (s : ModuleShelf) (names : Json) : Outcome String × ModuleShelf :=
  match s.thirdParty.extend names with
  | .error e => (.error e, s)
  | .ok grown =>
    (if s.isThere then .ok grown.fileText else .error (.noSuchFile s.file),
      { s with thirdParty := grown })

end ModuleShelf

/-! ## §5. The page of system modules. -/

namespace ModulePage

/-- The module that a line of the page links to: what stands between the first `library/` and the
last `.html#module`. -/
def moduleIn? (line : List Char) : Option String := do
  let (_, rest) ← Text.cutAt "library/".toList line
  let (name, _) ← Text.cutAtLast ".html#module".toList rest
  return String.ofList name

/-- The modules that a page links to, at most one a line. -/
def modules (page : String) : List String :=
  (Text.lines (String.ofList (Text.unifyLineEnds page.toList))).filterMap
    fun line => moduleIn? line.toList

/-- The text of the file made from a page. -/
def fileText (page : String) : String :=
  (Json.obj [("modules", Json.ofStrings (modules page))]).indented

/-- What is said about a page without modules. -/
def remark (page : String) : String :=
  if (modules page).isEmpty then "No match found\n" else ""

end ModulePage

end CodeAtlas
