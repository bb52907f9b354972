import CodeAtlas.Text.Basic

/-!
# Kinds of code blocks

What a block of source code is (a class, an import, a comment, …), the group the kind falls in,
and the words by which kinds are named in queries and in answers.

Names in the program: `CodeBlockType` and `CodeBlockTypeGroup` for `BlockKind` and `KindGroup`;
`from_string` for `ofTag?`.
-/

namespace CodeAtlas

/-- The groups of block kinds. -/
inductive KindGroup where
  | structural | implementation | importing | delimiter | space | comment | error
  deriving Repr, DecidableEq, Inhabited

/-- What a block of source code is. -/
inductive BlockKind where
  | moduleDef | classDef | functionDef | constructorDef | testSuite | testCase
  | importStmt
  | exportStmt | compound | dependentClause | assignment | call | statement | code
  | delimiter | space
  | comment
  /-- A comment that stands for code left out. -/
  | placeholder
  | error
  deriving Repr, DecidableEq, Inhabited

namespace KindGroup

def all : List KindGroup :=
  [.structural, .implementation, .importing, .delimiter, .space, .comment, .error]

/-- The word for the group in answers. -/
def label : KindGroup → String
  | .structural => "Structures"
  | .implementation => "Implementation"
  | .importing => "Imports"
  | .delimiter => "BlockDelimiter"
  | .space => "Space"
  | .comment => "Comment"
  | .error => "Error"

/-- The name of the group. -/
def name : KindGroup → String
  | .structural => "STRUCTURE"
  | .implementation => "IMPLEMENTATION"
  | .importing => "IMPORT"
  | .delimiter => "BLOCK_DELIMITER"
  | .space => "SPACE"
  | .comment => "COMMENT"
  | .error => "ERROR"

def ofName? (s : String) : Option KindGroup :=
  all.find? fun g => g.name == s

end KindGroup

namespace BlockKind

def all : List BlockKind :=
  [.moduleDef, .classDef, .functionDef, .constructorDef, .testSuite, .testCase, .importStmt,
   .exportStmt, .compound, .dependentClause, .assignment, .call, .statement, .code, .delimiter,
   .space, .comment, .placeholder, .error]

/-- The group of a kind. -/
def group : BlockKind → KindGroup
  | .moduleDef | .classDef | .functionDef | .constructorDef | .testSuite | .testCase => .structural
  | .importStmt => .importing
  | .exportStmt | .compound | .dependentClause | .assignment | .call | .statement | .code =>
    .implementation
  | .delimiter => .delimiter
  | .space => .space
  | .comment | .placeholder => .comment
  | .error => .error

/-- Does the kind structure a file: module, class, function or test? -/
def isStructure (k : BlockKind) : Bool :=
  k.group = .structural

/-- Is the kind a comment of either sort? -/
def isComment (k : BlockKind) : Bool :=
  k = .comment || k = .placeholder

/-- The word for the kind in trees. -/
def label : BlockKind → String
  | .moduleDef => "Module"
  | .classDef => "Class"
  | .functionDef => "Function"
  | .constructorDef => "Constructor"
  | .testSuite => "TestSuite"
  | .testCase => "TestCase"
  | .importStmt => "Import"
  | .exportStmt => "Export"
  | .compound => "Compound"
  | .dependentClause => "DependentClause"
  | .assignment => "Assignment"
  | .call => "Call"
  | .statement => "Statement"
  | .code => "Code"
  | .delimiter => "BlockDelimiter"
  | .space => "Space"
  | .comment => "Comment"
  | .placeholder => "Placeholder"
  | .error => "Error"

/-- The label in small letters, which names a block that has neither identifier nor content. -/
def smallLabel (k : BlockKind) : String :=
  String.ofList (k.label.toList.map Char.toLower)

/-- The name of the kind. -/
def name : BlockKind → String
  | .moduleDef => "MODULE"
  | .classDef => "CLASS"
  | .functionDef => "FUNCTION"
  | .constructorDef => "CONSTRUCTOR"
  | .testSuite => "TEST_SUITE"
  | .testCase => "TEST_CASE"
  | .importStmt => "IMPORT"
  | .exportStmt => "EXPORT"
  | .compound => "COMPOUND"
  | .dependentClause => "DEPENDENT_CLAUSE"
  | .assignment => "ASSIGNMENT"
  | .call => "CALL"
  | .statement => "STATEMENT"
  | .code => "CODE"
  | .delimiter => "BLOCK_DELIMITER"
  | .space => "SPACE"
  | .comment => "COMMENT"
  | .placeholder => "COMMENTED_OUT_CODE"
  | .error => "ERROR"

def ofName? (s : String) : Option BlockKind :=
  all.find? fun k => k.name == s

/-- The kind that a query's capture tag defines. -/
def ofTag? : String → Option BlockKind
  | "definition.assignment" => some .assignment
  | "definition.block_delimiter" => some .delimiter
  | "definition.call" => some .call
  | "definition.class" => some .classDef
  | "definition.code" => some .code
  | "definition.comment" => some .comment
  | "definition.compound" => some .compound
  | "definition.constructor" => some .constructorDef
  | "definition.dependent_clause" => some .dependentClause
  | "definition.error" => some .error
  | "definition.export" => some .exportStmt
  | "definition.function" => some .functionDef
  | "definition.import" => some .importStmt
  | "definition.module" => some .moduleDef
  | "definition.statement" => some .statement
  | "definition.test_suite" => some .testSuite
  | "definition.test_case" => some .testCase
  | _ => none

end BlockKind

end CodeAtlas
