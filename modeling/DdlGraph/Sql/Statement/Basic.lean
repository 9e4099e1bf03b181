import DdlGraph.Sql.Token.Basic

/-!
# Statements

The statements that define a schema, as they stand in a text, and what can be wrong with one.
-/

namespace DdlGraph.Sql

/-- What happens to a row when the row that it refers to goes or changes. -/
inductive ReferentialAction where
  | cascade
  | restrict
  | setNull
  | setDefault
  | noAction
deriving DecidableEq

def ReferentialAction.text : ReferentialAction → String
  | .cascade => "CASCADE"
  | .restrict => "RESTRICT"
  | .setNull => "SET NULL"
  | .setDefault => "SET DEFAULT"
  | .noAction => "NO ACTION"

/-- `REFERENCES table (columns)` with its actions. -/
structure Reference where
  table : String
  columns : List String
  onDelete : Option ReferentialAction
  onUpdate : Option ReferentialAction
deriving DecidableEq

/-- A foreign key of a table or of `ALTER TABLE`. -/
structure KeyDef where
  columns : List String
  reference : Reference
deriving DecidableEq

structure ColumnDef where
  name : String
  /-- The type as written, without its parameters. -/
  typeName : String := ""
  params : List String := []
  /-- Values that the type or a check lists. -/
  inlineValues : Option (List String) := none
  primary : Bool := false
  notNull : Bool := false
  unique : Bool := false
  autoIncrement : Bool := false
  defaultValue : Option String := none
  reference : Option Reference := none
deriving DecidableEq

structure TableDef where
  name : String
  line : Nat
  columns : List ColumnDef := []
  primaryKey : List String := []
  /-- The columns of each `UNIQUE` of the table. -/
  unique : List (List String) := []
  foreignKeys : List KeyDef := []
deriving DecidableEq

inductive Statement where
  | createType (name : String) (values : List String)
  | createTable (table : TableDef)
  /-- `CREATE TABLE` without a column list. -/
  | malformedTable (name : Option String) (line : Nat)
  | alterForeignKey (table : String) (key : KeyDef)
  | createIndex (table : String) (columns : List String) (unique : Bool)
deriving DecidableEq

/-- What a statement needs at some place. -/
inductive Wanted where
  | openParen
  | key
  | references
  | typeName
  | referencedTable
  | keyColumns
  | indexedTable
deriving DecidableEq

def Wanted.text : Wanted → String
  | .openParen => "("
  | .key => "KEY"
  | .references => "REFERENCES"
  | .typeName => "type name"
  | .referencedTable => "referenced table"
  | .keyColumns => "foreign key column list"
  | .indexedTable => "indexed table"

inductive SyntaxError where
  | unexpected (line : Nat) (found : Token)
  | expected (line : Nat) (wanted : Wanted) (found : Token)
  | endOfText
deriving DecidableEq

def SyntaxError.message : SyntaxError → String
  | .unexpected line found => "line " ++ toString line ++ ": unexpected token " ++ found.label
  | .expected line wanted found =>
    "line " ++ toString line ++ ": expected " ++ wanted.text ++ ", found " ++ found.label
  | .endOfText => "unexpected end of input"

/-- The statements of a text and what is wrong with those that could not be read. -/
structure Script where
  statements : List Statement := []
  errors : List SyntaxError := []
deriving DecidableEq

end DdlGraph.Sql
