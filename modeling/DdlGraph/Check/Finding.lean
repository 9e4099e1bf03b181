/-!
# Findings

What can be wrong with a text, and how it is told.
-/

namespace DdlGraph.Check

inductive Problem where
  | emptyText
  | noTable
  | unexpectedClose
  | neverClosed (count : Nat)
  | missingTableName
  | missingColumnList (table : String)
  | duplicateTable (table : String)
  | duplicateColumn (column table : String)
  | missingComma (column table : String)
  | missingTarget
  | undefinedTable (table : String)
  | undefinedColumn (column table : String)
deriving DecidableEq

/-- A text with this problem can be read all the same: what a foreign key refers to may be defined
elsewhere. -/
def Problem.isWarning : Problem → Bool
  | .undefinedTable _ | .undefinedColumn _ _ => true
  | _ => false

def Problem.message : Problem → String
  | .emptyText => "SQL is empty"
  | .noTable => "No CREATE TABLE statement found"
  | .unexpectedClose => "Unbalanced parentheses: unexpected ')'"
  | .neverClosed count => "Unbalanced parentheses: " ++ toString count ++ " '(' never closed"
  | .missingTableName => "CREATE TABLE is missing a table name"
  | .missingColumnList table =>
    "CREATE TABLE " ++ table ++ " is missing '(' before its column list"
  | .duplicateTable table => "Duplicate table '" ++ table ++ "'"
  | .duplicateColumn column table =>
    "Duplicate column '" ++ column ++ "' in table '" ++ table ++ "'"
  | .missingComma column table =>
    "Possible missing comma before column '" ++ column ++ "' in table '" ++ table ++ "'"
  | .missingTarget => "REFERENCES is missing a table name"
  | .undefinedTable table =>
    "Foreign key references table '" ++ table ++ "' which is not defined"
  | .undefinedColumn column table =>
    "Foreign key references column '" ++ column ++ "' which does not exist in table '" ++ table ++
      "'"

/-- A problem and the line that shows it. -/
structure Finding where
  line : Option Nat
  problem : Problem
deriving DecidableEq

namespace Finding

def isWarning (f : Finding) : Bool :=
  f.problem.isWarning

/-- The finding as one line. -/
def render (f : Finding) : String :=
  (if f.isWarning then "Warning: " else "") ++
    (match f.line with
      | some line => "Line " ++ toString line ++ ": "
      | none => "") ++
    f.problem.message

end Finding

/-- All findings of a text, in order. -/
structure Report where
  findings : List Finding
deriving DecidableEq

namespace Report

/-- The text has no errors. -/
def isValid (r : Report) : Bool :=
  r.findings.all Finding.isWarning

def errors (r : Report) : List Finding :=
  r.findings.filter fun f => !f.isWarning

def warnings (r : Report) : List Finding :=
  r.findings.filter Finding.isWarning

/-- What stands in the way, as text. -/
def blocking (r : Report) : List String :=
  r.errors.map Finding.render

theorem isValid_iff (r : Report) : r.isValid = true ↔ r.errors = [] := by
  simp [isValid, errors]

end Report

end DdlGraph.Check
