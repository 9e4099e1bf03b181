import DdlGraph.Text.Case
import DdlGraph.Text.Find

/-!
# Dialects

The dialects of SQL that a schema is written in and read from, and the signs by which a text shows
its own.
-/

namespace DdlGraph.Sql

inductive Dialect where
  | postgresql
  | mysql
  | sqlite
deriving DecidableEq

namespace Dialect

def name : Dialect → String
  | .postgresql => "postgresql"
  | .mysql => "mysql"
  | .sqlite => "sqlite"

/-- The mark around names that are not plain. -/
def quoteMark : Dialect → Char
  | .mysql => '`'
  | _ => '"'

/-- Foreign keys can be added to a table that exists. -/
def altersConstraints : Dialect → Bool
  | .sqlite => false
  | _ => true

/-- Backslashes escape in every string literal. -/
def escapesBackslash : Dialect → Bool
  | .mysql => true
  | _ => false

/-- **Dialect by name**, in any case and with the usual short names. -/
def ofName? (s : String) : Option Dialect :=
  match Text.lower s with
  | "postgres" | "postgresql" | "pg" => some .postgresql
  | "mysql" | "mariadb" => some .mysql
  | "sqlite" | "sqlite3" => some .sqlite
  | _ => none

/-- What is said of a name that no dialect has. -/
def unknownMessage (s : String) : String :=
  "unknown dialect: " ++ Text.lower s

/-- Signs of a dialect in the small form of a text, in the order in which they decide: what a
header says comes before quotes and words. -/
inductive Sign where
  /-- A text in small letters. -/
  | phrase (s : String)
  /-- A character of the text itself. -/
  | mark (c : Char)

def signs : List (Sign × Dialect) :=
  [(.phrase "-- dialect: mysql", .mysql),
   (.phrase "mysql dump", .mysql),
   (.phrase "-- dialect: sqlite", .sqlite),
   (.phrase "-- dialect: postgresql", .postgresql),
   (.phrase "postgresql database dump", .postgresql),
   (.mark '`', .mysql),
   (.phrase "auto_increment", .mysql),
   (.phrase "engine=", .mysql),
   (.phrase "unsigned", .mysql),
   (.phrase "autoincrement", .sqlite),
   (.phrase "without rowid", .sqlite)]

/-- The sign is in a text with the small form `small`. -/
def Sign.isIn (text small : List Char) : Sign → Bool
  | .phrase s => Text.holds s.toList small
  | .mark c => text.contains c

/-- The dialect of characters: that of the first sign in them, PostgreSQL without one. -/
def ofChars (cs : List Char) : Dialect :=
  let small := Text.lowerFrom [] cs
  match signs.find? fun s => s.1.isIn cs small with
  | some s => s.2
  | none => .postgresql

/-- **Dialect of a text.** -/
def detect (text : String) : Dialect :=
  ofChars text.toList

theorem detect_ofList (cs : List Char) : detect (.ofList cs) = ofChars cs := by
  rw [detect, String.toList_ofList]

end Dialect

end DdlGraph.Sql
