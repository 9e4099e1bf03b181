import DdlGraph.Ddl.TableText

/-!
# Schemas as text

The text of a graph: a header that names the dialect, the enumerations where the dialect declares
them, the tables, and the foreign keys that are added to them.
-/

namespace DdlGraph.Ddl

open DdlGraph.Sql

/-- The line before the foreign keys that are added to tables. -/
def keySectionMark : String := "-- Foreign Key Constraints"

def header (s : Settings) (timestamp : String) : String :=
  "-- Generated by schemasync\n-- Dialect: " ++ s.dialect.name ++ "\n-- Generated at: " ++
    timestamp ++ "\n\n"

/-- `CREATE TYPE`. -/
def enumText (s : Settings) (e : Enumeration) : String :=
  "CREATE TYPE " ++ quote s e.name ++ " AS ENUM (" ++ stringList s.dialect e.values ++ ");\n"

/-- The declarations of enumerations. -/
def enumSection (s : Settings) (g : Graph) : String :=
  if s.dialect = .postgresql ∧ !g.enums.isEmpty then
    Text.join "" (g.enums.map (enumText s)) ++ "\n"
  else ""

/-- `ALTER TABLE` that adds a foreign key. -/
def addKeyText (s : Settings) (name : String) (k : KeySpec) : String :=
  "ALTER TABLE " ++ quote s k.sourceTable ++ " ADD CONSTRAINT " ++ quote s name ++
    " FOREIGN KEY (" ++ quote s k.sourceColumn ++ ") " ++ referencesText s k ++ ";\n"

/-- The foreign keys that are added to tables, under names of their own. -/
def keySection (s : Settings) (keys : List KeySpec) : String :=
  if inlinesKeys s || keys.isEmpty then ""
  else keySectionMark ++ "\n" ++
    Text.join "" ((constraintNames [] keys).map fun nk => addKeyText s nk.1 nk.2)

/-- **Text of a graph**, with a time in its header. -/
def script (s : Settings) (timestamp : String) (g : Graph) : String :=
  let keys := keysOf g
  header s timestamp ++ enumSection s g ++ Text.join "" (g.tables.map (tableText s g keys)) ++
    keySection s keys

end DdlGraph.Ddl
