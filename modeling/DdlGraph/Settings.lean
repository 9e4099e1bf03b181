import DdlGraph.Json.Decode
import DdlGraph.Sql.Dialect

/-!
# Settings of the written text
-/

namespace DdlGraph

structure Settings where
  /-- Quote every name, so that its case is kept. -/
  caseSensitive : Bool := true
  /-- Write foreign keys inside of `CREATE TABLE`. -/
  inlineConstraints : Bool := false
  dialect : Sql.Dialect := .postgresql
deriving DecidableEq

namespace Settings

def dialectWords : List (String × Sql.Dialect) :=
  [("postgresql", .postgresql), ("mysql", .mysql), ("sqlite", .sqlite)]

def toJson (s : Settings) : Json :=
  .record [("caseSensitiveIdentifiers", .bool s.caseSensitive),
    ("useInlineConstraints", .bool s.inlineConstraints),
    ("dialect", .text s.dialect.name)]

/-- **Settings** that a value describes; each of them has a default. -/
def ofJson? (j : Json) : Option Settings := do
  let [caseSensitive, inlineConstraints, dialect] ←
    j.members? ["caseSensitiveIdentifiers", "useInlineConstraints", "dialect"] | none
  return ⟨← Json.withDefault true Json.bool? caseSensitive,
    ← Json.withDefault false Json.bool? inlineConstraints,
    ← Json.withDefault .postgresql (Json.word? dialectWords) dialect⟩

end Settings

end DdlGraph
