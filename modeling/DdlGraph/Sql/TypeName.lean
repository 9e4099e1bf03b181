import DdlGraph.Sql.Dialect
import DdlGraph.Text.Trim

/-!
# Type names

How a type that a text names is held in a graph, and how each dialect writes it.

* `normalize`: one name for each type, with the serial types as what they count with;
* `render`: the name of a type in a dialect, with its parameters.
-/

namespace DdlGraph.Sql

/-- A type as a graph holds it. -/
structure BaseType where
  name : String
  /-- One of the serial types: it counts up and makes a primary key. -/
  serial : Bool
deriving DecidableEq

/-- **Type of a graph** for a type as written, without parameters. -/
def BaseType.normalize (written : String) : BaseType :=
  let words := (Text.words written.toList).map String.ofList
  match Text.lower (Text.join " " words) with
  | "serial" | "serial4" => ⟨"integer", true⟩
  | "bigserial" | "serial8" => ⟨"bigint", true⟩
  | "smallserial" | "serial2" => ⟨"smallint", true⟩
  | "character varying" => ⟨"varchar", false⟩
  | "character" => ⟨"char", false⟩
  | "double precision" => ⟨"double", false⟩
  | "bool" => ⟨"boolean", false⟩
  | "timestamp with time zone" => ⟨"timestamptz", false⟩
  | "timestamp without time zone" => ⟨"timestamp", false⟩
  | other => ⟨other, false⟩

/-- The type counts up by itself. -/
def isSerialType (base : String) : Bool :=
  (BaseType.normalize base).serial

/-! ## Words of types -/

/-- Words that name a type where nothing around them tells. -/
def knownTypes : List String := [
  "int", "integer", "int2", "int4", "int8", "bigint", "smallint", "tinyint", "mediumint",
  "serial", "serial4", "serial8", "bigserial", "smallserial", "decimal", "numeric", "real",
  "float", "double", "money", "bool", "boolean", "char", "character", "varchar", "nvarchar",
  "text", "tinytext", "mediumtext", "longtext", "uuid", "date", "time", "timestamp",
  "timestamptz", "datetime", "interval", "json", "jsonb", "blob", "longblob", "bytea", "inet",
  "cidr", "enum"]

def isKnownType (word : String) : Bool :=
  knownTypes.any (Text.sameAscii · word)

/-- Words that may go on a type of several words. -/
def typeContinuations : List String :=
  ["precision", "varying", "with", "without", "time", "zone"]

def isTypeContinuation (word : String) : Bool :=
  typeContinuations.any (Text.sameAscii · word)

/-- The word can only go on the type before it. -/
def continuesType (word : String) : Bool :=
  isTypeContinuation word && !isKnownType word

/-! ## Types in a dialect -/

/-- Array marks at the end of a name that is given backwards, backwards too, and the rest. -/
def splitArrays : List Char → List Char × List Char
  | ']' :: '[' :: rest => (']' :: '[' :: (splitArrays rest).1, (splitArrays rest).2)
  | rest => ([], rest)

/-- The parameters stand before the array marks: `VARCHAR(20)[]`. -/
def withParams (name : String) (params : List String) : String :=
  if params.isEmpty then name
  else
    let r := splitArrays name.toList.reverse
    .ofList r.2.reverse ++ "(" ++ Text.join "," params ++ ")" ++ .ofList r.1.reverse

/-- The name ends in array marks. -/
def isArrayType (name : String) : Bool :=
  "[]".toList.isSuffixOf name.toList

/-- A type with a name of its own in PostgreSQL. -/
def postgresType? : String → Option String
  | "double" => some "DOUBLE PRECISION"
  | "datetime" => some "TIMESTAMP"
  | "tinyint" => some "SMALLINT"
  | "blob" | "longblob" => some "BYTEA"
  | "longtext" | "mediumtext" | "tinytext" => some "TEXT"
  | _ => none

/-- A type with a name of its own in MySQL. -/
def mysqlType? (name : String) (params : List String) : Option String :=
  match name with
  | "uuid" => some "VARCHAR(36)"
  | "varchar" => if params.isEmpty then some "VARCHAR(255)" else none
  | "integer" | "int4" | "serial" => some "INT"
  | "int8" | "bigserial" => some "BIGINT"
  | "int2" => some "SMALLINT"
  | "boolean" => some "BOOLEAN"
  | "timestamptz" => some "TIMESTAMP"
  | "json" | "jsonb" => some "JSON"
  | "bytea" => some "BLOB"
  | "real" => some "FLOAT"
  | "inet" | "cidr" => some "VARCHAR(45)"
  | "interval" => some "VARCHAR(64)"
  | name => if isArrayType name then some "JSON" else none

/-- A type with a name of its own in SQLite. -/
def sqliteType? (name : String) : Option String :=
  match name with
  | "int" | "integer" | "int4" | "int8" | "serial" | "bigserial" => some "INTEGER"
  | "uuid" | "json" | "jsonb" | "inet" | "cidr" | "interval" => some "TEXT"
  | "bytea" => some "BLOB"
  | "double" => some "REAL"
  | name => if isArrayType name then some "TEXT" else none

/-- **Type in a dialect**: its own name there, which takes no parameters, or else the name of the
graph in capitals with its parameters. -/
def renderType (base : String) (params : List String) (dialect : Dialect) : String :=
  let name := Text.lower base
  let own := match dialect with
    | .postgresql => postgresType? name
    | .mysql => mysqlType? name params
    | .sqlite => sqliteType? name
  own.getD (withParams (Text.upper name) params)

/-- **Type of a column that counts up.** -/
def renderCountingType (base : String) : Dialect → String
  | .postgresql => match Text.lower base with
    | "bigint" | "bigserial" => "BIGSERIAL"
    | "smallint" | "smallserial" => "SMALLSERIAL"
    | _ => "SERIAL"
  | .mysql => match Text.lower base with
    | "bigint" | "bigserial" => "BIGINT"
    | "smallint" | "smallserial" => "SMALLINT"
    | _ => "INT"
  | .sqlite => "INTEGER"

/-! ## Array marks -/

theorem splitArrays_append (cs : List Char) : (splitArrays cs).1 ++ (splitArrays cs).2 = cs := by
  fun_induction splitArrays cs <;> simp_all

end DdlGraph.Sql
