import DdlGraph.Graph.Identity
import DdlGraph.Graph.Lookup
import DdlGraph.Sql.Statement.Basic
import DdlGraph.Sql.TypeName

/-!
# A graph in the making

The statements of a script become a graph in phases: enumerations, tables with their indexes,
foreign keys of other statements, and last the targets of all foreign keys. This file has the state
that the phases hand on and the first two of them.

* `addEnum_values_nodup`: the values of an enumeration are different.
-/

namespace DdlGraph.Recovery

open DdlGraph.Sql

/-- What a text says that the graph does not hold, or not as it says it. -/
inductive Warning where
  | duplicateEnum (name : String)
  | duplicateTable (name : String) (line : Nat)
  | unknownIndexTable (table : String)
  | unknownAlteredTable (table : String)
  | missingKeyColumn (column table : String)
  | unresolved (table column targetTable targetColumn : String)
deriving DecidableEq

def Warning.message : Warning → String
  | .duplicateEnum name => "Duplicate enum type '" ++ name ++ "' ignored"
  | .duplicateTable name line =>
    "Duplicate table '" ++ name ++ "' at line " ++ toString line ++ " ignored"
  | .unknownIndexTable table => "Index on unknown table '" ++ table ++ "' ignored"
  | .unknownAlteredTable table =>
    "Warning: ALTER TABLE references unknown table '" ++ table ++ "'"
  | .missingKeyColumn column table =>
    "Warning: foreign key column '" ++ column ++ "' not found in table '" ++ table ++ "'"
  | .unresolved table column targetTable targetColumn =>
    "Warning: foreign key " ++ table ++ "." ++ column ++ " references unknown " ++ targetTable ++
      "(" ++ targetColumn ++ ")"

/-- A foreign key of one column that waits for its target. -/
structure PendingKey where
  tableId : String
  column : String
  reference : Reference
  targetColumn : String
deriving DecidableEq

/-- A column that is typed by an enumeration. -/
structure EnumUse where
  enumId : String
  enumName : String
  tableId : String
  column : String
deriving DecidableEq

/-- The graph so far. -/
structure Draft where
  pool : IdPool
  enums : List Enumeration := []
  tables : List Table := []
  /-- Ids by the small forms of table names. -/
  tableIds : List (String × String) := []
  pending : List PendingKey := []
  enumUses : List EnumUse := []
  warnings : List Warning := []

namespace Draft

def warn (d : Draft) (w : Warning) : Draft :=
  { d with warnings := d.warnings ++ [w] }

/-- Id of the table of that name, in any case. -/
def tableId? (d : Draft) (name : String) : Option String :=
  d.tableIds.lookup (Text.lower name)

/-! ## Enumerations -/

/-- Appends an enumeration with each value once. -/
def addEnum (d : Draft) (prior : Prior) (name : String) (values : List String) :
    Enumeration × Draft :=
  let r := placeEnum prior d.pool name d.enums.length
  let e := values.foldl Enumeration.pushValue
    { id := r.1.id, name, values := [], position := r.1.position }
  (e, { d with pool := r.2, enums := d.enums ++ [e] })

/-- `CREATE TYPE`. The first definition of a name counts. -/
def declareEnum (prior : Prior) (d : Draft) (name : String) (values : List String) : Draft :=
  match enumByName? d.enums name with
  | some _ => d.warn (.duplicateEnum name)
  | none => (d.addEnum prior name values).2

/-- A new name for the enumeration of a column. -/
def columnEnumName (d : Draft) (table column : String) : String :=
  freeName (fun name => (enumByName? d.enums name).isSome) d.enums.length (table ++ "_" ++ column)
    "_"

/-- **Enumeration for listed values**: one with just these values, that the text has or the graph
before had, or else a new one. -/
def inlineEnum (prior : Prior) (d : Draft) (table column : String) (values : List String) :
    Enumeration × Draft :=
  match d.enums.find? (·.values = values) with
  | some e => (e, d)
  | none => match (prior.enumWithValues? values).filter
      fun e => (enumByName? d.enums e.name).isNone with
    | some e => d.addEnum prior e.name values
    | none => d.addEnum prior (d.columnEnumName table column) values

/-- The enumeration that a type names, with or without the mark of such types. -/
def knownEnum? (d : Draft) (typeName : String) : Option Enumeration :=
  if typeName.isEmpty then none
  else (enumByName? d.enums typeName).or <|
    (afterMark? enumTypeMark.toList (Text.lower typeName).toList).bind fun name =>
      enumByName? d.enums (.ofList name)

/-! ## Tables -/

/-- Type of a column: its name, its parameters, and whether it is a serial type. -/
structure TypeChoice where
  dataType : String
  params : List String
  serial : Bool

/-- **Type of a column**: an enumeration for listed values, a known enumeration, or a built-in
type. -/
def chooseType (prior : Prior) (d : Draft) (table : String) (c : ColumnDef) : TypeChoice × Draft :=
  match c.inlineValues with
  | some values =>
    let r := d.inlineEnum prior table c.name values
    (⟨r.1.columnType, [], false⟩, r.2)
  | none => match d.knownEnum? c.typeName with
    | some e => (⟨e.columnType, [], false⟩, d)
    | none =>
      let t := BaseType.normalize c.typeName
      (⟨t.name, c.params, t.serial⟩, d)

/-- The constraints of a column in their order. A serial type makes a primary key. -/
def constraintsOf (serial : Bool) (c : ColumnDef) : List Constraint :=
  (if serial || c.primary then [.primary] else []) ++
    (if c.unique then [.unique] else []) ++
    (if c.notNull then [.notNull] else [])

/-- The column of a definition, with its type chosen. -/
def columnOf (t : TypeChoice) (c : ColumnDef) : Column where
  title := c.name
  dataType := t.dataType
  params := t.params
  constraints := constraintsOf t.serial c
  defaultValue := c.defaultValue
  autoIncrement := t.serial || c.autoIncrement

/-- Appends a column to `table`, and notes what it refers to. -/
def addColumn (prior : Prior) (r : Table × Draft) (c : ColumnDef) : Table × Draft :=
  let (table, d) := r
  let (type, d) := d.chooseType prior table.name c
  let column := columnOf type c
  let title := table.freeTitle column.title
  let uses := match column.enumName?.bind (enumByName? d.enums) with
    | some e => [⟨e.id, e.name, table.id, title⟩]
    | none => []
  let pending := match c.reference with
    | some ref => [⟨table.id, title, ref, ref.columns.headD "id"⟩]
    | none => []
  (table.addColumn column,
    { d with enumUses := d.enumUses ++ uses, pending := d.pending ++ pending })

/-- Adds a constraint to the column of that title, if need be in another case. -/
def constrain (k : Constraint) (t : Table) (title : String) : Table :=
  match t.findColumn? title with
  | some c => t.updateColumn c.title (·.addConstraint k)
  | none => t

/-- The columns of one name each. -/
def singletons (lists : List (List String)) : List String :=
  lists.filterMap fun
    | [name] => some name
    | _ => none

/-- The primary key and the unique columns that a table names apart from its columns. A constraint
over several columns is not held, the columns of the primary key are. -/
def applyConstraints (definition : TableDef) (t : Table) : Table :=
  (singletons definition.unique).foldl (constrain .unique)
    (definition.primaryKey.foldl (constrain .primary) t)

/-- Notes a foreign key for each of its columns. A column without a counterpart goes to the first
target column. -/
def queueKey (tableId tableName : String) (d : Draft) (key : KeyDef) : Draft :=
  (key.columns.zipIdx).foldl (fun d (column, i) =>
    match (tableById? d.tables tableId).bind (·.findColumn? column) with
    | some c =>
      let target := (key.reference.columns[i]?.or key.reference.columns.head?).getD "id"
      { d with pending := d.pending ++ [⟨tableId, c.title, key.reference, target⟩] }
    | none => d.warn (.missingKeyColumn column tableName)) d

/-- **Table of a definition.** The first definition of a name counts, in any case. -/
def addTable (prior : Prior) (d : Draft) (definition : TableDef) : Draft :=
  match d.tableId? definition.name with
  | some _ => d.warn (.duplicateTable definition.name definition.line)
  | none =>
    let (place, pool) := placeTable prior d.pool definition.name d.tables.length
    let empty : Table :=
      { id := place.id, name := definition.name, position := place.position, color := place.color }
    let (table, d) := definition.columns.foldl (addColumn prior) (empty, { d with pool })
    let d := { d with
      tableIds := d.tableIds ++ [(Text.lower definition.name, place.id)]
      tables := d.tables ++ [applyConstraints definition table] }
    definition.foreignKeys.foldl (queueKey place.id definition.name) d

/-- Replaces the first table with that id. -/
def updateTable (d : Draft) (id : String) (f : Table → Table) : Draft :=
  { d with tables := updateFirst (·.id == id) f d.tables }

/-- An index of one column is held as a constraint of the column. -/
def addIndex (d : Draft) (table : String) (columns : List String) (unique : Bool) : Draft :=
  match columns with
  | [column] => match d.tableId? table with
    | some id => d.updateTable id (constrain (if unique then .unique else .index) · column)
    | none => d.warn (.unknownIndexTable table)
  | _ => d

/-! ## Values and names -/

theorem pushValue_nodup {e : Enumeration} (value : String) (h : e.values.Nodup) :
    (e.pushValue value).values.Nodup := by
  unfold Enumeration.pushValue
  split
  · exact h
  · rename_i hv
    refine List.nodup_append.2 ⟨h, by simp, ?_⟩
    rintro a ha b hb rfl
    simp only [List.mem_singleton] at hb
    exact hv (hb ▸ ha)

theorem foldl_pushValue_nodup (values : List String) {e : Enumeration} (h : e.values.Nodup) :
    (values.foldl Enumeration.pushValue e).values.Nodup := by
  induction values generalizing e with
  | nil => exact h
  | cons v vs ih => exact ih (pushValue_nodup v h)

theorem addEnum_values_nodup (d : Draft) (prior : Prior) (name : String) (values : List String) :
    (d.addEnum prior name values).1.values.Nodup :=
  foldl_pushValue_nodup values (by simp)

end Draft

end DdlGraph.Recovery
