import DdlGraph.Ddl.KeySpec
import DdlGraph.Ddl.Literal
import DdlGraph.Sql.TypeName
import DdlGraph.Text.Width

/-!
# Tables as text

`CREATE TABLE` as a list of items: one for each column, made of clauses, and then the keys of the
table. Primary keys stand with their column only if there is just one and it refers to nothing.

* `items_primaryKey`: an item for the primary key lists all primary columns in order.
-/

namespace DdlGraph.Ddl

open DdlGraph.Sql

/-- A part of the definition of a column. -/
inductive Clause where
  | type (text : String)
  /-- The type of a column that counts up and is the primary key, in one. -/
  | countingKey (text : String)
  | default (literal : String)
  | notNull
  | unique
  | primaryKey
  | references (key : KeySpec)
deriving DecidableEq

inductive Item where
  | column (title : String) (clauses : List Clause)
  | primaryKey (titles : List String)
  | foreignKey (key : KeySpec)
deriving DecidableEq

/-- Foreign keys stand inside of `CREATE TABLE`: the settings ask for it, or they cannot be added
later. -/
def inlinesKeys (s : Settings) : Bool :=
  s.inlineConstraints || !s.dialect.altersConstraints

/-- The type of a column of an enumeration. -/
def enumType (s : Settings) (g : Graph) (enumName title : String) : String :=
  match s.dialect, g.enumByName? enumName with
  | .postgresql, some e => quote s e.name
  | .postgresql, none => quote s enumName
  | .mysql, some e => "ENUM(" ++ stringList .mysql e.values ++ ")"
  | .mysql, none => "VARCHAR(255)"
  | .sqlite, some e =>
    "TEXT CHECK (" ++ quote s title ++ " IN (" ++ stringList .sqlite e.values ++ "))"
  | .sqlite, none => "TEXT"

/-- The column counts up. -/
def countsUp (c : Column) : Bool :=
  c.autoIncrement || isSerialType c.dataType

/-- The clause for the type of a column; `keyHere` if the column states the primary key. -/
def typeClause (s : Settings) (g : Graph) (c : Column) (keyHere : Bool) : Clause :=
  match c.enumName? with
  | some name => .type (enumType s g name c.title)
  | none =>
    if countsUp c then
      let base := renderCountingType c.dataType s.dialect
      match s.dialect with
      | .sqlite => if keyHere then .countingKey base else .type base
      | .mysql => .type (base ++ " AUTO_INCREMENT")
      | .postgresql => .type base
    else .type (renderType c.dataType c.params s.dialect)

/-- The clause states the primary key. -/
def Clause.isPrimaryKey : Clause → Bool
  | .countingKey _ | .primaryKey => true
  | _ => false

/-- **Clauses of a column**, which stand in this order. -/
def clauses (s : Settings) (g : Graph) (promoted : Bool) (key : Option KeySpec) (c : Column) :
    List Clause :=
  let keyHere := c.isPrimary && !promoted
  let type := typeClause s g c keyHere
  [type] ++
    (c.defaultValue.map fun v => Clause.default (defaultLiteral s.dialect v)).toList ++
    (if c.has .notNull then [.notNull] else []) ++
    (if c.has .unique then [.unique] else []) ++
    (if keyHere && !type.isPrimaryKey then [.primaryKey] else []) ++
    (if s.dialect = .mysql then [] else (key.map Clause.references).toList)

/-- The key of a column among those that stand inside of its table; of several the last one. -/
def keyOfColumn? (keys : List KeySpec) (c : Column) : Option KeySpec :=
  keys.reverse.find? (·.sourceColumn == c.title)

/-- The primary columns of a table. -/
def primaryColumns (t : Table) : List Column :=
  t.columns.filter Column.isPrimary

/-- The primary key is an item of its own: it has several columns, or one that refers to
another. -/
def promotesKey (t : Table) (keys : List KeySpec) : Bool :=
  decide (1 < (primaryColumns t).length) ||
    (primaryColumns t).any fun c => (keyOfColumn? keys c).isSome

/-- **Items of a table**, with the foreign keys that stand inside of it. -/
def items (s : Settings) (g : Graph) (t : Table) (keys : List KeySpec) : List Item :=
  let promoted := promotesKey t keys
  (t.columns.map fun c => .column c.title (clauses s g promoted (keyOfColumn? keys c) c)) ++
    (if promoted then [.primaryKey ((primaryColumns t).map (·.title))] else []) ++
    (if s.dialect = .mysql then keys.map .foreignKey else [])

/-! ## Text -/

/-- `REFERENCES` with its actions. -/
def referencesText (s : Settings) (k : KeySpec) : String :=
  "REFERENCES " ++ quote s k.targetTable ++ "(" ++ quote s k.targetColumn ++ ")" ++
    (match k.onDelete with
      | some action => " ON DELETE " ++ action
      | none => "") ++
    (match k.onUpdate with
      | some action => " ON UPDATE " ++ action
      | none => "")

def Clause.text (s : Settings) : Clause → String
  | .type text => text
  | .countingKey text => text ++ " PRIMARY KEY AUTOINCREMENT"
  | .default literal => "DEFAULT " ++ literal
  | .notNull => "NOT NULL"
  | .unique => "UNIQUE"
  | .primaryKey => "PRIMARY KEY"
  | .references key => referencesText s key

/-- The text of an item; the names of columns are filled up to `width`. -/
def Item.text (s : Settings) (width : Nat) : Item → String
  | .column title clauses =>
    let name := quote s title
    name ++ .ofList (List.replicate (width - Text.width name) ' ') ++ " " ++
      Text.join " " (clauses.map (Clause.text s))
  | .primaryKey titles => "PRIMARY KEY (" ++ Text.join ", " (titles.map (quote s)) ++ ")"
  | .foreignKey key => "FOREIGN KEY (" ++ quote s key.sourceColumn ++ ") " ++ referencesText s key

/-- The width of the widest name. -/
def nameWidth (s : Settings) (t : Table) : Nat :=
  (t.columns.map fun c => Text.width (quote s c.title)).foldl max 0

/-- A line for each item, with a comma after all but the last. -/
def itemLines : List String → String
  | [] => ""
  | [item] => "    " ++ item ++ "\n"
  | item :: next :: rest => "    " ++ item ++ ",\n" ++ itemLines (next :: rest)

/-- The name of the index on a column. -/
def indexName (t : Table) (c : Column) : String :=
  "idx_" ++ slug t.name ++ "_" ++ slug c.title

/-- The columns of a table that have an index of their own. -/
def indexedColumns (t : Table) : List Column :=
  t.columns.filter fun c => c.has .index && !c.isPrimary

/-- `CREATE INDEX`. -/
def indexText (s : Settings) (t : Table) (c : Column) : String :=
  "CREATE INDEX " ++ (if s.dialect = .mysql then "" else "IF NOT EXISTS ") ++
    quote s (indexName t c) ++ " ON " ++ quote s t.name ++ " (" ++ quote s c.title ++ ");\n"

/-- **Table as text**, with its indexes. -/
def tableText (s : Settings) (g : Graph) (keys : List KeySpec) (t : Table) : String :=
  let inside := if inlinesKeys s then keys.filter (·.sourceTable == t.name) else []
  "CREATE TABLE IF NOT EXISTS " ++ quote s t.name ++ " (\n" ++
    itemLines ((items s g t inside).map (Item.text s (nameWidth s t))) ++ ");\n" ++
    Text.join "" ((indexedColumns t).map (indexText s t)) ++ "\n"

/-! ## Primary keys -/

theorem items_primaryKey {s : Settings} {g : Graph} {t : Table} {keys : List KeySpec}
    {titles : List String} (h : .primaryKey titles ∈ items s g t keys) :
    titles = (primaryColumns t).map (·.title) := by
  unfold items at h
  simp only [List.mem_append, List.mem_map] at h
  rcases h with (⟨c, -, hc⟩ | h) | h
  · simp at hc
  · split at h
    · simpa using h
    · simp at h
  · split at h
    · simp at h
    · simp at h

end DdlGraph.Ddl
