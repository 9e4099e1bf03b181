import DdlGraph.Graph.EdgeKey
import DdlGraph.Recovery.Draft
import DdlGraph.Sql.Statement.Reader
import DdlGraph.Text.Pattern

/-!
# Recovering a graph from a text

The last phases: foreign keys that `ALTER TABLE` adds, the targets of all foreign keys, and the
edges with the looks of the graph before. A text without a table is refused, with the reason.

* `recover_tables_ne_nil`: a recovered graph has a table.
-/

namespace DdlGraph.Recovery

open DdlGraph.Sql

namespace Draft

/-! ## Phases -/

/-- A statement in the phase of enumerations. -/
def enumPhase (prior : Prior) (d : Draft) : Statement → Draft
  | .createType name values => declareEnum prior d name values
  | _ => d

/-- A statement in the phase of tables. -/
def tablePhase (prior : Prior) (d : Draft) : Statement → Draft
  | .createTable definition => addTable prior d definition
  | _ => d

/-- A statement in the phase of indexes. -/
def indexPhase (d : Draft) : Statement → Draft
  | .createIndex table columns unique => d.addIndex table columns unique
  | _ => d

/-- A statement in the phase of foreign keys that are added to tables. -/
def keyPhase (d : Draft) : Statement → Draft
  | .alterForeignKey table key => match d.tableId? table with
    | some id => queueKey id table d key
    | none => d.warn (.unknownAlteredTable table)
  | _ => d

/-- **All statements**, phase by phase. -/
def ofStatements (previous : Option Graph) (statements : List Statement) : Draft :=
  let prior := Prior.ofGraph? previous
  let d := statements.foldl (enumPhase prior) { pool := IdPool.ofGraph? previous }
  let d := statements.foldl (tablePhase prior) d
  let d := statements.foldl indexPhase d
  statements.foldl keyPhase d

/-! ## Targets -/

/-- The name of a table, or its id without one. -/
def tableName (d : Draft) (id : String) : String :=
  match tableById? d.tables id with
  | some t => t.name
  | none => id

/-- The table and the column that a foreign key goes to. -/
def target? (d : Draft) (p : PendingKey) : Option (Table × Column) := do
  let id ← d.tableId? p.reference.table
  let t ← tableById? d.tables id
  let c ← t.findColumn? p.targetColumn
  return (t, c)

/-- The column that a foreign key comes from. -/
def source? (d : Draft) (p : PendingKey) : Option Column :=
  (tableById? d.tables p.tableId).bind (·.column? p.column)

/-- What the source column holds: its target as the graph names it, or as the text does. -/
def foreignKeyOf (p : PendingKey) (target : Option (Table × Column)) : ForeignKey where
  table := (target.map (·.1.name)).getD p.reference.table
  column := (target.map (·.2.title)).getD p.targetColumn
  onDelete := p.reference.onDelete.map ReferentialAction.text
  onUpdate := p.reference.onUpdate.map ReferentialAction.text
  resolved := target.isSome

/-- The link of a foreign key to its target. -/
def linkOf (p : PendingKey) (source : Column) (target : Table × Column) : Link where
  source := p.tableId
  sourceColumn := p.column
  target := target.1.id
  targetColumn := target.2.title
  cardinality := .ofUniqueness source.isUnique target.2.isUnique

/-- **One foreign key** is set in its column, and gives a link if its target is there. -/
def resolveKey (r : Draft × List Link) (p : PendingKey) : Draft × List Link :=
  let (d, links) := r
  match d.source? p with
  | none => (d, links)
  | some source =>
    let target := d.target? p
    let set (t : Table) := match t.findColumn? p.column with
      | some c => t.updateColumn c.title fun c =>
        { c with foreignKey := some (foreignKeyOf p target) }
      | none => t
    let d' := d.updateTable p.tableId set
    match target with
    | some t => (d', links ++ [linkOf p source t])
    | none =>
      (d'.warn (.unresolved (d.tableName p.tableId) p.column p.reference.table p.targetColumn),
        links)

/-- The link of an enumeration to a column of it. -/
def enumLinkOf (u : EnumUse) : Link where
  source := u.enumId
  sourceColumn := u.enumName
  target := u.tableId
  targetColumn := u.column
  cardinality := .oneToMany
  enumLink := true

/-- **Links** of the draft: foreign keys first, then enumerations. -/
def links (d : Draft) : Draft × List Link :=
  let r := d.pending.foldl resolveKey (d, [])
  (r.1, r.2 ++ d.enumUses.map enumLinkOf)

end Draft

/-! ## Outcome -/

/-- Why a text gives no graph. -/
inductive Failure where
  /-- A table without a column list. -/
  | malformedTable (name : Option String) (line : Nat)
  /-- A table was meant, but no statement for one could be read. -/
  | syntaxError (cause : Option SyntaxError)
  | noTables
deriving DecidableEq

def Failure.message : Failure → String
  | .malformedTable name line =>
    "SQL syntax error: CREATE TABLE " ++ name.getD "<unnamed>" ++ " at line " ++ toString line ++
      " has no column list"
  | .syntaxError cause =>
    "SQL syntax error: " ++
      (cause.map SyntaxError.message).getD "no CREATE TABLE statement could be parsed"
  | .noTables => "No valid tables found in SQL"

/-- A graph, and what of the text it does not hold. -/
structure Outcome where
  graph : Graph
  warnings : List String
deriving DecidableEq

/-- `CREATE TABLE` as words. -/
def createTableWords : List Text.Pattern :=
  [.all [.wordEdge, .word "CREATE", .gap, .word "TABLE", .wordEdge]]

/-- The name and the line of the first table without a column list. -/
def malformed? (statements : List Statement) : Option (Option String × Nat) :=
  statements.findSome? fun
    | .malformedTable name line => some (name, line)
    | _ => none

/-- The reason why the script of a text gives no table. -/
def failureOf (text : String) (script : Script) : Failure :=
  match malformed? script.statements with
  | some (name, line) => .malformedTable name line
  | none =>
    if (Text.search? createTableWords [] none 0 text.toList).isSome then
      .syntaxError script.errors.head?
    else .noTables

/-- The graph of a draft and its edges, with the looks of the graph before. -/
def Outcome.ofDraft (previous : Option Graph) (d : Draft) (links : List Link) : Outcome where
  graph :=
    { tables := d.tables
      enums := d.enums
      edges := reconcileEdges (Prior.ofGraph? previous).edges links }
  warnings := d.warnings.map Warning.message

/-- **Graph of a text.** What was in the graph before keeps its identity. -/
def recover (text : String) (previous : Option Graph) : Except Failure Outcome :=
  let script := Script.ofText text
  let r := (Draft.ofStatements previous script.statements).links
  if r.1.tables.isEmpty then .error (failureOf text script)
  else .ok (.ofDraft previous r.1 r.2)

theorem recover_tables_ne_nil {text : String} {previous : Option Graph} {o : Outcome}
    (h : recover text previous = .ok o) : o.graph.tables ≠ [] := by
  unfold recover at h
  dsimp only at h
  split at h
  · simp at h
  · rename_i hne
    cases h
    simpa [Outcome.ofDraft] using hne

end DdlGraph.Recovery
