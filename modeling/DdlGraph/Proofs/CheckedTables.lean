import DdlGraph.Proofs.ForwardReading
import DdlGraph.Proofs.ReadStatements
import DdlGraph.Recovery.Outcome

/-!
# Tables without a missing column

A column that refers to another one waits for the first of the columns that its reference names.
A draft takes a fallback where a reference names none. Here the first column is looked up instead,
and the draft fails if it is missing (`pendingOf?`). On the statements of a script no look-up fails,
because the references that are read have columns, and the draft is the same.

* `ofStatements?_of_hasColumns`: the statements that have columns;
* `reading_forward`: reading a text and making its draft.
-/

namespace DdlGraph.Recovery

open DdlGraph.Sql

namespace Draft

/-! ## Drafts that look their columns up -/

/-- What the column `title` waits for. It is none if its reference has no first column. -/
def pendingOf? (tableId title : String) (c : ColumnDef) : Option (List PendingKey) :=
  match c.reference with
  | some ref => ref.columns[0]?.map fun target => [⟨tableId, title, ref, target⟩]
  | none => some []

/-- Appends a column to `table`, like `addColumn`. -/
def addColumn? (prior : Prior) (r : Table × Draft) (c : ColumnDef) : Option (Table × Draft) := do
  let (table, d) := r
  let (type, d) := d.chooseType prior table.name c
  let column := columnOf type c
  let title := table.freeTitle column.title
  let uses := match column.enumName?.bind (enumByName? d.enums) with
    | some e => [⟨e.id, e.name, table.id, title⟩]
    | none => []
  let pending ← pendingOf? table.id title c
  return (table.addColumn column,
    { d with enumUses := d.enumUses ++ uses, pending := d.pending ++ pending })

/-- Table of a definition, like `addTable`. -/
def addTable? (prior : Prior) (d : Draft) (definition : TableDef) : Option Draft :=
  match d.tableId? definition.name with
  | some _ => some (d.warn (.duplicateTable definition.name definition.line))
  | none => do
    let (place, pool) := placeTable prior d.pool definition.name d.tables.length
    let empty : Table :=
      { id := place.id, name := definition.name, position := place.position, color := place.color }
    let (table, d) ← definition.columns.foldlM (addColumn? prior) (empty, { d with pool })
    let d := { d with
      tableIds := d.tableIds ++ [(Text.lower definition.name, place.id)]
      tables := d.tables ++ [applyConstraints definition table] }
    return definition.foreignKeys.foldl (queueKey place.id definition.name) d

/-- A statement in the phase of tables. -/
def tablePhase? (prior : Prior) (d : Draft) : Statement → Option Draft
  | .createTable definition => addTable? prior d definition
  | _ => some d

/-- **All statements**, phase by phase, like `ofStatements`. -/
def ofStatements? (previous : Option Graph) (statements : List Statement) : Option Draft := do
  let prior := Prior.ofGraph? previous
  let d := statements.foldl (enumPhase prior) { pool := IdPool.ofGraph? previous }
  let d ← statements.foldlM (tablePhase? prior) d
  let d := statements.foldl indexPhase d
  return statements.foldl keyPhase d

/-- A fold none of whose steps fails. -/
theorem foldlM_eq_some {α σ : Type} {f : σ → α → σ} {f? : σ → α → Option σ} {l : List α}
    (h : ∀ a ∈ l, ∀ s, f? s a = some (f s a)) (s : σ) : l.foldlM f? s = some (l.foldl f s) := by
  induction l generalizing s with
  | nil => rfl
  | cons a l ih =>
    obtain ⟨ha, hl⟩ := List.forall_mem_cons.1 h
    rw [List.foldlM_cons, ha, Option.bind_eq_bind, Option.bind_some, ih hl, List.foldl_cons]

section
variable (prior : Prior)

theorem addColumn?_of_refersToColumns {c : ColumnDef} (h : c.RefersToColumns) (r : Table × Draft) :
    addColumn? prior r c = some (addColumn prior r c) := by
  unfold addColumn? addColumn pendingOf?
  cases hreference : c.reference with
  | none => rfl
  | some ref =>
    have hne := h ref hreference
    obtain ⟨table, columns, onDelete, onUpdate⟩ := ref
    cases columns with
    | nil => exact absurd rfl hne
    | cons => rfl

theorem addTable?_of_hasColumns {definition : TableDef} (h : definition.HasColumns) (d : Draft) :
    addTable? prior d definition = some (addTable prior d definition) := by
  unfold addTable? addTable
  cases d.tableId? definition.name with
  | some id => rfl
  | none =>
    have hcolumns := foldlM_eq_some fun c hc =>
      addColumn?_of_refersToColumns prior (h.references c hc)
    simp only [hcolumns]
    rfl

/-- **Statements that have columns** make a draft without a missing one. -/
theorem ofStatements?_of_hasColumns {statements : List Statement}
    (h : ∀ s ∈ statements, s.HasColumns) (previous : Option Graph) :
    ofStatements? previous statements = some (ofStatements previous statements) := by
  have htables (prior : Prior) (s : Statement) (hs : s ∈ statements) (d : Draft) :
      tablePhase? prior d s = some (tablePhase prior d s) := by
    have hcolumns := h s hs
    cases s with
    | createTable definition => exact addTable?_of_hasColumns prior hcolumns d
    | _ => rfl
  unfold ofStatements?
  simp only [foldlM_eq_some (htables (Prior.ofGraph? previous))]
  rfl

end

/-- **Reading a text goes forward and gives what a draft needs**: productions and loops come to
later places in its tokens, whatever is read of columns has one, and so no column of a table lacks
the one that it refers to. -/
theorem reading_forward (text : String) (previous : Option Graph) :
    ReadsForward (tokens (Dialect.detect text).escapesBackslash text) ∧
      (∀ s ∈ (Script.ofText text).statements, s.HasColumns) ∧
      ofStatements? previous (Script.ofText text).statements =
        some (ofStatements previous (Script.ofText text).statements) := by
  have hcolumns : ∀ s ∈ (Script.ofText text).statements, s.HasColumns := Script.hasColumns _
  exact ⟨readsForward _, hcolumns, ofStatements?_of_hasColumns hcolumns previous⟩

/-- A reference that names no column would be noticed. -/
example :
    let c : ColumnDef := { name := "b", reference := some ⟨"c", [], none, none⟩ }
    ofStatements? none [.createTable { name := "a", line := 1, columns := [c] }] = none := by
  decide +kernel

end Draft

end DdlGraph.Recovery
