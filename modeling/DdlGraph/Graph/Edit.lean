import DdlGraph.Graph.Lookup

/-!
# Edits of a graph

What can be done to a graph on a canvas. An edit that names something which is not there does
nothing, and says so.

* `apply_absent`: then the graph stays as it was.
-/

namespace DdlGraph

inductive Edit where
  | addTable (id name : String)
  | addEnum (id name : String)
  | addEdge (edge : Edge)
  | addColumn (table : String) (column : Column)
  | addConstraint (table column : String) (constraint : Constraint)
  | setDefault (table column : String) (value : Option String)
  | pushValue (enum value : String)
  | move (table : String) (position : Position)
  | renameTable (table name : String)
  | removeTable (table : String)
  | replace (graph : Graph)

/-- What an edit did. -/
inductive EditResult where
  | done
  /-- What it names is not there. -/
  | absent
  /-- The title that a column was stored under. -/
  | title (text : String)
  | constraints (list : List Constraint)
  /-- A value was new. -/
  | added (new : Bool)
  /-- How many tables were removed. -/
  | removed (count : Nat)
deriving DecidableEq

namespace Graph

/-- Replaces the first table with that id. -/
def updateTable (g : Graph) (id : String) (f : Table → Table) : Graph :=
  { g with tables := updateFirst (·.id == id) f g.tables }

/-- Replaces the first enumeration with that id. -/
def updateEnum (g : Graph) (id : String) (f : Enumeration → Enumeration) : Graph :=
  { g with enums := updateFirst (·.id == id) f g.enums }

/-- Replaces a column of the first table with that id. -/
def updateColumn (g : Graph) (table column : String) (f : Column → Column) : Graph :=
  g.updateTable table (·.updateColumn column f)

/-- The column of exactly that title in the table with that id. -/
def column? (g : Graph) (table column : String) : Option Column :=
  (g.table? table).bind (·.column? column)

end Graph

/-- An edit of something that may not be there. -/
def ifPresent {α : Type} (found : Option α) (g : Graph) (f : α → Graph × EditResult) :
    Graph × EditResult :=
  match found with
  | some a => f a
  | none => (g, .absent)

/-- **Effect of an edit.** -/
def Edit.apply (g : Graph) : Edit → Graph × EditResult
  | .addTable id name => ({ g with tables := g.tables ++ [{ id, name }] }, .done)
  | .addEnum id name => ({ g with enums := g.enums ++ [{ id, name }] }, .done)
  | .addEdge edge => ({ g with edges := g.edges ++ [edge] }, .done)
  | .addColumn table column => ifPresent (g.table? table) g fun t =>
    (g.updateTable table (·.addColumn column), .title (t.freeTitle column.title))
  | .addConstraint table column constraint => ifPresent (g.column? table column) g fun c =>
    (g.updateColumn table column (·.addConstraint constraint),
      .constraints (c.addConstraint constraint).constraints)
  | .setDefault table column value => ifPresent (g.column? table column) g fun _ =>
    (g.updateColumn table column fun c => { c with defaultValue := value }, .done)
  | .pushValue enum value => ifPresent (g.enum? enum) g fun e =>
    (g.updateEnum enum (·.pushValue value), .added (!e.values.contains value))
  | .move table position => ifPresent (g.table? table) g fun _ =>
    (g.updateTable table fun t => { t with position }, .done)
  | .renameTable table name => ifPresent (g.table? table) g fun _ =>
    (g.updateTable table fun t => { t with name }, .done)
  | .removeTable table =>
    let kept := g.tables.filter (·.id != table)
    ({ g with tables := kept }, .removed (g.tables.length - kept.length))
  | .replace graph => (graph, .done)

/-- Edits one after another. -/
def Edit.applyAll (g : Graph) : List Edit → Graph × List EditResult
  | [] => (g, [])
  | e :: rest =>
    let r := e.apply g
    let s := Edit.applyAll r.1 rest
    (s.1, r.2 :: s.2)

theorem ifPresent_absent {α : Type} {found : Option α} {g : Graph} {f : α → Graph × EditResult}
    (hf : ∀ a, (f a).2 ≠ .absent) (h : (ifPresent found g f).2 = .absent) :
    (ifPresent found g f).1 = g := by
  cases found with
  | some a => exact absurd h (hf a)
  | none => rfl

theorem apply_absent {g : Graph} {e : Edit} (h : (e.apply g).2 = .absent) : (e.apply g).1 = g := by
  cases e <;> simp only [Edit.apply] at h ⊢ <;>
    first
    | exact ifPresent_absent (by simp) h
    | simp at h

end DdlGraph
