import DdlGraph.Graph.EdgeKey
import DdlGraph.Graph.Identity
import DdlGraph.Graph.Lookup

/-!
# Foreign keys of a graph

The foreign keys that a text has to state: those of the edges, and the references of columns whose
target is not in the graph. Keys between the same columns, case left aside, are one key.

* `keysOf_nodup`: no key is stated twice.
-/

namespace DdlGraph.Ddl

/-- A foreign key as a text states it. -/
structure KeySpec where
  sourceTable : String
  sourceColumn : String
  targetTable : String
  targetColumn : String
  onDelete : Option String
  onUpdate : Option String
deriving DecidableEq

/-- What makes two keys the same. -/
def KeySpec.canonical (k : KeySpec) : String :=
  Text.lower (edgeKey k.sourceTable k.sourceColumn k.targetTable k.targetColumn)

/-- The key of an edge between two tables. The actions are those of the source column, if it refers
to the table. -/
def KeySpec.ofEdge? (g : Graph) (e : Edge) : Option KeySpec := do
  let source ← g.table? e.source
  let target ← g.table? e.target
  let actions := ((source.column? e.sourceColumn).bind (·.foreignKey)).filter fun k =>
    Text.sameAscii k.table target.name
  return {
    sourceTable := source.name
    sourceColumn := e.sourceColumn
    targetTable := target.name
    targetColumn := e.targetColumn
    onDelete := actions.bind (·.onDelete)
    onUpdate := actions.bind (·.onUpdate) }

/-- The key of a column whose target is not in the graph. -/
def KeySpec.ofColumn? (t : Table) (c : Column) : Option KeySpec :=
  (c.foreignKey.filter fun k => !k.resolved).map fun k =>
    { sourceTable := t.name
      sourceColumn := c.title
      targetTable := k.table
      targetColumn := k.column
      onDelete := k.onDelete
      onUpdate := k.onUpdate }

/-- All keys in order, those of the edges first. -/
def allKeys (g : Graph) : List KeySpec :=
  g.foreignKeys.filterMap (KeySpec.ofEdge? g) ++
    g.tables.flatMap fun t => t.columns.filterMap (KeySpec.ofColumn? t)

/-- **Keys of a graph**, the first of those that are the same. -/
def keysOf (g : Graph) : List KeySpec :=
  (firstOfEach [] ((allKeys g).map fun k => (k.canonical, k))).map (·.2)

/-- Names for keys, each different from those in `used`. -/
def constraintNames (used : List String) : List KeySpec → List (String × KeySpec)
  | [] => []
  | k :: rest =>
    let base := "fk_" ++ slug k.sourceTable ++ "_" ++ slug k.sourceColumn
    let name := freeName used.contains used.length base "_"
    (name, k) :: constraintNames (name :: used) rest

/-! ## No key twice -/

theorem firstOfEach_nodup {α : Type} (seen : List String) (xs : List (String × α)) :
    ((firstOfEach seen xs).map (·.1)).Nodup ∧
      ∀ k ∈ (firstOfEach seen xs).map (·.1), k ∉ seen := by
  induction xs generalizing seen with
  | nil => simp [firstOfEach]
  | cons x rest ih =>
    obtain ⟨key, a⟩ := x
    unfold firstOfEach
    split
    · exact ih seen
    · rename_i hs
      obtain ⟨nodup, fresh⟩ := ih (key :: seen)
      refine ⟨List.nodup_cons.2 ⟨fun h => fresh key h (by simp), nodup⟩, ?_⟩
      intro k hk
      rcases List.mem_cons.1 hk with rfl | hk
      · simpa using hs
      · exact fun h => fresh k hk (List.mem_cons_of_mem _ h)

theorem mem_of_mem_firstOfEach {α : Type} {seen : List String} {xs : List (String × α)}
    {x : String × α} (h : x ∈ firstOfEach seen xs) : x ∈ xs := by
  induction xs generalizing seen with
  | nil => simp [firstOfEach] at h
  | cons y rest ih =>
    unfold firstOfEach at h
    split at h
    · exact List.mem_cons_of_mem _ (ih h)
    · rcases List.mem_cons.1 h with rfl | h
      · exact List.mem_cons_self
      · exact List.mem_cons_of_mem _ (ih h)

theorem keysOf_nodup (g : Graph) : ((keysOf g).map KeySpec.canonical).Nodup := by
  have h := (firstOfEach_nodup [] ((allKeys g).map fun k => (k.canonical, k))).1
  have : (keysOf g).map KeySpec.canonical =
      (firstOfEach [] ((allKeys g).map fun k => (k.canonical, k))).map (·.1) := by
    unfold keysOf
    rw [List.map_map]
    refine List.map_congr_left fun x hx => ?_
    obtain ⟨k, -, rfl⟩ := List.mem_map.1 (mem_of_mem_firstOfEach hx)
    rfl
  rw [this]
  exact h

end DdlGraph.Ddl
