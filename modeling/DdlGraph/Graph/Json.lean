import DdlGraph.Graph.Basic
import DdlGraph.Json.Decode
import DdlGraph.Number.Shortest

/-!
# Graphs as JSON

The form in which graphs are kept. Fields stand in the order of the types; of the optional ones
those without a value are left out.
-/

namespace DdlGraph

open Json (record text required withDefault optional string? bool? double? list? word?)

/-- A member that is left out without a value. -/
def presentMember (key : String) : Option Json → List (String × Json)
  | some j => [(key, j)]
  | none => []

/-! ## Encoding -/

def Binary64.toJson (x : Binary64) : Json :=
  .number x.render

def Position.toJson (p : Position) : Json :=
  record [("x", p.x.toJson), ("y", p.y.toJson)]

def TableColor.toJson (c : TableColor) : Json :=
  record [("light", text c.light), ("dark", text c.dark), ("border", text c.border)]

def Constraint.words : List (String × Constraint) :=
  [("primary", .primary), ("unique", .unique), ("notnull", .notNull), ("index", .index)]

def Constraint.word : Constraint → String
  | .primary => "primary"
  | .unique => "unique"
  | .notNull => "notnull"
  | .index => "index"

def ForeignKey.toJson (k : ForeignKey) : Json :=
  record <| [("table", text k.table), ("column", text k.column)] ++
    presentMember "onDelete" (k.onDelete.map text) ++
    presentMember "onUpdate" (k.onUpdate.map text) ++
    [("resolved", .bool k.resolved)]

def Column.toJson (c : Column) : Json :=
  record <| [("title", text c.title), ("dataType", text c.dataType)] ++
    presentMember "params" (if c.params.isEmpty then none else some (.ofList text c.params)) ++
    [("constraints", .ofList (fun k => text k.word) c.constraints)] ++
    presentMember "default" (c.defaultValue.map text) ++
    presentMember "foreignKey" (c.foreignKey.map ForeignKey.toJson) ++
    [("autoIncrement", .bool c.autoIncrement)]

def Table.toJson (t : Table) : Json :=
  record <| [("id", text t.id), ("name", text t.name),
      ("columns", .ofList Column.toJson t.columns), ("position", t.position.toJson)] ++
    presentMember "color" (t.color.map TableColor.toJson)

def Enumeration.toJson (e : Enumeration) : Json :=
  record [("id", text e.id), ("name", text e.name), ("values", .ofList text e.values),
    ("position", e.position.toJson)]

def Cardinality.words : List (String × Cardinality) :=
  [("oneToOne", .oneToOne), ("oneToMany", .oneToMany), ("manyToOne", .manyToOne),
    ("manyToMany", .manyToMany)]

def Cardinality.word : Cardinality → String
  | .oneToOne => "oneToOne"
  | .oneToMany => "oneToMany"
  | .manyToOne => "manyToOne"
  | .manyToMany => "manyToMany"

def Stroke.words : List (String × Stroke) :=
  [("solid", .solid), ("dashed", .dashed), ("dotted", .dotted)]

def Stroke.word : Stroke → String
  | .solid => "solid"
  | .dashed => "dashed"
  | .dotted => "dotted"

def EdgeStyle.toJson (s : EdgeStyle) : Json :=
  record <| presentMember "label" (s.label.map text) ++
    [("stroke", text s.stroke.word), ("animated", .bool s.animated)]

def Edge.toJson (e : Edge) : Json :=
  record [("id", text e.id), ("source", text e.source), ("sourceHandle", text e.sourceHandle),
    ("target", text e.target), ("targetHandle", text e.targetHandle),
    ("cardinality", text e.cardinality.word), ("enumLink", .bool e.enumLink),
    ("style", e.style.toJson)]

def Graph.toJson (g : Graph) : Json :=
  record [("tables", .ofList Table.toJson g.tables), ("enums", .ofList Enumeration.toJson g.enums),
    ("relationships", .ofList Edge.toJson g.edges)]

/-! ## Decoding -/

def Position.ofJson? (j : Json) : Option Position := do
  let [x, y] ← j.members? ["x", "y"] | none
  return ⟨← required double? x, ← required double? y⟩

def TableColor.ofJson? (j : Json) : Option TableColor := do
  let [light, dark, border] ← j.members? ["light", "dark", "border"] | none
  return ⟨← required string? light, ← required string? dark, ← required string? border⟩

def Constraint.ofJson? (j : Json) : Option Constraint :=
  word? Constraint.words j

def ForeignKey.ofJson? (j : Json) : Option ForeignKey := do
  let [table, column, onDelete, onUpdate, resolved] ←
    j.members? ["table", "column", "onDelete", "onUpdate", "resolved"] | none
  return ⟨← required string? table, ← required string? column, ← optional string? onDelete,
    ← optional string? onUpdate, ← withDefault true bool? resolved⟩

def Column.ofJson? (j : Json) : Option Column := do
  let [title, dataType, params, constraints, defaultValue, foreignKey, autoIncrement] ←
    j.members? ["title", "dataType", "params", "constraints", "default", "foreignKey",
      "autoIncrement"] | none
  return ⟨← required string? title, ← required string? dataType,
    ← withDefault [] (list? string?) params,
    ← withDefault [] (list? Constraint.ofJson?) constraints,
    ← optional string? defaultValue, ← optional ForeignKey.ofJson? foreignKey,
    ← withDefault false bool? autoIncrement⟩

def Table.ofJson? (j : Json) : Option Table := do
  let [id, name, columns, position, color] ←
    j.members? ["id", "name", "columns", "position", "color"] | none
  return ⟨← required string? id, ← required string? name, ← required (list? Column.ofJson?) columns,
    ← withDefault .origin Position.ofJson? position, ← optional TableColor.ofJson? color⟩

def Enumeration.ofJson? (j : Json) : Option Enumeration := do
  let [id, name, values, position] ← j.members? ["id", "name", "values", "position"] | none
  return ⟨← required string? id, ← required string? name, ← required (list? string?) values,
    ← withDefault .origin Position.ofJson? position⟩

def Cardinality.ofJson? (j : Json) : Option Cardinality :=
  word? Cardinality.words j

def EdgeStyle.ofJson? (j : Json) : Option EdgeStyle := do
  let [label, stroke, animated] ← j.members? ["label", "stroke", "animated"] | none
  return ⟨← optional string? label, ← withDefault .solid (word? Stroke.words) stroke,
    ← withDefault false bool? animated⟩

def Edge.ofJson? (j : Json) : Option Edge := do
  let [id, source, sourceHandle, target, targetHandle, cardinality, enumLink, style] ←
    j.members? ["id", "source", "sourceHandle", "target", "targetHandle", "cardinality",
      "enumLink", "style"] | none
  return ⟨← required string? id, ← required string? source, ← required string? sourceHandle,
    ← required string? target, ← required string? targetHandle,
    ← required Cardinality.ofJson? cardinality, ← withDefault false bool? enumLink,
    ← withDefault {} EdgeStyle.ofJson? style⟩

/-- **Graph** that a value describes. -/
def Graph.ofJson? (j : Json) : Option Graph := do
  let [tables, enums, edges] ← j.members? ["tables", "enums", "relationships"] | none
  return ⟨← required (list? Table.ofJson?) tables,
    ← withDefault [] (list? Enumeration.ofJson?) enums,
    ← withDefault [] (list? Edge.ofJson?) edges⟩

end DdlGraph
