import DdlGraph.Number.Binary64
import DdlGraph.Text.Case

/-!
# Schema graphs

Tables, enumerations and the edges between them, as they stand on a canvas: a table has columns, a
place and perhaps a colour; an edge joins two columns by their handles, or an enumeration to a
column that is typed by it.

* `Column.nodup_addConstraint`: a constraint is held once;
* `freeName_free`: a name with a number is not taken, if one of the first numbers is free;
* `handleColumn_sourceHandleFor`, `handleColumn_targetHandleFor`: a handle gives back its column.
-/

namespace DdlGraph

/-- A place on the canvas. -/
structure Position where
  x : Binary64
  y : Binary64
deriving DecidableEq

/-- The top left corner, where an entity without a place is. -/
def Position.origin : Position :=
  ⟨.zero, .zero⟩

structure TableColor where
  light : String
  dark : String
  border : String
deriving DecidableEq

inductive Constraint where
  | primary
  | unique
  | notNull
  | index
deriving DecidableEq

/-- What a column refers to. A reference whose table or column is not in the graph is kept, with
`resolved` off. -/
structure ForeignKey where
  table : String
  column : String
  onDelete : Option String
  onUpdate : Option String
  resolved : Bool
deriving DecidableEq

structure Column where
  title : String
  dataType : String
  /-- Length, or precision and scale. -/
  params : List String := []
  constraints : List Constraint := []
  defaultValue : Option String := none
  foreignKey : Option ForeignKey := none
  autoIncrement : Bool := false
deriving DecidableEq

structure Table where
  id : String
  name : String
  columns : List Column := []
  position : Position := .origin
  color : Option TableColor := none
deriving DecidableEq

/-- A named list of values. -/
structure Enumeration where
  id : String
  name : String
  values : List String := []
  position : Position := .origin
deriving DecidableEq

inductive Cardinality where
  | oneToOne
  | oneToMany
  | manyToOne
  | manyToMany
deriving DecidableEq

inductive Stroke where
  | solid
  | dashed
  | dotted
deriving DecidableEq

structure EdgeStyle where
  label : Option String := none
  stroke : Stroke := .solid
  animated : Bool := false
deriving DecidableEq

structure Edge where
  id : String
  source : String
  sourceHandle : String
  target : String
  targetHandle : String
  cardinality : Cardinality
  /-- Joins an enumeration to a column typed by it; never a foreign key. -/
  enumLink : Bool := false
  style : EdgeStyle := {}
deriving DecidableEq

structure Graph where
  tables : List Table := []
  enums : List Enumeration := []
  edges : List Edge := []
deriving DecidableEq

/-! ## Columns -/

/-- Begins the type of a column that is typed by an enumeration. -/
def enumTypeMark : String := "enum_"

namespace Column

/-- Adds a constraint unless it is there. -/
def addConstraint (c : Column) (k : Constraint) : Column :=
  if k ∈ c.constraints then c else { c with constraints := c.constraints ++ [k] }

def has (c : Column) (k : Constraint) : Bool :=
  c.constraints.contains k

def isPrimary (c : Column) : Bool :=
  c.has .primary

/-- Primary keys are unique too. -/
def isUnique (c : Column) : Bool :=
  c.isPrimary || c.has .unique

/-- Name of the enumeration that types the column. -/
def enumName? (c : Column) : Option String :=
  match c.dataType.toList with
  | 'e' :: 'n' :: 'u' :: 'm' :: '_' :: name => if name.isEmpty then none else some (.ofList name)
  | _ => none

theorem nodup_addConstraint {c : Column} (k : Constraint) (h : c.constraints.Nodup) :
    (c.addConstraint k).constraints.Nodup := by
  unfold addConstraint
  split
  · exact h
  · rename_i hk
    refine List.nodup_append.2 ⟨h, by simp, ?_⟩
    rintro a ha b hb rfl
    simp at hb
    exact hk (hb ▸ ha)

theorem mem_addConstraint {c : Column} {k l : Constraint} :
    l ∈ (c.addConstraint k).constraints ↔ l = k ∨ l ∈ c.constraints := by
  unfold addConstraint
  split
  · rename_i hk
    constructor
    · exact .inr
    · rintro (rfl | h)
      · exact hk
      · exact h
  · simp [or_comm]

end Column

/-! ## Fresh names -/

/-- The least `n ≥ 2` that is free. Of `count + 1` numbers one is, if `count` names are taken and
different numbers make different names. -/
def leastFree (count : Nat) (free : Nat → Bool) : Nat :=
  ((List.range' 2 (count + 1)).find? free).getD 2

/-- **Free name**: `base`, or else `base` with the first free number, of which `count` are taken at
most. -/
def freeName (taken : String → Bool) (count : Nat) (base separator : String) : String :=
  if taken base then
    base ++ separator ++ toString (leastFree count fun n =>
      !taken (base ++ separator ++ toString n))
  else base

theorem leastFree_free {count : Nat} {free : Nat → Bool}
    (h : ∃ n ∈ List.range' 2 (count + 1), free n = true) : free (leastFree count free) = true := by
  obtain ⟨n, hn, hfree⟩ := h
  unfold leastFree
  cases hf : (List.range' 2 (count + 1)).find? free with
  | none => exact absurd hfree (List.find?_eq_none.1 hf n hn)
  | some m => exact List.find?_some hf

theorem freeName_free {taken : String → Bool} {count : Nat} {base separator : String}
    (h : ∃ n ∈ List.range' 2 (count + 1), taken (base ++ separator ++ toString n) = false) :
    taken (freeName taken count base separator) = false := by
  unfold freeName
  split
  · simpa using @leastFree_free count (fun n => !taken (base ++ separator ++ toString n))
      (by simpa using h)
  · rename_i hb
    simpa using hb

namespace Table

/-- The titles of the columns, case left aside. -/
def foldedTitles (t : Table) : List String :=
  t.columns.map fun c => Text.foldAscii c.title

/-- A column of that title is in the table, case left aside. -/
def takes (t : Table) (title : String) : Bool :=
  t.foldedTitles.contains (Text.foldAscii title)

/-- The title that a new column gets: the one it asks for, or else that title with the first free
number. -/
def freeTitle (t : Table) (title : String) : String :=
  let titles := t.foldedTitles
  freeName (fun s => titles.contains (Text.foldAscii s)) t.columns.length title "_"

theorem freeTitle_eq (t : Table) (title : String) :
    t.freeTitle title = freeName t.takes t.columns.length title "_" :=
  rfl

/-- Appends a column under a free title. -/
def addColumn (t : Table) (c : Column) : Table :=
  { t with columns := t.columns ++ [{ c with title := t.freeTitle c.title }] }

/-- The column of exactly that title. -/
def column? (t : Table) (title : String) : Option Column :=
  t.columns.find? (·.title == title)

/-- The column of that title, if need be in another case. -/
def findColumn? (t : Table) (title : String) : Option Column :=
  (t.column? title).or (t.columns.find? fun c => Text.sameAscii c.title title)

end Table

/-- The first element that satisfies `p`, replaced. -/
def updateFirst {α : Type} (p : α → Bool) (f : α → α) : List α → List α
  | [] => []
  | a :: as => if p a then f a :: as else a :: updateFirst p f as

/-- Replaces the first column of exactly that title. -/
def Table.updateColumn (t : Table) (title : String) (f : Column → Column) : Table :=
  { t with columns := updateFirst (·.title == title) f t.columns }

namespace Enumeration

/-- Appends a value unless it is there. -/
def pushValue (e : Enumeration) (value : String) : Enumeration :=
  if value ∈ e.values then e else { e with values := e.values ++ [value] }

/-- The type of a column of this enumeration. -/
def columnType (e : Enumeration) : String :=
  enumTypeMark ++ e.name

end Enumeration

/-! ## Edges -/

/-- Cardinality by whether each end is unique. -/
def Cardinality.ofUniqueness : (source target : Bool) → Cardinality
  | true, true => .oneToOne
  | true, false => .oneToMany
  | false, true => .manyToOne
  | false, false => .manyToMany

/-- An edge between an enumeration and its column is dashed. -/
def EdgeStyle.enumLink : EdgeStyle :=
  { stroke := .dashed }

def sourceHandleFor (column : String) : String :=
  "source-" ++ column

def targetHandleFor (column : String) : String :=
  "target-" ++ column

/-- The text after `mark`, if it begins with it. -/
def afterMark? (mark text : List Char) : Option (List Char) :=
  if mark.isPrefixOf text then some (text.drop mark.length) else none

/-- **Column of a handle**; a handle of another form names the column itself. -/
def handleColumn (handle : String) : String :=
  match afterMark? "source-".toList handle.toList with
  | some column => .ofList column
  | none => match afterMark? "target-".toList handle.toList with
    | some column => .ofList column
    | none => handle

namespace Edge

def sourceColumn (e : Edge) : String :=
  handleColumn e.sourceHandle

def targetColumn (e : Edge) : String :=
  handleColumn e.targetHandle

end Edge

theorem afterMark_append (mark text : List Char) : afterMark? mark (mark ++ text) = some text := by
  simp [afterMark?]

theorem handleColumn_sourceHandleFor (column : String) :
    handleColumn (sourceHandleFor column) = column := by
  simp only [handleColumn, sourceHandleFor, String.toList_append, afterMark_append]
  simp

theorem handleColumn_targetHandleFor (column : String) :
    handleColumn (targetHandleFor column) = column := by
  have h : afterMark? "source-".toList ("target-".toList ++ column.toList) = none := by
    simp [afterMark?]
  simp only [handleColumn, targetHandleFor, String.toList_append, h, afterMark_append]
  simp

end DdlGraph
