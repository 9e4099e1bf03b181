import DdlGraph.Graph.Layout
import DdlGraph.Text.Letter

/-!
# Identity of tables and enumerations

What was in a graph keeps its id, its place and its colour when it comes back under the same name,
case left aside. What is new gets an id from its name that no other entity has.

* `IdPool.freeId_not_mem_taken`: a new id is not taken, if a number below the bound is free;
* `IdPool.mem_taken_allocate`: and it is taken afterwards.
-/

namespace DdlGraph

/-! ## Slugs -/

/-- One character of a slug after `out`, which is backwards. -/
def slugStep (out : List Char) (c : Char) : List Char :=
  if Text.isAlnum c then (Text.lowerChar c).reverse ++ out
  else if out.head? = some '_' then out
  else '_' :: out

/-- **Slug** of a name: small letters and numbers, with one underscore for everything between
them. -/
def slug (name : String) : String :=
  let backwards := name.toList.foldl slugStep []
  let trimmed := ((backwards.dropWhile (· == '_')).reverse).dropWhile (· == '_')
  if trimmed.isEmpty then "unnamed" else .ofList trimmed

/-! ## New ids -/

/-- Ids that are in use. -/
structure IdPool where
  taken : List String := []

namespace IdPool

/-- The ids of a graph. -/
def ofGraph (g : Graph) : IdPool :=
  ⟨g.tables.map (·.id) ++ g.enums.map (·.id)⟩

def ofGraph? : Option Graph → IdPool
  | some g => .ofGraph g
  | none => {}

/-- The id without a number. -/
def baseId (kind name : String) : String :=
  kind ++ "-" ++ slug name

/-- **New id**: kind and slug, with the first free number if that is taken. -/
def freeId (pool : IdPool) (kind name : String) : String :=
  freeName pool.taken.contains pool.taken.length (baseId kind name) "-"

/-- The new id, and the pool in which it is taken. -/
def allocate (pool : IdPool) (kind name : String) : String × IdPool :=
  let id := pool.freeId kind name
  (id, ⟨id :: pool.taken⟩)

theorem mem_taken_allocate (pool : IdPool) (kind name : String) :
    (pool.allocate kind name).1 ∈ (pool.allocate kind name).2.taken := by
  simp [allocate]

theorem freeId_not_mem_taken (pool : IdPool) (kind name : String)
    (h : ∃ n ∈ List.range' 2 (pool.taken.length + 1),
      baseId kind name ++ "-" ++ toString n ∉ pool.taken) :
    pool.freeId kind name ∉ pool.taken := by
  have : pool.taken.contains (pool.freeId kind name) = false := freeName_free (by simpa using h)
  simpa using this

end IdPool

/-! ## The graph before -/

/-- The first element of each key. -/
def firstOfEach {α : Type} (seen : List String) : List (String × α) → List (String × α)
  | [] => []
  | (key, a) :: rest =>
    if seen.contains key then firstOfEach seen rest
    else (key, a) :: firstOfEach (key :: seen) rest

/-- A graph by the small forms of its names, where the first of several counts. -/
structure Prior where
  tables : List (String × Table) := []
  enums : List (String × Enumeration) := []
  edges : List Edge := []

namespace Prior

def ofGraph (g : Graph) : Prior where
  tables := firstOfEach [] (g.tables.map fun t => (Text.lower t.name, t))
  enums := firstOfEach [] (g.enums.map fun e => (Text.lower e.name, e))
  edges := g.edges

def ofGraph? : Option Graph → Prior
  | some g => .ofGraph g
  | none => {}

/-- The table of that name, in any case. -/
def table? (p : Prior) (name : String) : Option Table :=
  p.tables.lookup (Text.lower name)

/-- The enumeration of that name, in any case. -/
def enum? (p : Prior) (name : String) : Option Enumeration :=
  p.enums.lookup (Text.lower name)

/-- The one with the lesser name. -/
def lesserName (best : Option Enumeration) (e : Enumeration) : Option Enumeration :=
  match best with
  | some b => if e.name < b.name then some e else some b
  | none => some e

/-- **Enumeration with just these values**; of several the one with the least name. -/
def enumWithValues? (p : Prior) (values : List String) : Option Enumeration :=
  ((p.enums.map (·.2)).filter (·.values = values)).foldl lesserName none

end Prior

/-! ## Placement -/

/-- What makes an entity the same one on the canvas. -/
structure Placement where
  id : String
  position : Position
  color : Option TableColor := none
deriving DecidableEq

/-- **Table of that name**: as it was, or a new one at the place number `index`. -/
def placeTable (prior : Prior) (pool : IdPool) (name : String) (index : Nat) : Placement × IdPool :=
  match prior.table? name with
  | some t => (⟨t.id, t.position, t.color⟩, pool)
  | none =>
    let r := pool.allocate "table" name
    (⟨r.1, Layout.tableSlot index, none⟩, r.2)

/-- **Enumeration of that name**: as it was, or a new one at the place number `index`. -/
def placeEnum (prior : Prior) (pool : IdPool) (name : String) (index : Nat) : Placement × IdPool :=
  match prior.enum? name with
  | some e => (⟨e.id, e.position, none⟩, pool)
  | none =>
    let r := pool.allocate "enum" name
    (⟨r.1, Layout.enumSlot index, none⟩, r.2)

end DdlGraph
