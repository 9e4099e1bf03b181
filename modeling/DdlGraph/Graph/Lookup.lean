import DdlGraph.Graph.Basic

/-!
# Looking things up in a graph

By id, where the first of several counts, or by name, where the case of `A` to `Z` is left aside.
-/

namespace DdlGraph

/-- The first table with that id. -/
def tableById? (tables : List Table) (id : String) : Option Table :=
  tables.find? (·.id == id)

/-- The first enumeration of that name, case left aside. -/
def enumByName? (enums : List Enumeration) (name : String) : Option Enumeration :=
  enums.find? fun e => Text.sameAscii e.name name

namespace Graph

/-- Neither tables nor enumerations. -/
def isEmpty (g : Graph) : Bool :=
  g.tables.isEmpty && g.enums.isEmpty

def table? (g : Graph) (id : String) : Option Table :=
  tableById? g.tables id

def tableByName? (g : Graph) (name : String) : Option Table :=
  g.tables.find? fun t => Text.sameAscii t.name name

def enum? (g : Graph) (id : String) : Option Enumeration :=
  g.enums.find? (·.id == id)

def enumByName? (g : Graph) (name : String) : Option Enumeration :=
  DdlGraph.enumByName? g.enums name

/-- The edges that are foreign keys. -/
def foreignKeys (g : Graph) : List Edge :=
  g.edges.filter fun e => !e.enumLink

end Graph

end DdlGraph
