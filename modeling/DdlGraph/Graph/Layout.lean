import DdlGraph.Graph.Basic

/-!
# Places for new entities

Tables without a place fill a grid row by row, enumerations stack in a column to the right of it.
-/

namespace DdlGraph.Layout

/-- Tables in a row of the grid. -/
def gridColumns : Nat := 3

/-- `origin + index * spacing`. -/
def along (origin spacing index : Nat) : Binary64 :=
  (Binary64.ofNat origin).add ((Binary64.ofNat index).mul (.ofNat spacing))

/-- **Place of a table** by its number. -/
def tableSlot (index : Nat) : Position :=
  ⟨along 100 350 (index % gridColumns), along 100 300 (index / gridColumns)⟩

/-- **Place of an enumeration** by its number. -/
def enumSlot (index : Nat) : Position :=
  ⟨along 100 350 gridColumns, along 100 200 index⟩

end DdlGraph.Layout
