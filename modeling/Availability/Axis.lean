/-!
# Axes of a square

* `Axis` – the direction of a line of cells: a row or a column.
-/

namespace Availability

/-- The direction of a line of cells in a square. -/
inductive Axis where
  /-- From left to right. -/
  | row
  /-- From top to bottom. -/
  | column
deriving DecidableEq

namespace Axis

/-- The word for a line of the direction. -/
def word : Axis → String
  | row => "Row"
  | column => "Column"

/-- The cell at a position of a line, as its row and its column. -/
def cell (axis : Axis) (index position : Nat) : Nat × Nat :=
  match axis with
  | row => (index, position)
  | column => (position, index)

end Axis

end Availability
