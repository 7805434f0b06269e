import Availability.Square.Header
import Availability.Nmt.Tree
import Availability.Share
import Availability.Width

/-!
# Extended data squares

The shares of a block fill a square of a power of two. The square is extended by erasure coding to
twice its width, so that the block can be restored from a part of it. The cells of the data
quadrant are shares in the order of their namespaces; all other cells count as parity.

* `ExtendedSquare` – the cells of a square, row by row;
* `ExtendedSquare.make` – a square whose data quadrant is **sorted** along both axes;
* `ExtendedSquare.tree` – the namespaced tree of a row or a column;
* `ExtendedSquare.header` – the roots of all rows and columns.
-/

namespace Availability

/-- The cells of a square that was extended to twice its width. -/
structure ExtendedSquare where
  /-- The cells, row by row. -/
  cells : Array Bytes
  /-- The name of the erasure code. -/
  codec : String
  /-- The width of the extended square. -/
  width : Nat
deriving DecidableEq

namespace ExtendedSquare

/-- The width of the data quadrant. -/
def dataWidth (square : ExtendedSquare) : Nat :=
  square.width / 2

/-- The place of a cell in the list of cells. -/
def position (square : ExtendedSquare) (row column : Nat) : Nat :=
  row * square.width + column

/-- A cell of the square. -/
def cell (square : ExtendedSquare) (row column : Nat) : Except Error Bytes :=
  if row < square.width ∧ column < square.width then
    .ok (square.cells.getD (square.position row column) [])
  else .error (.indexOutside (square.position row column) square.cells.size)

/-- Whether a cell is in the data quadrant. -/
def isData (square : ExtendedSquare) (row column : Nat) : Bool :=
  row < square.dataWidth && column < square.dataWidth

/-- A share of the data quadrant. -/
def share (square : ExtendedSquare) (row column : Nat) : Except Error Share := do
  if !square.isData row column then throw (.malformed (.outsideData row column))
  Share.ofRaw (← square.cell row column)

/-- The shares of a list of cells of the data quadrant. -/
def sharesAt (square : ExtendedSquare) (places : List (Nat × Nat)) : Except Error (List Share) :=
  places.mapM fun place => square.share place.1 place.2

/-- The shares of the data quadrant, row by row. -/
def shares (square : ExtendedSquare) : Except Error (List Share) :=
  let k := square.dataWidth
  square.sharesAt ((List.range k).flatMap fun row => (List.range k).map fun column => (row, column))

/-- The cells of a row or a column. -/
def line (square : ExtendedSquare) (axis : Axis) (index : Nat) : Except Error (List Bytes) :=
  (List.range square.width).mapM fun i =>
    let place := axis.cell index i
    square.cell place.1 place.2

/-! ### Making a square -/

/-- Checks that the namespaces of the shares at the given positions of a line do not decrease. -/
def checkSorted (square : ExtendedSquare) (axis : Axis) (index : Nat) :
    (previous : Option Namespace) → (positions : List Nat) → Except Error Unit
  | _, [] => .ok ()
  | previous, i :: rest => do
    let share ← square.share (axis.cell index i).1 (axis.cell index i).2
    if previous.any (share.ns < ·) then throw (.malformed (.unsorted axis index))
    checkSorted square axis index (some share.ns) rest

/-- Checks the order of the namespaces in all lines of the data quadrant. -/
def checkData (square : ExtendedSquare) : Except Error Unit :=
  let k := square.dataWidth
  [Axis.row, Axis.column].forM fun axis =>
    (List.range k).forM fun index => square.checkSorted axis index none (List.range k)

/-- Makes a square of its cells, row by row. -/
def make (cells : Array Bytes) (codec : String) (app : AppVersion) :
    Except Error ExtendedSquare := do
  let least := minExtendedWidth * minExtendedWidth
  let most := app.extendedBound * app.extendedBound
  if cells.size < least then throw (.malformed (.fewCells cells.size least))
  if most < cells.size then throw (.malformed (.manyCells cells.size most))
  -- the rounded down square root
  let width := ceilSqrt (cells.size + 1) - 1
  if width * width ≠ cells.size then throw (.squareShape (.notSquare cells.size))
  if !isPowerOfTwo width then throw (.squareShape (.notPowerOfTwo width))
  if UInt16.size ≤ width then throw (.squareShape (.tooWide width))
  if let some cell := cells.find? fun cell => cell.length ≠ Share.size then
    throw (.shareSize cell.length)
  let square : ExtendedSquare := { cells, codec, width }
  square.checkData
  return square

/-! ### Trees and header -/

/-- The leaf that a cell is in the trees of its row and its column. -/
def leaf (square : ExtendedSquare) (row column : Nat) : Except Error Nmt.Leaf := do
  let data ← square.cell row column
  if square.isData row column then return ⟨(← Share.ofRaw data).ns, data⟩
  else return ⟨.parity, data⟩

/-- The namespaced tree of a row or a column. Its leaves are read and appended one by one. -/
def tree (square : ExtendedSquare) (axis : Axis) (index : Nat) : Except Error Nmt :=
  (List.range square.width).foldlM (fun tree i => do
    let place := axis.cell index i
    let leaf ← square.leaf place.1 place.2
    (tree.push leaf).mapError .malformed) .empty

/-- The roots of all rows and columns. -/
def header (square : ExtendedSquare) (app : AppVersion) : Except Error AvailabilityHeader := do
  let roots ← (List.range square.width).mapM fun index => do
    let row ← square.tree .row index
    let column ← square.tree .column index
    return (row.root, column.root)
  let header : AvailabilityHeader := ⟨roots.map Prod.fst, roots.map Prod.snd⟩
  (header.validate app).mapError .malformed
  return header

end ExtendedSquare

end Availability
