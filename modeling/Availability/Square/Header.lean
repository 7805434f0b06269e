import Availability.AppVersion
import Availability.Square.RowProof

/-!
# Availability headers

The header of a square lists the roots of its rows and of its columns. The data root of a block is
the root of the Merkle tree over all of them, rows first.

* `AvailabilityHeader` – the roots, as many of rows and of columns as it happens to have;
* `AvailabilityHeader.make` – a header with as many **columns as rows**;
* `AvailabilityHeader.hash` – the data root;
* `AvailabilityHeader.rowProof` – the proof of consecutive rows.
-/

namespace Availability

/-- The roots of the rows and of the columns of a square. -/
structure AvailabilityHeader where
  /-- The roots of the rows, from top to bottom. -/
  rowRoots : List NamespacedHash
  /-- The roots of the columns, from left to right. -/
  columnRoots : List NamespacedHash
deriving DecidableEq

namespace AvailabilityHeader

/-- Makes a header with as many columns as rows. -/
def make (rowRoots columnRoots : List NamespacedHash) : Except Malformation AvailabilityHeader :=
  if rowRoots.length = columnRoots.length then .ok ⟨rowRoots, columnRoots⟩
  else .error (.columnCount columnRoots.length rowRoots.length)

/-- The leaves of the tree of the data root. -/
def leaves (header : AvailabilityHeader) : List Bytes :=
  (header.rowRoots ++ header.columnRoots).map NamespacedHash.toBytes

/-- The data root. -/
def hash (header : AvailabilityHeader) : Digest :=
  Merkle.root header.leaves

/-- The width of the square, as an unsigned 16-bit number. -/
def width (header : AvailabilityHeader) : UInt16 :=
  .ofNat header.rowRoots.length

/-- The proof of the rows from `first` to `last`, both included. -/
def rowProof (header : AvailabilityHeader) (first last : Nat) : Except Error RowProof := do
  if last < first ∨ header.rowRoots.length ≤ last then
    throw (.malformed (.rowsOutside first last header.rowRoots.length))
  let count := last - first + 1
  let rowRoots := (header.rowRoots.drop first).take count
  let proofs ← (List.range count).mapM fun i => Prod.fst <$> MerkleProof.make (first + i) header.leaves
  (RowProof.make rowRoots proofs (.ofNat first) (.ofNat last)).mapError .malformed

/-- Checks that the header is that of a square of an allowed width. -/
def validate (header : AvailabilityHeader) (app : AppVersion) : Except Malformation Unit := do
  let rows := header.rowRoots.length
  let columns := header.columnRoots.length
  if columns ≠ rows then throw (.columnCount columns rows)
  if rows < minExtendedWidth then throw (.fewRows rows minExtendedWidth)
  if app.extendedBound < rows then throw (.manyRows rows app.extendedBound)

end AvailabilityHeader

end Availability
