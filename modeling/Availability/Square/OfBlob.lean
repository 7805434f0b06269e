import Availability.Blob.Proof
import Availability.Square.Header

/-!
# The square of one blob

A blob by itself fills the top of the smallest square that has room for it; the rest is padding.
Such a square has a header, although it is not extended, and the blob has a proof in it.

* `BlobSquare.make` – the header of the square, and the **proof** of the blob.
-/

namespace Availability.BlobSquare

/-- Cuts a list into pieces of one size; the last one may be shorter. -/
def pieces {α : Type} (size : Nat) (xs : List α) : List (List α) :=
  if _ : size = 0 ∨ xs = [] then []
  else xs.take size :: pieces size (xs.drop size)
termination_by xs.length
decreasing_by
  have : 0 < xs.length := List.length_pos_iff.2 (by simp_all)
  simp only [List.length_drop]
  omega

/-- The tree over some shares, each under its own namespace. -/
def treeOf (shares : List Share) : Except Error Nmt :=
  (Nmt.ofLeaves (shares.map fun share => ⟨share.ns, share.bytes⟩)).mapError .malformed

/-- The width of the square: at least 2, so that its header is valid. -/
def width? (shares : Nat) : Option Nat :=
  (max 2 ·) <$> minSquare? shares

/-- The header of the square of a blob, and the proof of the blob in it. -/
def make (blob : Blob) (threshold : Nat) :
    Except Error (AvailabilityHeader × CommitmentProof) := do
  let shares ← blob.shares
  let some width := width? shares.length | throw (.malformed (.threshold threshold))
  let padding := List.replicate (width * width - shares.length) (Share.padding .tailPadding)
  let rows := pieces width (shares ++ padding)
  let columns := (List.range width).map fun column => rows.filterMap (·[column]?)
  let rowTrees ← rows.mapM treeOf
  let columnTrees ← columns.mapM treeOf
  let header ← (AvailabilityHeader.make (rowTrees.map Nmt.root) (columnTrees.map Nmt.root)).mapError
    .malformed
  let some largest := subtreeWidth? shares.length threshold
    | throw (.malformed (.threshold threshold))
  let some sizes := mountainRange? shares.length largest | throw (.malformed (.subtreeWidth largest))
  let subtrees ← (cut sizes shares).mapM treeOf
  let rowCount := (shares.length + width - 1) / width
  let rangeProofs := (rowTrees.take rowCount).map (·.prove blob.ns)
  let rowProof ← header.rowProof 0 (rowCount - 1)
  let proof ← CommitmentProof.make (subtrees.map Nmt.root) rangeProofs blob.ns rowProof
  return (header, proof)

end Availability.BlobSquare
