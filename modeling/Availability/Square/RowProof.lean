import Availability.Merkle.Proof
import Availability.Nmt.Hash

/-!
# Row proofs

The roots of the rows of a square are the first leaves of the Merkle tree whose root is the data
root of a block. A row proof shows this for the roots of consecutive rows.

* `RowProof` – the row roots, their Merkle proofs and the rows, with **nothing** guaranteed;
* `RowProof.validate` – checks that there are as many roots and proofs as rows;
* `RowProof.verify` – checks the proofs against a data root.
-/

namespace Availability

/-- A proof that consecutive row roots belong to a data root. -/
structure RowProof where
  /-- The roots of the rows. -/
  rowRoots : List NamespacedHash
  /-- The Merkle proofs of the roots. -/
  proofs : List MerkleProof
  /-- The first row. -/
  first : UInt32
  /-- The last row. -/
  last : UInt32
deriving DecidableEq

namespace RowProof

/-- Checks that there are as many roots and proofs as rows. -/
def validate (proof : RowProof) : Except Malformation Unit := do
  if proof.last < proof.first then
    throw (.rowOrder proof.last.toNat proof.first.toNat)
  let rows := proof.last.toNat - proof.first.toNat + 1
  if proof.rowRoots.length ≠ rows then throw (.rowRootCount proof.rowRoots.length rows)
  if proof.proofs.length ≠ rows then throw (.rowProofCount proof.proofs.length rows)

/-- Makes a row proof of its parts. -/
def make (rowRoots : List NamespacedHash) (proofs : List MerkleProof) (first last : UInt32) :
    Except Malformation RowProof := do
  let proof : RowProof := { rowRoots, proofs, first, last }
  proof.validate
  return proof

/-- Checks the proof of each row, given the number of the first one. -/
def verifyRows (root : Digest) :
    (row : Nat) → List NamespacedHash → List MerkleProof → Except Error Unit
  | row, rowRoot :: rowRoots, proof :: proofs => do
    if proof.index ≠ row then throw (.refuted (.otherRow proof.index row))
    proof.verify rowRoot.toBytes root
    verifyRows root (row + 1) rowRoots proofs
  | _, _, _ => .ok ()

/-- Checks that the rows have the given roots, at their own places under the data root. -/
def verify (proof : RowProof) (root : Digest) : Except Error Unit := do
  proof.validate.mapError fun fault => .refuted (.malformedRows fault)
  verifyRows root proof.first.toNat proof.rowRoots proof.proofs

end RowProof

end Availability
