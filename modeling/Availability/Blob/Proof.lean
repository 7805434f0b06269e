import Availability.Blob
import Availability.Nmt.Subtree
import Availability.Square.RowProof

/-!
# Commitment proofs

A node proves that a blob is in a block by its subtree roots: they hash to the commitment, they
are under the roots of some rows, and those rows belong to the data root.

* `CommitmentProof` – a proof, with **nothing** guaranteed about it;
* `CommitmentProof.validate` – checks that the numbers of its parts fit together;
* `CommitmentProof.verify` – checks it for a commitment and a data root.
-/

namespace Availability

/-- A proof that the blob of a commitment is in a block. -/
structure CommitmentProof where
  /-- The subtree roots of the blob, in order. -/
  subtreeRoots : List NamespacedHash
  /-- The leaf range of the blob in each of its rows, with the nodes beside it. -/
  rangeProofs : List NamespaceProof
  /-- The namespace of the blob. -/
  ns : Namespace
  /-- The proof of the rows. -/
  rowProof : RowProof
deriving DecidableEq

namespace CommitmentProof

/-- Checks that the numbers of the parts fit together, and that no row proves an absence. -/
def validate (proof : CommitmentProof) : Except Error Unit := do
  proof.rowProof.validate.mapError .malformed
  if proof.rangeProofs.length ≠ proof.rowProof.rowRoots.length then
    throw (.malformed (.rangeProofCount proof.rangeProofs.length proof.rowProof.rowRoots.length))
  if proof.subtreeRoots.isEmpty then throw (.malformed .noSubtreeRoots)
  if proof.rangeProofs.any NamespaceProof.isOfAbsence then throw .absenceProof

/-- Makes a commitment proof of its parts. -/
def make (subtreeRoots : List NamespacedHash) (rangeProofs : List NamespaceProof) (ns : Namespace)
    (rowProof : RowProof) : Except Error CommitmentProof := do
  let proof : CommitmentProof := { subtreeRoots, rangeProofs, ns, rowProof }
  proof.validate
  return proof

/-- The number of shares that the ranges of the rows claim. -/
def shareCount (proof : CommitmentProof) : Nat :=
  (proof.rangeProofs.map NamespaceProof.leafCount).foldr (· + ·) 0

/-- Checks the subtree roots against the row roots, row by row, and gives back those that no row
needed. -/
def verifyRows (ns : Namespace) (width : Nat) :
    List NamespaceProof → List NamespacedHash → (roots : List NamespacedHash) →
      Except Error (List NamespacedHash)
  | proof :: proofs, rowRoot :: rowRoots, roots => do
    let ranges ← (leafRanges proof.start.toNat proof.stop.toNat width).mapError .refuted
    if roots.length < ranges.length then
      throw (.refuted (.fewSubtreeRoots ranges.length roots.length))
    SubtreeRoots.verify proof (roots.take ranges.length) width ns rowRoot
    verifyRows ns width proofs rowRoots (roots.drop ranges.length)
  | _, _, roots => .ok roots

/-- Checks the proof. What is malformed in it is told apart from what does not hold. -/
def verifyParts (proof : CommitmentProof) (commitment : Commitment) (dataRoot : Digest)
    (threshold : Nat) : Except Error Unit := do
  proof.validate
  match subtreeWidth? proof.shareCount threshold with
  | none => throw (.refuted (.threshold threshold))
  | some width =>
    let unused ←
      verifyRows proof.ns width proof.rangeProofs proof.rowProof.rowRoots proof.subtreeRoots
    if !unused.isEmpty then throw (.refuted (.manySubtreeRoots unused.length))
    if commitmentOf proof.subtreeRoots ≠ commitment then
      throw (.refuted (.otherCommitment commitment))
    proof.rowProof.verify dataRoot

/-- A proof that is malformed does not hold either. -/
def refute : Error → Error
  | .malformed fault => .refuted (.malformedProof fault)
  | .namespacedHash => .refuted .malformedHash
  | error => error

/-- Checks that the blob of the commitment is in the block of the data root. -/
def verify (proof : CommitmentProof) (commitment : Commitment) (dataRoot : Digest)
    (threshold : Nat) : Except Error Unit :=
  (proof.verifyParts commitment dataRoot threshold).mapError refute

end CommitmentProof

end Availability
