import Availability.Error
import Availability.Merkle.Tree

/-!
# Merkle proofs

A proof that a byte string is a leaf of a Merkle tree names the position of the leaf, the number
of leaves, and the digests beside the path from the leaf to the root.

* `MerkleProof` – a proof, with **nothing** guaranteed about it;
* `MerkleProof.make` – the proof of a leaf of a given tree, together with the root;
* `MerkleProof.verify` – checks that a byte string is the proven leaf under a root.
-/

namespace Availability

/-- A proof that some byte string is a leaf of a Merkle tree. -/
structure MerkleProof where
  /-- The position of the leaf. -/
  index : Nat
  /-- The number of leaves. -/
  total : Nat
  /-- The digest of the leaf. -/
  leafHash : Digest
  /-- The digests beside the path, from the leaf up. -/
  aunts : List Digest
deriving DecidableEq

namespace MerkleProof

open Merkle

/-- The root over some leaf digests, and the digests beside the path to one of them, from the leaf
up. -/
def path (index : Nat) (leaves : List Digest) : Digest × List Digest :=
  if _ : 2 ≤ leaves.length then
    let k := splitPoint leaves.length
    if index < k then
      let (left, aunts) := path index (leaves.take k)
      let right := combine innerHash emptyHash (leaves.drop k)
      (innerHash left right, aunts ++ [right])
    else
      let left := combine innerHash emptyHash (leaves.take k)
      let (right, aunts) := path (index - k) (leaves.drop k)
      (innerHash left right, aunts ++ [left])
  else (leaves.headD emptyHash, [])
termination_by leaves.length
decreasing_by
  all_goals
    have := splitPoint_pos ‹2 ≤ leaves.length›
    have := splitPoint_lt ‹2 ≤ leaves.length›
    simp only [List.length_take, List.length_drop]
    omega

/-- The proof of the leaf at a position, and the root of the tree. -/
def make (index : Nat) (leaves : List Bytes) : Except Error (MerkleProof × Digest) :=
  match leaves[index]? with
  | none => .error (.indexOutside index leaves.length)
  | some leaf =>
    let (root, aunts) := path index (leaves.map Merkle.leafHash)
    .ok ({ index, total := leaves.length, leafHash := Merkle.leafHash leaf, aunts }, root)

/-- Climbs from a leaf to the root of a tree. The digests beside the path are taken from the root
down: the first one is the sibling of the root's child. -/
def climb (leaf : Digest) : (index total : Nat) → (aunts : List Digest) → Except Refutation Digest
  | index, total, aunts =>
    if total = 0 ∨ total ≤ index then .error (.indexOutside index total)
    else if total = 1 then if aunts.isEmpty then .ok leaf else .error .extraAunts
    else
      match aunts with
      | [] => .error .missingAunts
      | aunt :: aunts =>
        let k := splitPoint total
        if index < k then (innerHash · aunt) <$> climb leaf index k aunts
        else (innerHash aunt ·) <$> climb leaf (index - k) (total - k) aunts

/-- Checks that a byte string is the proven leaf of a tree with the given root. -/
def verify (proof : MerkleProof) (leaf : Bytes) (root : Digest) : Except Error Unit := do
  let leaf := Merkle.leafHash leaf
  if leaf ≠ proof.leafHash then throw (.refuted .otherLeaf)
  let computed ← (climb leaf proof.index proof.total proof.aunts.reverse).mapError .refuted
  if computed ≠ root then throw .rootMismatch

end MerkleProof

end Availability
