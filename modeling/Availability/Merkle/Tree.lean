import Availability.Merkle.Split
import Availability.Sha256

/-!
# Merkle trees of byte strings

Leaves and inner nodes are hashed with different first bytes, so that no leaf can be taken for a
node. The empty tree has the digest of the empty string.

* `Merkle.leafHash`, `Merkle.innerHash` – the digests of the nodes;
* `Merkle.root` – the root of the tree over a list of byte strings.
-/

namespace Availability.Merkle

/-- The root of the empty tree. -/
def emptyHash : Digest :=
  sha256 []

/-- The digest of a leaf. -/
def leafHash (leaf : Bytes) : Digest :=
  sha256 (0 :: leaf)

/-- The digest of an inner node. -/
def innerHash (left right : Digest) : Digest :=
  sha256 (1 :: (left.bytes ++ right.bytes))

/-- The root of the tree over the byte strings. -/
def root (leaves : List Bytes) : Digest :=
  combine innerHash emptyHash (leaves.map leafHash)

end Availability.Merkle
