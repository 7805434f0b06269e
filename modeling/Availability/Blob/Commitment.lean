import Availability.AppVersion
import Availability.Merkle.Tree
import Availability.Nmt.Tree
import Availability.Share.Splitter
import Availability.Width

/-!
# Commitments to blobs

A blob is committed to before it is placed in a square. Its shares are grouped into subtrees of a
mountain range; each group is a namespaced tree, and the commitment is the root of the Merkle tree
over the roots of the groups.

* `validateBlob` – which namespace, data and share version **make a blob**;
* `cut` – cutting a list into groups of given sizes;
* `subtreeRoots` – the roots of the groups of shares;
* `commit` – the commitment.
-/

namespace Availability

/-- The root over the subtree roots of a blob. -/
abbrev Commitment := Digest

/-- The largest number of bytes of a blob: as many as the shares of a square of width 64 can take,
each of them counted as one that does not start a sequence. -/
def maxBlobSize : Nat := 64 * 64 * 482

/-- Checks that the parts make a blob. -/
def validateBlob (ns : Namespace) (data : Bytes) (version : UInt8) : Except Error Unit := do
  if data.isEmpty then throw .emptyBlob
  if maxBlobSize < data.length then throw (.blobSize data.length maxBlobSize)
  ns.validateForBlob
  if version ∉ Share.supportedVersions then throw (.shareVersion version)

/-- Cuts a list into groups of the given sizes. -/
def cut {α : Type} : (sizes : List Nat) → List α → List (List α)
  | [], _ => []
  | size :: sizes, xs => xs.take size :: cut sizes (xs.drop size)

/-- The root of the namespaced tree over some shares, which are all pushed with one namespace. -/
def groupRoot (ns : Namespace) (shares : List Share) : Except Error NamespacedHash :=
  match Nmt.ofLeaves (shares.map fun share => ⟨ns, share.bytes⟩) with
  | .ok tree => .ok tree.root
  | .error fault => .error (.malformed fault)

/-- The roots of the subtrees over the shares of a blob. -/
def subtreeRoots (ns : Namespace) (shares : List Share) (threshold : Nat) :
    Except Error (List NamespacedHash) :=
  match subtreeWidth? shares.length threshold with
  | none => .error (.malformed (.threshold threshold))
  | some width =>
    match mountainRange? shares.length width with
    | none => .error (.malformed (.subtreeWidth width))
    | some sizes => (cut sizes shares).mapM (groupRoot ns)

/-- The root over the roots of subtrees. -/
def commitmentOf (roots : List NamespacedHash) : Commitment :=
  Merkle.root (roots.map NamespacedHash.toBytes)

/-- The commitment to a blob. -/
def commit (ns : Namespace) (data : Bytes) (version : UInt8) (threshold : Nat) :
    Except Error Commitment := do
  validateBlob ns data version
  let splitter ← ShareSplitter.empty.write ns version data
  let roots ← subtreeRoots ns splitter.shares threshold
  return commitmentOf roots

end Availability
