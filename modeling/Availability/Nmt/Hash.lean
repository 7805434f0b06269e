import Availability.Error

/-!
# Namespaced hashes

A node of a namespaced Merkle tree is identified by a digest together with the smallest and the
largest namespace of the leaves below it. Both namespaces are part of what the parent hashes.

* `NamespacedHash` – the two namespaces and the digest, with **no** condition on their order;
* `NamespacedHash.ofLeaf`, `NamespacedHash.node` – hashing leaves and inner nodes;
* `Namespace.isOutside` – a namespace that no leaf below a node can have.
-/

namespace Availability

/-- A node of a namespaced Merkle tree. -/
structure NamespacedHash where
  /-- The smallest namespace below the node. -/
  min : Namespace
  /-- The largest namespace below the node. -/
  max : Namespace
  /-- The digest of the node. -/
  hash : Digest
deriving DecidableEq, Inhabited

namespace NamespacedHash

/-- The bytes of a node: its smallest and largest namespace and its digest. -/
def toBytes (node : NamespacedHash) : Bytes :=
  node.min.bytes ++ node.max.bytes ++ node.hash.bytes

@[simp] theorem length_toBytes (node : NamespacedHash) : node.toBytes.length = 90 := by
  simp [toBytes, node.min.length_bytes, node.max.length_bytes, node.hash.length_bytes]

/-- Reads a node from its 90 bytes. -/
def ofBytes (bs : Bytes) : Except Error NamespacedHash :=
  if h : bs.length = 90 then
    .ok ⟨⟨bs.take 29, by simp [h]⟩, ⟨(bs.drop 29).take 29, by simp [h]⟩, ⟨bs.drop 58, by simp [h]⟩⟩
  else .error .namespacedHash

theorem ofBytes_toBytes (node : NamespacedHash) : ofBytes node.toBytes = .ok node := by
  obtain ⟨⟨a, ha⟩, ⟨b, hb⟩, ⟨c, hc⟩⟩ := node
  have h₁ : (a ++ (b ++ c)).take 29 = a := by simp [← ha]
  have h₂ : ((a ++ (b ++ c)).drop 29).take 29 = b := by rw [← ha]; simp [ha, ← hb]
  have h₃ : (a ++ (b ++ c)).drop 58 = c := by
    rw [show 58 = 29 + 29 from rfl, ← List.drop_drop, ← ha]; simp [ha, ← hb]
  have h : (a ++ (b ++ c)).length = 90 := by simp [ha, hb, hc]
  simp only [ofBytes, toBytes, List.append_assoc, h, ↓reduceDIte, h₁, h₂, h₃]

/-- Whether the smallest namespace is not above the largest. -/
def isOrdered (node : NamespacedHash) : Bool :=
  node.min ≤ node.max

/-- Checks that the smallest namespace is not above the largest. -/
def validateOrder (node : NamespacedHash) : Except Error Unit :=
  if node.isOrdered then .ok () else .error .namespacedHash

/-- The root of the tree without leaves. -/
def empty : NamespacedHash :=
  ⟨default, default, sha256 []⟩

/-- Hashes a leaf with its namespace. -/
def ofLeaf (ns : Namespace) (data : Bytes) : NamespacedHash :=
  ⟨ns, ns, sha256 (0 :: (ns.bytes ++ data))⟩

/-- Hashes two neighbouring nodes. With `ignoreMax`, nodes that only have leaves of the largest
namespace do not count for the largest namespace of their parent, unless it has no others. -/
def node (ignoreMax : Bool) (left right : NamespacedHash) : NamespacedHash where
  min := if right.min < left.min then right.min else left.min
  max :=
    if ignoreMax ∧ left.min = Namespace.parity then Namespace.parity
    else if ignoreMax ∧ right.min = Namespace.parity then left.max
    else if left.max < right.max then right.max else left.max
  hash := sha256 (1 :: (left.toBytes ++ right.toBytes))

/-- Whether a namespace is one of those that leaves below the node may have. -/
def contains (node : NamespacedHash) (ns : Namespace) : Bool :=
  node.min ≤ ns && ns ≤ node.max && node ≠ empty

end NamespacedHash

namespace Namespace

/-- Whether every leaf below the node is of a smaller namespace. -/
def isAbove (ns : Namespace) (node : NamespacedHash) : Bool :=
  node.max < ns

/-- Whether every leaf below the node is of a larger namespace. -/
def isBelow (ns : Namespace) (node : NamespacedHash) : Bool :=
  ns < node.min

/-- Whether a namespace comes before the first or after the last of the nodes from `left` to
`right`. -/
def isOutside (ns : Namespace) (left right : NamespacedHash) : Bool :=
  ns.isBelow left || ns.isAbove right

end Namespace

end Availability
