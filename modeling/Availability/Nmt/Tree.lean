import Availability.Merkle.Split
import Availability.Nmt.Hash

/-!
# Namespaced Merkle trees

A namespaced Merkle tree is built over leaves in the order of their namespaces. Each node shows
the range of namespaces below it, so that leaves of a namespace can be shown to be all there are.

* `Nmt` – the leaves of a tree, **in ascending order** of their namespaces;
* `Nmt.push`, `Nmt.ofLeaves` – building a tree, which fails when the order is broken;
* `Nmt.root` – the root;
* `Nmt.rangeNodes` – the nodes beside a range of leaves.

Leaves of the parity namespace do not count for the largest namespace of a node, unless a node has
no others: every tree here is built in that way.
-/

namespace Availability

/-- A leaf of a namespaced tree. -/
structure Nmt.Leaf where
  /-- The namespace of the leaf. -/
  ns : Namespace
  /-- The data of the leaf. -/
  data : Bytes
deriving DecidableEq

namespace Nmt

/-- Whether no leaf has a smaller namespace than the leaf before it. -/
def ascending : List Leaf → Bool
  | a :: b :: rest => a.ns ≤ b.ns && ascending (b :: rest)
  | _ => true

end Nmt

/-- The leaves of a namespaced tree. -/
structure Nmt where
  /-- The leaves, from left to right. -/
  leaves : List Nmt.Leaf
  /-- The namespaces never decrease. -/
  ascending_leaves : Nmt.ascending leaves = true

namespace Nmt

/-- The tree without leaves. -/
def empty : Nmt :=
  ⟨[], rfl⟩

/-- Builds a tree of the given leaves. -/
def ofLeaves (leaves : List Leaf) : Except Malformation Nmt :=
  if h : ascending leaves = true then .ok ⟨leaves, h⟩ else .error .leafOrder

/-- Appends a leaf. -/
def push (tree : Nmt) (leaf : Leaf) : Except Malformation Nmt :=
  ofLeaves (tree.leaves ++ [leaf])

/-- The hashes of the leaves. -/
def leafHashes (leaves : List Leaf) : List NamespacedHash :=
  leaves.map fun leaf => .ofLeaf leaf.ns leaf.data

/-- The root of a tree with the given leaf hashes. -/
def rootOf (hashes : List NamespacedHash) : NamespacedHash :=
  Merkle.combine (.node true) .empty hashes

/-- The root of the tree. -/
def root (tree : Nmt) : NamespacedHash :=
  rootOf (leafHashes tree.leaves)

/-- The roots of the largest subtrees outside of a range of leaves, from left to right. -/
def rangeNodes (tree : Nmt) (start stop : Nat) : List NamespacedHash :=
  Merkle.siblings (.node true) .empty start stop 0 (leafHashes tree.leaves)

/-- The number of leaves before the first one that is not below a namespace. -/
def lowerBound (tree : Nmt) (ns : Namespace) : Nat :=
  (tree.leaves.takeWhile fun leaf => leaf.ns < ns).length

/-- The number of leaves of a namespace. -/
def count (tree : Nmt) (ns : Namespace) : Nat :=
  tree.leaves.countP fun leaf => leaf.ns = ns

/-- The data of the leaves of a namespace, in order. -/
def dataOf (tree : Nmt) (ns : Namespace) : List Bytes :=
  (tree.leaves.filter fun leaf => leaf.ns = ns).map Leaf.data

end Nmt

end Availability
