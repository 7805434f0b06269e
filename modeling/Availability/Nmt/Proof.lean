import Availability.Nmt.Tree

/-!
# Proofs of namespaced trees

A proof covers a range of leaves and gives the nodes beside it, from left to right. It may show
that the leaves of the range are there, or that a namespace has no leaves: then the range is that
of the first leaf after the namespace, whose hash is part of the proof.

Trees of this kind are a library of their own, and the network takes their proofs from there. What
it relies on is that a namespace in the range of a tree has a proof that is accepted with all of its
leaves, and with nothing else.

* `NamespaceProof` – a proof, with **nothing** guaranteed about it;
* `Nmt.prove`, `Nmt.proveRange` – the proof for a namespace or a range of leaves of a tree;
* `NamespaceProof.verifyComplete` – checks that some leaves are **all** of their namespace;
* `NamespaceProof.verifyRange` – checks that some leaves are at the place of the range.
-/

namespace Availability

/-- What a proof of a namespaced tree is meant to show. -/
inductive NamespaceProof.Goal where
  /-- The leaves of the range are in the tree. -/
  | presence
  /-- A namespace is not in the tree. The hash is that of the leaf after it; there is none when the
  namespace is outside of the whole tree. -/
  | absence (leaf : Option NamespacedHash)
deriving DecidableEq

/-- A proof about a range of leaves of a namespaced tree. -/
structure NamespaceProof where
  /-- What the proof is meant to show. -/
  goal : NamespaceProof.Goal
  /-- The number of the first leaf of the range. -/
  start : UInt32
  /-- The number of the first leaf after the range. -/
  stop : UInt32
  /-- The nodes beside the range, from left to right. -/
  nodes : List NamespacedHash
  /-- Whether leaves of the parity namespace do not count for the largest namespace of a node. -/
  ignoreMax : Bool
deriving DecidableEq

namespace NamespaceProof

/-- A proof that the leaves of a range are there. -/
def ofRange (start stop : UInt32) (nodes : List NamespacedHash) : NamespaceProof :=
  { goal := .presence, start, stop, nodes, ignoreMax := true }

/-- Whether the proof is meant to show that a namespace is absent. -/
def isOfAbsence (proof : NamespaceProof) : Bool :=
  proof.goal ≠ .presence

/-- The hash of the leaf after an absent namespace. -/
def leaf? (proof : NamespaceProof) : Option NamespacedHash :=
  match proof.goal with
  | .absence leaf => leaf
  | .presence => none

/-- The number of leaves in the range. -/
def leafCount (proof : NamespaceProof) : Nat :=
  proof.stop.toNat - proof.start.toNat

/-! ### Recomputing the root -/

/-- The number of nodes to the left of a leaf: one for each step to the right on its path. -/
def leftNodes (index : Nat) : Nat :=
  go 64 index
where
  /-- Counts the ones among the last binary digits. -/
  go : Nat → Nat → Nat
    | 0, _ => 0
    | bits + 1, n => n % 2 + go bits (n / 2)

/-- The size of the tree in which a leaf has the given number of nodes to its right: each of them
turns one of the lowest zero bits of its index into a one. Trees have less than 2^32 leaves. -/
def treeSize (rightNodes lastIndex : Nat) : Except RangeFault Nat :=
  go 33 rightNodes lastIndex 0
where
  /-- Sets the lowest zero bits, from the given one on. -/
  go : (fuel : Nat) → (rest index bit : Nat) → Except RangeFault Nat
    | _, 0, index, _ => .ok (index + 1)
    | 0, _, _, _ => .error .treeTooLarge
    | fuel + 1, rest + 1, index, bit =>
      let isSet := index.testBit bit
      let index := if isSet then index else index + 1 <<< bit
      if index = UInt32.size - 1 then .error .treeTooLarge
      else go fuel (if isSet then rest + 1 else rest) index (bit + 1)

/-- What is left of the leaves and of the nodes while a root is recomputed, the last ones first. -/
structure Supply where
  /-- The leaves that were not used yet. -/
  leaves : List NamespacedHash
  /-- The nodes that were not used yet. -/
  nodes : List NamespacedHash

/-- Takes the last leaf. -/
def Supply.takeLeaf (s : Supply) : Except RangeFault (NamespacedHash × Supply) :=
  match s.leaves with
  | leaf :: leaves => .ok (leaf, { s with leaves })
  | [] => .error .missingLeaf

/-- Takes the last node. -/
def Supply.takeNode (s : Supply) : Except RangeFault (NamespacedHash × Supply) :=
  match s.nodes with
  | node :: nodes => .ok (node, { s with nodes })
  | [] => .error .missingNode

/-- Recomputes the root of the subtree of `size` leaves that starts at `offset`, from right to
left. The leaves at hand are those from `start` on. A subtree that none of them is in is given by
one node. -/
def rebuild (ignoreMax : Bool) (start : Nat) (size offset : Nat) (s : Supply) :
    Except RangeFault (NamespacedHash × Supply) :=
  if _ : 2 ≤ size then do
    let middle := offset + Merkle.splitPoint size
    let (right, s) ←
      if middle < start + s.leaves.length then
        rebuild ignoreMax start (size - Merkle.splitPoint size) middle s
      else s.takeNode
    let (left, s) ←
      if start < middle then rebuild ignoreMax start (Merkle.splitPoint size) offset s
      else s.takeNode
    if left.isOrdered && right.isOrdered && left.max ≤ right.min then
      .ok (.node ignoreMax left right, s)
    else .error .malformedTree
  else s.takeLeaf
termination_by size
decreasing_by
  all_goals
    have := Merkle.splitPoint_pos ‹2 ≤ size›
    have := Merkle.splitPoint_lt ‹2 ≤ size›
    omega

/-- Whether the nodes next to the range show that it holds all leaves of its namespaces. -/
def isComplete (leaves left right : List NamespacedHash) : Bool :=
  match leaves.head?, leaves.getLast? with
  | some first, some last =>
    left.getLast?.all (fun node => node.max < first.min) &&
      right.head?.all (fun node => last.max < node.min)
  | _, _ => true

/-- Checks that some leaf hashes are at the place of the range in the tree of the given root, and
says whether they are all leaves of their namespaces. -/
def checkLeaves (proof : NamespaceProof) (root : NamespacedHash) (leaves : List NamespacedHash) :
    Except RangeFault Bool :=
  match leaves, proof.nodes with
  | [], nodes =>
    if root = .empty ∧ nodes = [] then .ok true else .error .noLeaves
  | [leaf], [] =>
    if leaf = root ∧ proof.start = 0 then .ok true else .error .notInTree
  | leaves, nodes => do
    let start := proof.start.toNat
    let leftCount := leftNodes start
    if nodes.length < leftCount then throw .missingNode
    let size ← treeSize (nodes.length - leftCount) (start + leaves.length - 1)
    let (computed, _) ← rebuild proof.ignoreMax start size 0 ⟨leaves.reverse, nodes.reverse⟩
    if computed ≠ root then throw .invalidRoot
    return isComplete leaves (nodes.take leftCount) (nodes.drop leftCount)

/-- Checks that the given leaves are those of a namespace, and all of them, as the library of the
trees does. -/
def verifyComplete (proof : NamespaceProof) (root : NamespacedHash) (leaves : List Bytes)
    (ns : Namespace) : Except RangeFault Unit :=
  if !proof.isOfAbsence && leaves.length ≠ proof.leafCount then .error .leafCount
  else if root = .empty ∧ leaves = [] then .ok ()
  else
    match proof.goal with
    | .absence leaf? => do
      if !root.contains ns then return ()
      let some leaf := leaf? | throw .absenceWithoutLeaf
      if !leaves.isEmpty then throw .absenceWithLeaves
      if leaf.min ≤ ns then throw .absenceLeafBefore
      -- the node before the leaf has only smaller namespaces
      let before := proof.nodes.take (leftNodes proof.start.toNat)
      if before.getLast?.any fun node => ns ≤ node.max then throw .absenceNodeAfter
      let _ ← proof.checkLeaves root [leaf]
    | .presence => do
      if !root.contains ns then throw .notInTree
      let complete ← proof.checkLeaves root (leaves.map (.ofLeaf ns))
      if !complete then throw .missingLeaf

/-- Checks that the given leaves of a namespace are at the place of the range. -/
def verifyRange (proof : NamespaceProof) (root : NamespacedHash) (leaves : List Bytes)
    (ns : Namespace) : Except RangeFault Unit := do
  if proof.isOfAbsence then throw .absenceOfRange
  if leaves.length ≠ proof.leafCount then throw .leafCount
  let _ ← proof.checkLeaves root (leaves.map (.ofLeaf ns))

end NamespaceProof

namespace Nmt

/-- The proof that the leaves of a range are there. -/
def proveRange (tree : Nmt) (start stop : Nat) : NamespaceProof :=
  .ofRange (.ofNat start) (.ofNat stop) (tree.rangeNodes start stop)

/-- The proof for a namespace, as the library of the trees makes it: that its leaves are there, or
that it has none. -/
def prove (tree : Nmt) (ns : Namespace) : NamespaceProof :=
  if !tree.root.contains ns then
    { goal := .absence none, start := 0, stop := 0, nodes := [], ignoreMax := true }
  else
    let start := tree.lowerBound ns
    if 0 < tree.count ns then tree.proveRange start (start + tree.count ns)
    else
      { tree.proveRange start (start + 1) with
        goal := .absence ((leafHashes tree.leaves)[start]?) }

end Nmt

end Availability
