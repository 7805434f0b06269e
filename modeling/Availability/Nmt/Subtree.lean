import Availability.Nmt.LeafRange
import Availability.Nmt.Proof

/-!
# Subtree roots under a row root

A commitment to a blob names the roots of subtrees over its shares. To see that they are in a row
of a square, the root of the row is recomputed: the subtree roots stand for the leaves of a range,
and the nodes of a proof for all that is beside the range.

* `SubtreeRoots.rebuild` – recomputes the root over the range of a proof;
* `SubtreeRoots.verify` – checks that subtree roots are under a row root, and **of one
  namespace**.
-/

namespace Availability.SubtreeRoots

/-- What is left over while a root is recomputed. -/
structure Supply where
  /-- The ranges whose roots were not used yet. -/
  ranges : List (Nat × Nat)
  /-- The subtree roots that were not used yet. -/
  roots : List NamespacedHash
  /-- The nodes that were not used yet. -/
  nodes : List NamespacedHash

/-- Takes the next subtree root, if there is one. -/
def Supply.takeRoot (s : Supply) : Option NamespacedHash × Supply :=
  (s.roots.head?, { s with roots := s.roots.tail })

/-- Takes the next node, if there is one. -/
def Supply.takeNode (s : Supply) : Option NamespacedHash × Supply :=
  (s.nodes.head?, { s with nodes := s.nodes.tail })

/-- Hashes two neighbouring nodes, after checking that their namespaces are in order. -/
def join (ignoreMax : Bool) (left right : NamespacedHash) : Except Error NamespacedHash := do
  left.validateOrder
  right.validateOrder
  if right.min < left.max then throw (.refuted .nodeOrder)
  return .node ignoreMax left right

/-- Recomputes the root of the subtree of `size` leaves that starts at `offset`, from left to
right. Outside of `[start, stop)` it is given by a node; nodes may be missing at the right end. -/
def rebuild (ignoreMax : Bool) (start stop : Nat) (size offset : Nat) (s : Supply) :
    Except Error (Option NamespacedHash × Supply) :=
  if offset + size ≤ start ∨ stop ≤ offset then .ok s.takeNode
  else if s.ranges.head? = some (offset, offset + size) then
    .ok ({ s with ranges := s.ranges.tail } : Supply).takeRoot
  else if _ : 2 ≤ size then do
    let k := Merkle.splitPoint size
    let (left, s) ← rebuild ignoreMax start stop k offset s
    let (right, s) ← rebuild ignoreMax start stop (size - k) (offset + k) s
    match left, right with
    | some left, some right => return (some (← join ignoreMax left right), s)
    | left, none => return (left, s)
    | none, some _ => throw (.refuted .missingLeftNode)
  else .ok s.takeRoot
termination_by size
decreasing_by
  all_goals
    have := Merkle.splitPoint_pos ‹2 ≤ size›
    have := Merkle.splitPoint_lt ‹2 ≤ size›
    omega

/-- Checks that every subtree root is of the namespace, and of no other. -/
def checkNamespace (ns : Namespace) (roots : List NamespacedHash) : Except Error Unit :=
  if roots.all fun root => root.min = ns ∧ root.max = ns then .ok ()
  else .error (.refuted (.foreignRoot ns))

/-- Checks that the subtree roots are in the tree of a row root, at the place of the proof's
range. -/
def verify (proof : NamespaceProof) (roots : List NamespacedHash) (width : Nat) (ns : Namespace)
    (rowRoot : NamespacedHash) : Except Error Unit := do
  if proof.isOfAbsence then throw (.refuted .absenceOfRoots)
  rowRoot.validateOrder
  if ns.isOutside rowRoot rowRoot then throw (.refuted (.namespaceOutside ns))
  checkNamespace ns roots
  let start := proof.start.toNat
  let stop := proof.stop.toNat
  let ranges ← (leafRanges start stop width).mapError .refuted
  if ranges.length ≠ roots.length then
    throw (.refuted (.subtreeRootCount roots.length ranges.length))
  -- the smallest power of two that has room for the range
  let size := max (2 * Merkle.splitPoint stop) 1
  let (root?, rest) ← rebuild proof.ignoreMax start stop size 0 ⟨ranges, roots, proof.nodes⟩
  let some root := root? | throw (.refuted .noCover)
  if !rest.roots.isEmpty then throw (.refuted .unusedRoots)
  -- what is left are the roots of the subtrees to the right
  let root ← rest.nodes.foldlM (join proof.ignoreMax) root
  if root ≠ rowRoot then throw (.refuted .otherRowRoot)

end Availability.SubtreeRoots
