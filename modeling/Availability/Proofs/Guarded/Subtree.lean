import Availability.Proofs.Guarded.Merkle
import Availability.Proofs.Nmt.LeafRange
import Availability.Proofs.Nmt.Subtree

/-!
# Runs over subtree roots

Range, nodes and subtree roots of a row are chosen by the maker of the proof. The root of the row is
recomputed from them, over a tree that is as large as the range says, whatever nodes are missing or
left over; and nodes are hashed at two places, in the tree and for what is to the right of it.

* `coverRange_eq` – covering a range comes to its end, and does not reach over it;
* `agrees_join` – **nodes are hashed in order**, at either place;
* `agrees_rebuild` – every tree with a leaf is split into smaller ones until they have one leaf;
* `agrees_verifySubtreeRoots` – checking subtree roots **never breaks a run**.
-/

namespace Availability.Guarded

open SubtreeRoots (Supply)

/-! ### Leaf ranges -/

/-- The width of the widest subtree that can begin at a leaf. -/
def nextWidth (current stop largest : Nat) : Except Stop Nat := do
  let bound ← log2 (← sub stop current)
  return min (1 <<< alignment current bound) largest

/-- Covers the leaves from `current` up to `stop` by subtrees. -/
def coverRange (largest current stop : Nat) : Except Stop (List (Nat × Nat)) :=
  if current < stop then do
    let width ← nextWidth current stop largest
    let next ← add current width
    ensure (current < next) .endless fun _ =>
      ((current, next) :: ·) <$> coverRange largest next stop
  else .ok []
termination_by stop - current

theorem nextWidth_eq_ok {current stop : Nat} (h : current < stop) (largest : Nat) :
    nextWidth current stop largest = .ok (Availability.nextWidth current stop largest) := by
  rw [nextWidth, sub_eq h.le, Checked.ok_bind, log2_eq (by omega)]
  rfl

/-- The next subtree lies within the range. -/
theorem nextWidth_le {current stop : Nat} (h : current < stop) (largest : Nat) :
    Availability.nextWidth current stop largest ≤ stop - current := by
  have hne : stop - current ≠ 0 := by omega
  refine (min_le_left _ _).trans ?_
  rw [Nat.one_shiftLeft]
  exact (Nat.pow_le_pow_right Nat.two_pos (alignment_le _ _)).trans (Nat.log2_self_le hne)

theorem nextWidth_pos (current stop : Nat) {largest : Nat} (h : largest ≠ 0) :
    0 < Availability.nextWidth current stop largest := by
  refine lt_min ?_ (Nat.pos_of_ne_zero h)
  rw [Nat.one_shiftLeft]
  exact Nat.two_pow_pos _

/-- **Covering a range never breaks a run.** -/
theorem coverRange_eq {largest stop : Nat} (hlargest : largest ≠ 0) (hstop : stop < UInt64.size)
    (current : Nat) :
    coverRange largest current stop = .ok (Availability.coverRange largest current stop) := by
  induction h : stop - current using Nat.strong_induction_on generalizing current with
  | _ n ih =>
    subst h
    rw [coverRange, Availability.coverRange]
    by_cases hlt : current < stop
    · have hle := nextWidth_le hlt largest
      have hpos := nextWidth_pos current stop hlargest
      rw [if_pos hlt, dif_pos ⟨hlt, hlargest⟩, nextWidth_eq_ok hlt, Checked.ok_bind,
        add_eq (by omega), Checked.ok_bind, ensure_of (by omega), ih _ (by omega) _ rfl]
      rfl
    · rw [if_neg hlt, dif_neg fun h => hlt h.1]

/-- The ranges of the subtrees that cover the leaves from `start` up to `stop`. -/
def leafRanges (start stop largest : Nat) : Except Stop (List (Nat × Nat)) :=
  if stop ≤ start then throw (.refused (.refuted (.emptyRange start stop)))
  else if !isPowerOfTwo largest then throw (.refused (.refuted (.widthNotPowerOfTwo largest)))
  else coverRange largest start stop

theorem agrees_leafRanges (start largest : Nat) {stop : Nat} (hstop : stop < UInt64.size) :
    Agrees (leafRanges start stop largest)
      ((Availability.leafRanges start stop largest).mapError .refuted) := by
  rw [leafRanges, Availability.leafRanges]
  simp only [apply_ite (Except.mapError _)]
  refine .ite (fun _ => .error rfl) fun _ => .ite (fun _ => .error rfl) fun hwidth => ?_
  have hne : largest ≠ 0 := by
    rintro rfl
    exact hwidth rfl
  rw [coverRange_eq hne hstop]
  exact .ok _

/-! ### Recomputing a root -/

theorem agrees_validateOrder (node : NamespacedHash) :
    Agrees (node.validateOrder.mapError .refused) node.validateOrder := by
  refine .ofCheck fun e h => ?_
  rw [NamespacedHash.validateOrder] at h
  split at h
  · cases h
  · rw [← Except.error.inj h]
    trivial

/-- Hashes two neighbouring nodes, after checking that their namespaces are in order. -/
def join (ignoreMax : Bool) (left right : NamespacedHash) : Except Stop NamespacedHash := do
  left.validateOrder.mapError .refused
  right.validateOrder.mapError .refused
  if right.min < left.max then throw (.refused (.refuted .nodeOrder))
  hashNodes ignoreMax left right

/-- **Nodes are only hashed in order.** -/
theorem agrees_join (ignoreMax : Bool) (left right : NamespacedHash) :
    Agrees (join ignoreMax left right) (SubtreeRoots.join ignoreMax left right) := by
  simp only [join, SubtreeRoots.join, Checked.throw_bind]
  refine .bind (agrees_validateOrder left) fun _ _ => ?_
  refine .bind (agrees_validateOrder right) fun _ _ => ?_
  exact .refuse rfl fun horder => .ensure (not_lt.mp horder) (.ok _)

/-- Recomputes the root of the subtree over the leaves from `start` up to `stop`. Outside of the
leaves from `first` up to `last` it is given by a node. -/
def rebuild (ignoreMax : Bool) (first last : Nat) (start stop : Nat) (s : Supply) :
    Except Stop (Option NamespacedHash × Supply) :=
  if stop ≤ first ∨ last ≤ start then .ok s.takeNode
  else if s.ranges.head? = some (start, stop) then
    .ok ({ s with ranges := s.ranges.tail } : Supply).takeRoot
  else
    ensure (start ≤ stop) .negative fun _ =>
      if stop - start = 1 then .ok s.takeRoot
      else do
        let k ← splitPoint (stop - start)
        let middle ← add start k
        ensure (start < middle ∧ middle < stop) .endless fun _ => do
          let (left, s) ← rebuild ignoreMax first last start middle s
          let (right, s) ← rebuild ignoreMax first last middle stop s
          match left, right with
          | some left, some right => return (some (← join ignoreMax left right), s)
          | left, none => return (left, s)
          | none, some _ => throw (.refused (.refuted .missingLeftNode))
termination_by stop - start

/-- **Recomputing a root never breaks a run**, as long as the tree has a leaf. -/
theorem agrees_rebuild (ignoreMax : Bool) (first last size offset : Nat) (hsize : 0 < size)
    (hbound : offset + size < UInt64.size) (s : Supply) :
    Agrees (rebuild ignoreMax first last offset (offset + size) s)
      (SubtreeRoots.rebuild ignoreMax first last size offset s) := by
  induction h : size using Nat.strong_induction_on generalizing size offset s with
  | _ n ih =>
    subst h
    rw [rebuild, SubtreeRoots.rebuild]
    refine .ite (fun _ => .ok _) fun _ => .ite (fun _ => .ok _) fun _ => ?_
    refine .ensure (Nat.le_add_right _ _) ?_
    rw [Nat.add_sub_cancel_left]
    rcases Nat.lt_or_ge size 2 with hone | htwo
    · rw [if_pos (by omega), dif_neg (by omega)]
      exact .ok _
    · have hpos := Merkle.splitPoint_pos htwo
      have hlt := Merkle.splitPoint_lt htwo
      have hright : offset + size = offset + Merkle.splitPoint size +
          (size - Merkle.splitPoint size) := by omega
      rw [if_neg (by omega), dif_pos htwo, splitPoint_eq, Checked.ok_bind, add_eq (by omega),
        Checked.ok_bind]
      refine .ensure ⟨by omega, by omega⟩ ?_
      refine .bind (ih _ hlt _ _ hpos (by omega) s rfl) fun leftSide _ => ?_
      obtain ⟨left, s⟩ := leftSide
      rw [hright]
      refine .bind (ih _ (by omega) _ _ (by omega) (by omega) s rfl) fun rightSide _ => ?_
      obtain ⟨right, s⟩ := rightSide
      rcases left with _ | left <;> rcases right with _ | right
      · exact .ok _
      · exact .error rfl
      · exact .ok _
      · exact .bind (agrees_join ignoreMax left right) fun node _ => .ok _

/-! ### Checking subtree roots -/

/-- Checks that the subtree roots are in the tree of a row root, at the place of the proof's
range. -/
def verifySubtreeRoots (proof : NamespaceProof) (roots : List NamespacedHash) (width : Nat)
    (ns : Namespace) (rowRoot : NamespacedHash) : Except Stop Unit := do
  if proof.isOfAbsence then throw (.refused (.refuted .absenceOfRoots))
  rowRoot.validateOrder.mapError .refused
  if ns.isOutside rowRoot rowRoot then throw (.refused (.refuted (.namespaceOutside ns)))
  (SubtreeRoots.checkNamespace ns roots).mapError .refused
  let start := proof.start.toNat
  let stop := proof.stop.toNat
  let ranges ← leafRanges start stop width
  if ranges.length ≠ roots.length then
    throw (.refused (.refuted (.subtreeRootCount roots.length ranges.length)))
  let size := max (← mul 2 (← splitPoint stop)) 1
  let (root?, rest) ← rebuild proof.ignoreMax start stop 0 size ⟨ranges, roots, proof.nodes⟩
  let some root := root? | throw (.refused (.refuted .noCover))
  if !rest.roots.isEmpty then throw (.refused (.refuted .unusedRoots))
  let root ← rest.nodes.foldlM (join proof.ignoreMax) root
  if root ≠ rowRoot then throw (.refused (.refuted .otherRowRoot))

theorem agrees_checkNamespace (ns : Namespace) (roots : List NamespacedHash) :
    Agrees ((SubtreeRoots.checkNamespace ns roots).mapError .refused)
      (SubtreeRoots.checkNamespace ns roots) := by
  refine .ofCheck fun e h => ?_
  rw [SubtreeRoots.checkNamespace] at h
  split at h
  · cases h
  · rw [← Except.error.inj h]
    rfl

/-- The tree over a range that ends at a number of 32 bits is not too large. -/
theorem splitPoint_mul_two_lt {stop : Nat} (h : stop < 2 ^ 32) :
    2 * Merkle.splitPoint stop < UInt64.size - 1 := by
  have hle : Merkle.splitPoint stop ≤ stop := by
    rcases Nat.lt_or_ge stop 2 with hsmall | htwo
    · rw [Merkle.splitPoint, if_pos hsmall]
      exact Nat.zero_le stop
    · exact (Merkle.splitPoint_lt htwo).le
  unfold UInt64.size
  omega

/-- **Checking subtree roots never breaks a run.** -/
theorem agrees_verifySubtreeRoots (proof : NamespaceProof) (roots : List NamespacedHash)
    (width : Nat) (ns : Namespace) (rowRoot : NamespacedHash) :
    Agrees (verifySubtreeRoots proof roots width ns rowRoot)
      (SubtreeRoots.verify proof roots width ns rowRoot) := by
  have hstop : proof.stop.toNat < 2 ^ 32 := proof.stop.toNat_lt
  simp only [verifySubtreeRoots, SubtreeRoots.verify, Checked.throw_bind]
  refine .refuse rfl fun _ => ?_
  refine .bind (agrees_validateOrder rowRoot) fun _ _ => ?_
  refine .refuse rfl fun _ => ?_
  refine .bind (agrees_checkNamespace ns roots) fun _ _ => ?_
  refine .bind (agrees_leafRanges _ _ (hstop.trans (by decide))) fun ranges _ => ?_
  refine .refuse rfl fun _ => ?_
  have hsize := splitPoint_mul_two_lt hstop
  rw [splitPoint_eq, Checked.ok_bind, mul_eq (by omega), Checked.ok_bind]
  have htree := agrees_rebuild proof.ignoreMax proof.start.toNat proof.stop.toNat
    (max (2 * Merkle.splitPoint proof.stop.toNat) 1) 0 (by omega) (by omega)
    ⟨ranges, roots, proof.nodes⟩
  rw [Nat.zero_add] at htree
  refine .bind htree fun rebuilt _ => ?_
  obtain ⟨root?, rest⟩ := rebuilt
  rcases root? with _ | root
  · exact .error rfl
  refine .refuse rfl fun _ => ?_
  refine .bind (.foldlM (agrees_join proof.ignoreMax) rest.nodes root) fun root _ => ?_
  exact .refuse rfl fun _ => .ok ()

end Availability.Guarded
