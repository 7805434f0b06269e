import Availability.Proofs.Nmt.RangeProof
import Availability.Proofs.Nmt.SubtreeProof
import Mathlib.Data.List.TakeWhile

/-!
# The proof of a namespace verifies

A tree answers for a namespace with its leaves and with the nodes beside them. The tree that is made
up to check this may have more leaves on the right than the real one, or fewer; all that both have
in common is the way down to the last leaf of the range. Along this way they are split in the same
places, and everything to the left of it is alike.

* `Nmt.range_induct` – **walking down to a range** of leaves, as an induction on the leaves;
* `Nmt.exists_partsBeside` – the nodes beside a range, told apart;
* `NamespaceProof.rebuilds` – with them, the root is recomputed over **any tree with the same way
  down** to the last leaf;
* `Nmt.exists_append` – where the leaves of a namespace are;
* `Nmt.verifyComplete_prove` – the proof that a tree makes for a namespace **verifies**, with all of
  its leaves.
-/

namespace Availability

open Merkle (splitPoint splitPoint_pos splitPoint_lt length_take_splitPoint turns turns_of_lt
  turns_of_le turns_of_lt_two count_true_turns_zero count_false_turns_of_le)

namespace Nmt

/-! ### Walking down to a range -/

section Walk

variable {start stop : Nat}

/-- **Walking down to a range**: what holds of a single leaf of the range, and of a tree whenever it
holds of the sides that the range is in, holds of every tree that the range is in. -/
theorem range_induct (hlt : start < stop) (P : Nat → List Leaf → Prop)
    (one : ∀ {offset leaf}, start ≤ offset → offset < stop → P offset [leaf])
    (both : ∀ {offset leaves}, 2 ≤ leaves.length → start < offset + splitPoint leaves.length →
      offset + splitPoint leaves.length < stop → P offset (leaves.take (splitPoint leaves.length)) →
      P (offset + splitPoint leaves.length) (leaves.drop (splitPoint leaves.length)) →
      P offset leaves)
    (right : ∀ {offset leaves}, 2 ≤ leaves.length → offset + splitPoint leaves.length ≤ start →
      start < offset + leaves.length →
      P (offset + splitPoint leaves.length) (leaves.drop (splitPoint leaves.length)) →
      P offset leaves)
    (left : ∀ {offset leaves}, 2 ≤ leaves.length → offset < stop →
      stop ≤ offset + splitPoint leaves.length →
      P offset (leaves.take (splitPoint leaves.length)) → P offset leaves)
    {offset : Nat} {leaves : List Leaf} (hne : leaves ≠ []) (hlow : offset < stop)
    (hhigh : start < offset + leaves.length) : P offset leaves := by
  induction h : leaves.length using Nat.strong_induction_on generalizing leaves offset with
  | _ n ih =>
    subst h
    have hlength := List.length_pos_iff.mpr hne
    rcases Nat.lt_or_ge leaves.length 2 with hone | htwo
    · obtain ⟨leaf, rfl⟩ := List.length_eq_one_iff.mp (show leaves.length = 1 by omega)
      exact one (Nat.le_of_lt_succ hhigh) hlow
    have hpos := splitPoint_pos htwo
    have hsplit := splitPoint_lt htwo
    have htake := length_take_splitPoint htwo
    have hdrop : (leaves.drop (splitPoint leaves.length)).length =
        leaves.length - splitPoint leaves.length := List.length_drop
    have hleft (hstart : start < offset + splitPoint leaves.length) :
        P offset (leaves.take (splitPoint leaves.length)) :=
      ih _ hsplit (List.ne_nil_of_length_pos (by omega)) hlow (by omega) htake
    have hright (hstop : offset + splitPoint leaves.length < stop) :
        P (offset + splitPoint leaves.length) (leaves.drop (splitPoint leaves.length)) :=
      ih _ (by omega) (List.ne_nil_of_length_pos (by omega)) hstop (by omega) hdrop
    rcases Nat.lt_or_ge start (offset + splitPoint leaves.length) with hstart | hstart
    · rcases Nat.lt_or_ge (offset + splitPoint leaves.length) stop with hstop | hstop
      · exact both htwo hstart hstop (hleft hstart) (hright hstop)
      · exact left htwo hlow hstop (hleft hstart)
    · exact right htwo hstart hhigh (hright (by omega))

/-! ### Nodes beside a range -/

/-- The nodes beside a range, told apart: they are roots of parts of the leaves before it and of
parts of the leaves after it, as many as the ways down to the ends of the range have turns. -/
structure PartsBeside (start stop offset : Nat) (leaves : List Leaf)
    (before after : List (List Leaf)) : Prop where
  /-- The nodes are the roots of the parts. -/
  nodes_eq : nodesBeside start stop offset leaves = before.map rootOver ++ after.map rootOver
  /-- The parts before the range are all leaves there. -/
  flatten_before : before.flatten = leaves.take (start - offset)
  /-- The parts after the range are all leaves there. -/
  flatten_after : after.flatten = leaves.drop (stop - offset)
  /-- No part is empty. -/
  ne_nil : ∀ part ∈ before ++ after, part ≠ []
  /-- There is a part before the range for each turn to the right. -/
  length_before : before.length = (turns (start - offset) leaves.length).count true
  /-- There is a part after the range for each turn to the left. -/
  length_after : after.length = (turns (stop - 1 - offset) leaves.length).count false

section Sides

variable {offset : Nat} {leaves : List Leaf} (htwo : 2 ≤ leaves.length)
include htwo

/-- With the range in both sides, there is nothing between them. -/
theorem PartsBeside.both (hstart : start < offset + splitPoint leaves.length)
    (hstop : offset + splitPoint leaves.length < stop) {before₁ after₁ before₂ after₂}
    (h₁ : PartsBeside start stop offset (leaves.take (splitPoint leaves.length)) before₁ after₁)
    (h₂ : PartsBeside start stop (offset + splitPoint leaves.length)
      (leaves.drop (splitPoint leaves.length)) before₂ after₂) :
    PartsBeside start stop offset leaves before₁ after₂ := by
  have hpos := splitPoint_pos htwo
  have hsplit := splitPoint_lt htwo
  have hafter := h₁.length_after
  rw [length_take_splitPoint htwo, count_false_turns_of_le (by omega),
    List.length_eq_zero_iff] at hafter
  have hbefore := h₂.length_before
  rw [Nat.sub_eq_zero_of_le hstart.le, count_true_turns_zero, List.length_eq_zero_iff] at hbefore
  subst hafter hbefore
  refine ⟨?_, ?_, ?_, ?_, ?_, ?_⟩
  · rw [nodesBeside_of_two_le (by omega) htwo, h₁.nodes_eq, h₂.nodes_eq]
    simp
  · rw [h₁.flatten_before, List.take_take, min_eq_left (by omega)]
  · rw [h₂.flatten_after, List.drop_drop]
    congr 1
    omega
  · intro part hpart
    rcases List.mem_append.mp hpart with hpart | hpart
    · exact h₁.ne_nil part (List.mem_append_left _ hpart)
    · exact h₂.ne_nil part (List.mem_append_right _ hpart)
  · rw [h₁.length_before, turns_of_lt htwo (by omega), List.count_cons_of_ne (by decide),
      length_take_splitPoint htwo]
  · rw [h₂.length_after, turns_of_le htwo (by omega), List.count_cons_of_ne (by decide),
      Nat.sub_sub (stop - 1), List.length_drop]

/-- With the range in the right side, the left side is one more part before it. -/
theorem PartsBeside.right (hlt : start < stop) (hstart : offset + splitPoint leaves.length ≤ start)
    (hhigh : start < offset + leaves.length) {before after}
    (h : PartsBeside start stop (offset + splitPoint leaves.length)
      (leaves.drop (splitPoint leaves.length)) before after) :
    PartsBeside start stop offset leaves (leaves.take (splitPoint leaves.length) :: before)
      after := by
  have hpos := splitPoint_pos htwo
  have htake := length_take_splitPoint htwo
  refine ⟨?_, ?_, ?_, ?_, ?_, ?_⟩
  · rw [nodesBeside_of_two_le (by omega) htwo, h.nodes_eq,
      nodesBeside_of_outside (Or.inr (by rw [htake]; exact hstart))]
    rfl
  · rw [List.flatten_cons, h.flatten_before, ← List.take_add]
    congr 1
    omega
  · rw [h.flatten_after, List.drop_drop]
    congr 1
    omega
  · intro part hpart
    rcases List.mem_cons.mp hpart with rfl | hpart
    · exact List.ne_nil_of_length_pos (by omega)
    · exact h.ne_nil part hpart
  · rw [List.length_cons, h.length_before, turns_of_le htwo (by omega), List.count_cons_self,
      Nat.sub_sub, List.length_drop]
  · rw [h.length_after, turns_of_le htwo (by omega), List.count_cons_of_ne (by decide),
      Nat.sub_sub (stop - 1), List.length_drop]

/-- With the range in the left side, the right side is one more part after it. -/
theorem PartsBeside.left (hlt : start < stop) (hlow : offset < stop)
    (hstop : stop ≤ offset + splitPoint leaves.length) {before after}
    (h : PartsBeside start stop offset (leaves.take (splitPoint leaves.length)) before after) :
    PartsBeside start stop offset leaves before
      (after ++ [leaves.drop (splitPoint leaves.length)]) := by
  have hsplit := splitPoint_lt htwo
  have htake := length_take_splitPoint htwo
  refine ⟨?_, ?_, ?_, ?_, ?_, ?_⟩
  · rw [nodesBeside_of_two_le (by omega) htwo, h.nodes_eq, nodesBeside_of_outside (Or.inl hstop)]
    simp
  · rw [h.flatten_before, List.take_take, min_eq_left (by omega)]
  · rw [List.flatten_append, h.flatten_after, List.flatten_singleton]
    conv_rhs => rw [← List.take_append_drop (splitPoint leaves.length) leaves]
    rw [List.drop_append_of_le_length (by omega)]
  · intro part hpart
    rw [← List.append_assoc, List.mem_append, List.mem_singleton] at hpart
    rcases hpart with hpart | rfl
    · exact h.ne_nil part hpart
    · exact List.ne_nil_of_length_pos (by rw [List.length_drop]; omega)
  · rw [h.length_before, turns_of_lt htwo (by omega), List.count_cons_of_ne (by decide), htake]
  · rw [List.length_append, h.length_after, turns_of_lt htwo (by omega), List.count_cons_self,
      htake]
    rfl

end Sides

/-- **The nodes beside a range can be told apart.** -/
theorem exists_partsBeside (hlt : start < stop) {offset : Nat} {leaves : List Leaf}
    (hne : leaves ≠ []) (hlow : offset < stop) (hhigh : start < offset + leaves.length) :
    ∃ before after, PartsBeside start stop offset leaves before after := by
  refine range_induct hlt (fun offset leaves =>
    ∃ before after, PartsBeside start stop offset leaves before after) ?one ?both ?right ?left
    hne hlow hhigh
  case one =>
    intro offset leaf hstart hstop
    refine ⟨[], [], ?_, ?_, ?_, by simp, ?_, ?_⟩
    · rw [nodesBeside_of_inside (List.cons_ne_nil _ _) hstart hstop]
      rfl
    · rw [Nat.sub_eq_zero_of_le hstart]
      rfl
    · rw [List.drop_of_length_le (by rw [List.length_singleton]; omega)]
      rfl
    · rw [turns_of_lt_two (by simp)]
      rfl
    · rw [turns_of_lt_two (by simp)]
      rfl
  case both =>
    rintro offset leaves htwo hstart hstop ⟨before, after₁, h₁⟩ ⟨before₂, after, h₂⟩
    exact ⟨before, after, h₁.both htwo hstart hstop h₂⟩
  case right =>
    rintro offset leaves htwo hstart hhigh ⟨before, after, h⟩
    exact ⟨_, after, h.right htwo hlt hstart hhigh⟩
  case left =>
    rintro offset leaves htwo hlow hstop ⟨before, after, h⟩
    exact ⟨before, _, h.left htwo hlt hlow hstop⟩

end Walk

end Nmt

namespace NamespaceProof

open Nmt (Leaf rootOver nodesBeside leafHashes)

/-! ### Recomputing the root -/

section Rebuild

variable {start stop : Nat}

/-- The leaves of a range that are in a tree which begins at `offset`. -/
def leavesWithin (start stop offset : Nat) (leaves : List Leaf) : List Leaf :=
  (leaves.take (stop - offset)).drop (start - offset)

theorem length_leafHashes_leavesWithin (start stop offset : Nat) (leaves : List Leaf) :
    (leafHashes (leavesWithin start stop offset leaves)).length =
      min (stop - offset) leaves.length - (start - offset) := by
  rw [leafHashes, List.length_map, leavesWithin, List.length_drop, List.length_take]

/-- The leaves within a tree are those within its sides. -/
theorem leavesWithin_append (start stop offset : Nat) (left right : List Leaf) :
    leavesWithin start stop offset (left ++ right) =
      leavesWithin start stop offset left ++
        leavesWithin start stop (offset + left.length) right := by
  simp only [leavesWithin, List.take_append, List.drop_append, List.length_take, Nat.sub_add_eq]
  congr 1
  rcases Nat.lt_or_ge (stop - offset) left.length with hlt | hle
  · rw [Nat.sub_eq_zero_of_le hlt.le, List.take_zero, List.drop_nil, List.drop_nil]
  · rw [min_eq_right hle]

theorem leavesWithin_eq_nil {offset : Nat} {leaves : List Leaf}
    (h : stop ≤ offset ∨ offset + leaves.length ≤ start) :
    leavesWithin start stop offset leaves = [] := by
  refine List.eq_nil_of_length_eq_zero ?_
  rw [leavesWithin, List.length_drop, List.length_take]
  omega

/-- Two sides in ascending order are joined. -/
theorem joinSides_take_drop {leaves : List Leaf} (hasc : leaves.Pairwise fun a b => a.ns ≤ b.ns)
    (htwo : 2 ≤ leaves.length) :
    joinSides true (rootOver (leaves.take (splitPoint leaves.length)))
      (rootOver (leaves.drop (splitPoint leaves.length))) = .ok (rootOver leaves) := by
  obtain ⟨hleft, hright, hmiddle, hnode⟩ :=
    SubtreeRoots.join_eq_ok_iff.mp (Nmt.join_take_drop hasc htwo)
  exact joinSides_eq_ok_iff.mpr ⟨⟨hleft, hright, hmiddle⟩, hnode⟩

/-- The last leaf of a tree of `size` leaves, from `offset` on, that is not after the range. -/
def lastIndex (stop offset size : Nat) : Nat :=
  min (stop - 1 - offset) (size - 1)

theorem lastIndex_lt {stop offset size : Nat} (h : 0 < size) : lastIndex stop offset size < size :=
  (min_le_right _ _).trans_lt (Nat.sub_one_lt h.ne')

/-- On the right side, the way down goes on as that in the whole tree. -/
theorem turns_lastIndex_right {stop offset n size : Nat} (htwo : 2 ≤ n) (hsize : 2 ≤ size)
    (hk : splitPoint n = splitPoint size) (hstop : offset + splitPoint n < stop)
    (hlt : lastIndex stop offset n < size)
    (h : turns (lastIndex stop offset n) size = turns (lastIndex stop offset n) n) :
    lastIndex stop (offset + splitPoint n) (n - splitPoint n) < size - splitPoint n ∧
      turns (lastIndex stop (offset + splitPoint n) (n - splitPoint n)) (size - splitPoint n) =
        turns (lastIndex stop (offset + splitPoint n) (n - splitPoint n)) (n - splitPoint n) := by
  have hsplit := splitPoint_lt htwo
  have hindex : lastIndex stop (offset + splitPoint n) (n - splitPoint n) =
      lastIndex stop offset n - splitPoint n := by
    unfold lastIndex
    omega
  have hle : splitPoint n ≤ lastIndex stop offset n := by
    unfold lastIndex
    omega
  rw [turns_of_le hsize (hk ▸ hle), turns_of_le htwo hle, ← hk] at h
  rw [hindex]
  exact ⟨by omega, (List.cons.inj h).2⟩

/-- **A tree is recomputed from what is its own**: whatever else is at hand, the last leaves within
the tree and the last nodes beside the range give its root, over every number of leaves with the
same way down to the last one that counts. -/
def Rebuilds (start stop offset : Nat) (leaves : List Leaf) : Prop :=
  ∀ (size : Nat) (before nodes : List NamespacedHash), before.length = offset - start →
    lastIndex stop offset leaves.length < size →
    turns (lastIndex stop offset leaves.length) size =
      turns (lastIndex stop offset leaves.length) leaves.length →
    rebuild true start size offset
        ⟨(leafHashes (leavesWithin start stop offset leaves)).reverse ++ before,
          (nodesBeside start stop offset leaves).reverse ++ nodes⟩ =
      .ok (rootOver leaves, ⟨before, nodes⟩)

/-- A right side without leaves is the last node. -/
theorem rebuildRight_of_le {ignoreMax : Bool} {size offset : Nat}
    {leaves nodes : List NamespacedHash} {node : NamespacedHash}
    (h : start + leaves.length ≤ offset + splitPoint size) :
    rebuildRight ignoreMax start size offset ⟨leaves, node :: nodes⟩ =
      .ok (node, ⟨leaves, nodes⟩) := by
  rw [rebuildRight, if_neg (not_lt.mpr h)]
  rfl

theorem rebuilds_singleton {offset : Nat} {leaf : Leaf} (hstart : start ≤ offset)
    (hstop : offset < stop) : Rebuilds start stop offset [leaf] := by
  intro size before nodes hbefore hlt hturns
  have hone : size < 2 := by
    by_contra htwo
    rw [lastIndex, List.length_singleton, Nat.sub_self, Nat.min_zero,
      turns_of_lt_two Nat.one_lt_two, turns_of_lt (by omega) (splitPoint_pos (by omega))] at hturns
    simp at hturns
  have hwithin : leavesWithin start stop offset [leaf] = [leaf] := by
    rw [leavesWithin, List.take_of_length_le (by rw [List.length_singleton]; omega),
      Nat.sub_eq_zero_of_le hstart, List.drop_zero]
  have hnodes : nodesBeside start stop offset [leaf] = [] :=
    Nmt.nodesBeside_of_inside (List.cons_ne_nil _ _) hstart hstop
  rw [rebuild_of_lt_two hone, hwithin, hnodes, Nmt.rootOver_singleton]
  rfl

section Sides

variable {offset : Nat} {leaves : List Leaf} (htwo : 2 ≤ leaves.length)
include htwo

/-- The leaves within a tree, by its sides. -/
theorem leavesWithin_sides (start stop offset : Nat) :
    leavesWithin start stop offset leaves =
      leavesWithin start stop offset (leaves.take (splitPoint leaves.length)) ++
        leavesWithin start stop (offset + splitPoint leaves.length)
          (leaves.drop (splitPoint leaves.length)) := by
  have h := leavesWithin_append start stop offset (leaves.take (splitPoint leaves.length))
    (leaves.drop (splitPoint leaves.length))
  rwa [List.take_append_drop, length_take_splitPoint htwo] at h

variable (hasc : leaves.Pairwise fun a b => a.ns ≤ b.ns)
include hasc

/-- With the range in both sides, the right one is recomputed first, from the last leaves and the
last nodes. -/
theorem Rebuilds.both (hstart : start < offset + splitPoint leaves.length)
    (hstop : offset + splitPoint leaves.length < stop)
    (hleft : Rebuilds start stop offset (leaves.take (splitPoint leaves.length)))
    (hright : Rebuilds start stop (offset + splitPoint leaves.length)
      (leaves.drop (splitPoint leaves.length))) : Rebuilds start stop offset leaves := by
  intro size before nodes hbefore hlt hturns
  have hpos := splitPoint_pos htwo
  have hsplit := splitPoint_lt htwo
  have htake := length_take_splitPoint htwo
  obtain ⟨hsize, hk⟩ := Merkle.splitPoint_eq_of_turns_eq (lastIndex_lt (by omega)) hlt hturns.symm
    htwo
  obtain ⟨hrightLt, hrightTurns⟩ := turns_lastIndex_right htwo hsize hk hstop hlt hturns
  have hwithin := length_leafHashes_leavesWithin start stop offset leaves
  have hwithinLeft := length_leafHashes_leavesWithin start stop offset
    (leaves.take (splitPoint leaves.length))
  rw [htake] at hwithinLeft
  have hmiddle : offset + splitPoint leaves.length <
      start + ((leafHashes (leavesWithin start stop offset leaves)).reverse ++ before).length := by
    rw [List.length_append, List.length_reverse]
    omega
  have hrest := hright (size - splitPoint leaves.length)
    ((leafHashes (leavesWithin start stop offset
      (leaves.take (splitPoint leaves.length)))).reverse ++ before)
    ((nodesBeside start stop offset (leaves.take (splitPoint leaves.length))).reverse ++ nodes)
    (by rw [List.length_append, List.length_reverse]; omega)
    (by rwa [List.length_drop]) (by rwa [List.length_drop])
  refine (rebuild_eq_ok_iff hsize).mpr
    ⟨_, _, _, Eq.trans ?_ hrest, ?_, joinSides_take_drop hasc htwo⟩
  · rw [rebuildRight, ← hk, if_pos hmiddle, leavesWithin_sides htwo,
      Nmt.nodesBeside_of_two_le (by omega) htwo, leafHashes, List.map_append, List.reverse_append,
      List.reverse_append, List.append_assoc, List.append_assoc]
    rfl
  · rw [rebuildLeft, ← hk, if_pos hstart]
    exact hleft _ before nodes hbefore (by rw [htake]; exact lastIndex_lt hpos) (by rw [htake])

/-- With the range in the right side, the left one is the next node. -/
theorem Rebuilds.right (hlt : start < stop)
    (hstart : offset + splitPoint leaves.length ≤ start) (hhigh : start < offset + leaves.length)
    (hright : Rebuilds start stop (offset + splitPoint leaves.length)
      (leaves.drop (splitPoint leaves.length))) : Rebuilds start stop offset leaves := by
  intro size before nodes hbefore hindex hturns
  have htake := length_take_splitPoint htwo
  obtain ⟨hsize, hk⟩ := Merkle.splitPoint_eq_of_turns_eq (lastIndex_lt (by omega)) hindex
    hturns.symm htwo
  obtain ⟨hrightLt, hrightTurns⟩ := turns_lastIndex_right htwo hsize hk (by omega) hindex hturns
  have hwithin := length_leafHashes_leavesWithin start stop offset leaves
  have hmiddle : offset + splitPoint leaves.length <
      start + ((leafHashes (leavesWithin start stop offset leaves)).reverse ++ before).length := by
    rw [List.length_append, List.length_reverse]
    omega
  have hout : stop ≤ offset ∨
      offset + (leaves.take (splitPoint leaves.length)).length ≤ start := Or.inr (by omega)
  have hrest := hright (size - splitPoint leaves.length) before
    (rootOver (leaves.take (splitPoint leaves.length)) :: nodes) (by omega)
    (by rwa [List.length_drop]) (by rwa [List.length_drop])
  refine (rebuild_eq_ok_iff hsize).mpr
    ⟨_, _, _, Eq.trans ?_ hrest, ?_, joinSides_take_drop hasc htwo⟩
  · rw [rebuildRight, ← hk, if_pos hmiddle, leavesWithin_sides htwo, leavesWithin_eq_nil hout,
      Nmt.nodesBeside_of_two_le (by omega) htwo, Nmt.nodesBeside_of_outside hout, List.nil_append,
      List.reverse_append, List.append_assoc]
    rfl
  · rw [rebuildLeft, ← hk, if_neg (by omega)]
    rfl

/-- With the range in the left side, the right one is the last node. -/
theorem Rebuilds.left (hlt : start < stop) (hlow : offset < stop)
    (hstop : stop ≤ offset + splitPoint leaves.length)
    (hleft : Rebuilds start stop offset (leaves.take (splitPoint leaves.length))) :
    Rebuilds start stop offset leaves := by
  intro size before nodes hbefore hindex hturns
  have hpos := splitPoint_pos htwo
  have hsplit := splitPoint_lt htwo
  have htake := length_take_splitPoint htwo
  obtain ⟨hsize, hk⟩ := Merkle.splitPoint_eq_of_turns_eq (lastIndex_lt (by omega)) hindex
    hturns.symm htwo
  have hwithin := length_leafHashes_leavesWithin start stop offset
    (leaves.take (splitPoint leaves.length))
  rw [htake] at hwithin
  have hmiddle : ¬offset + splitPoint leaves.length <
      start + ((leafHashes (leavesWithin start stop offset
        (leaves.take (splitPoint leaves.length)))).reverse ++ before).length := by
    rw [List.length_append, List.length_reverse]
    omega
  rw [leavesWithin_sides htwo, leavesWithin_eq_nil (Or.inl hstop), List.append_nil,
    Nmt.nodesBeside_of_two_le (by omega) htwo, Nmt.nodesBeside_of_outside (Or.inl hstop),
    List.reverse_append]
  refine (rebuild_eq_ok_iff hsize).mpr
    ⟨_, _, _, rebuildRight_of_le (not_lt.mp (hk ▸ hmiddle)), ?_, joinSides_take_drop hasc htwo⟩
  rw [rebuildLeft, ← hk, if_pos (by omega)]
  exact hleft _ before nodes hbefore (by rw [htake]; exact lastIndex_lt hpos) (by rw [htake])

end Sides

/-- **The root is recomputed from the leaves of a range and the nodes beside it.** -/
theorem rebuilds {offset : Nat} {leaves : List Leaf} (hlt : start < stop)
    (hasc : leaves.Pairwise fun a b => a.ns ≤ b.ns) (hne : leaves ≠ []) (hlow : offset < stop)
    (hhigh : start < offset + leaves.length) : Rebuilds start stop offset leaves := by
  refine Nmt.range_induct hlt (fun offset leaves =>
    (leaves.Pairwise fun a b => a.ns ≤ b.ns) → Rebuilds start stop offset leaves)
    ?one ?both ?right ?left hne hlow hhigh hasc
  case one => exact fun hstart hstop _ => rebuilds_singleton hstart hstop
  case both =>
    intro offset leaves htwo hstart hstop hleft hright hasc
    exact .both htwo hasc hstart hstop (hleft (hasc.sublist (List.take_sublist _ _)))
      (hright (hasc.sublist (List.drop_sublist _ _)))
  case right =>
    intro offset leaves htwo hstart hhigh hright hasc
    exact .right htwo hasc hlt hstart hhigh (hright (hasc.sublist (List.drop_sublist _ _)))
  case left =>
    intro offset leaves htwo hlow hstop hleft hasc
    exact .left htwo hasc hlt hlow hstop (hleft (hasc.sublist (List.take_sublist _ _)))

end Rebuild

/-! ### Checking a range -/

/-- The leaf hashes of a range. -/
def hashesBetween (leaves : List Leaf) (start stop : Nat) : List NamespacedHash :=
  leafHashes ((leaves.take stop).drop start)

theorem length_hashesBetween (start : Nat) {stop : Nat} {leaves : List Leaf}
    (hstop : stop ≤ leaves.length) :
    (hashesBetween leaves start stop).length = stop - start := by
  rw [hashesBetween, leafHashes, List.length_map, List.length_drop, List.length_take_of_le hstop]

/-- **The nodes beside a range are accepted with its leaves**, and told apart as they are. -/
theorem exists_checkLeaves_eq_ok (proof : NamespaceProof) {leaves : List Leaf} {stop : Nat}
    (hasc : leaves.Pairwise fun a b => a.ns ≤ b.ns) (hsize : leaves.length ≤ 2 ^ 31)
    (hlt : proof.start.toNat < stop) (hstop : stop ≤ leaves.length)
    (hnodes : proof.nodes = nodesBeside proof.start.toNat stop 0 leaves)
    (hignore : proof.ignoreMax = true) :
    ∃ before after, Nmt.PartsBeside proof.start.toNat stop 0 leaves before after ∧
      proof.nodes.take (leftNodes proof.start.toNat) = before.map rootOver ∧
      proof.checkLeaves (rootOver leaves) (hashesBetween leaves proof.start.toNat stop) =
        .ok (isComplete (hashesBetween leaves proof.start.toNat stop) (before.map rootOver)
          (after.map rootOver)) := by
  have hne : leaves ≠ [] := List.ne_nil_of_length_pos (by omega)
  have hlength := length_hashesBetween proof.start.toNat hstop
  obtain ⟨before, after, h⟩ := Nmt.exists_partsBeside hlt hne (Nat.zero_lt_of_lt hlt) (by omega)
  have hsplit : proof.nodes = before.map rootOver ++ after.map rootOver := hnodes.trans h.nodes_eq
  have hleft : (before.map rootOver).length = leftNodes proof.start.toNat := by
    have hbits : proof.start.toNat < 2 ^ 64 := proof.start.toNat_lt.trans (by norm_num)
    rw [List.length_map, h.length_before, Nat.sub_zero, Merkle.count_true_turns (by omega) hbits]
    rfl
  refine ⟨before, after, h, by rw [hsplit, List.take_left' hleft], ?_⟩
  by_cases hsingle : proof.nodes = [] ∧ stop - proof.start.toNat < 2
  · -- without nodes beside it, the range is the whole tree
    obtain ⟨hnil, hone⟩ := hsingle
    rw [hsplit, List.append_eq_nil_iff, List.map_eq_nil_iff, List.map_eq_nil_iff] at hnil
    obtain ⟨rfl, rfl⟩ := hnil
    have hbefore := congrArg List.length h.flatten_before
    have hafter := congrArg List.length h.flatten_after
    rw [List.flatten_nil, List.length_nil, List.length_take] at hbefore
    rw [List.flatten_nil, List.length_nil, List.length_drop] at hafter
    obtain ⟨leaf, rfl⟩ := List.length_eq_one_iff.mp (show leaves.length = 1 by omega)
    obtain rfl : stop = 1 := by omega
    have hstart : proof.start.toNat = 0 := by omega
    rw [hstart]
    exact (checkLeaves_singleton hsplit).mpr
      ⟨(Nmt.rootOver_singleton leaf).symm, UInt32.toNat_inj.mp hstart, rfl⟩
  · have hright : (after.map rootOver).length = (turns (stop - 1) leaves.length).count false := by
      rw [List.length_map, h.length_after, Nat.sub_zero]
    obtain ⟨size, htreeSize, hlast, hturns⟩ :=
      exists_treeSize (show stop - 1 < leaves.length by omega) hsize
    refine (checkLeaves_eq_ok_iff (List.ne_nil_of_length_pos (by omega)) fun hnil => ?_).mpr
      ⟨?_, ⟨size, ⟨[], []⟩, ?_, ?_⟩, ?_⟩
    · by_contra hone
      exact hsingle ⟨hnil, by omega⟩
    · rw [hsplit, List.length_append]
      omega
    · rw [hsplit, List.length_append, hleft, Nat.add_sub_cancel_left, hright, hlength,
        show proof.start.toNat + (stop - proof.start.toNat) - 1 = stop - 1 by omega, htreeSize]
    · have hindex : lastIndex stop 0 leaves.length = stop - 1 := by
        unfold lastIndex
        omega
      have hrebuild := rebuilds hlt hasc hne (Nat.zero_lt_of_lt hlt)
        (show proof.start.toNat < 0 + leaves.length by omega) size [] [] (Nat.zero_sub _).symm
        (by rwa [hindex]) (by rwa [hindex])
      rw [List.append_nil, List.append_nil, ← hnodes] at hrebuild
      rw [hignore]
      exact hrebuild
    · rw [hsplit, List.take_left' hleft, List.drop_left' hleft]

end NamespaceProof

namespace Nmt

/-! ### The leaves of a namespace -/

/-- What is left of leaves in ascending order after a condition that only holds at their front. -/
theorem not_of_mem_dropWhile {leaves : List Leaf} (hasc : leaves.Pairwise fun a b => a.ns ≤ b.ns)
    {p : Leaf → Bool} (hp : ∀ a b : Leaf, a.ns ≤ b.ns → p b = true → p a = true) {leaf : Leaf}
    (hleaf : leaf ∈ leaves.dropWhile p) : ¬p leaf = true := by
  induction leaves with
  | nil => simp at hleaf
  | cons first rest ih =>
    obtain ⟨hfirst, hrest⟩ := List.pairwise_cons.mp hasc
    by_cases hpfirst : p first = true
    · rw [List.dropWhile_cons_of_pos hpfirst] at hleaf
      exact ih hrest hleaf
    · rw [List.dropWhile_cons_of_neg hpfirst] at hleaf
      rcases List.mem_cons.mp hleaf with rfl | hleaf
      · exact hpfirst
      · exact fun h => hpfirst (hp first leaf (hfirst leaf hleaf) h)

/-- **The leaves of a namespace stand side by side**, after those below it and before those above
it. -/
theorem exists_append (tree : Nmt) (ns : Namespace) :
    ∃ below run above, tree.leaves = below ++ run ++ above ∧
      (∀ leaf ∈ below, leaf.ns < ns) ∧ (∀ leaf ∈ run, leaf.ns = ns) ∧
      (∀ leaf ∈ above, ns < leaf.ns) ∧
      (tree.leaves.filter fun leaf => leaf.ns = ns) = run ∧ tree.lowerBound ns = below.length ∧
      tree.count ns = run.length := by
  have hasc := ascending_iff.mp tree.ascending_leaves
  set rest := tree.leaves.dropWhile fun leaf => leaf.ns < ns with hrest
  have hascRest : rest.Pairwise fun a b => a.ns ≤ b.ns := hasc.sublist (List.dropWhile_sublist _)
  have hbelow : ∀ leaf ∈ tree.leaves.takeWhile fun leaf => leaf.ns < ns, leaf.ns < ns :=
    fun leaf hleaf => by simpa using List.mem_takeWhile_imp hleaf
  have hfrom : ∀ leaf ∈ rest, ns ≤ leaf.ns := by
    intro leaf hleaf
    have h := not_of_mem_dropWhile hasc
      (fun a b hab hb => by simpa using hab.trans_lt (by simpa using hb)) hleaf
    simpa using h
  have hrun : ∀ leaf ∈ rest.takeWhile fun leaf => leaf.ns ≤ ns, leaf.ns = ns := by
    intro leaf hleaf
    have hle : leaf.ns ≤ ns := by simpa using List.mem_takeWhile_imp hleaf
    exact le_antisymm hle (hfrom leaf ((List.takeWhile_sublist _).subset hleaf))
  have habove : ∀ leaf ∈ rest.dropWhile fun leaf => leaf.ns ≤ ns, ns < leaf.ns := by
    intro leaf hleaf
    have h := not_of_mem_dropWhile hascRest
      (fun a b hab hb => by simpa using hab.trans (by simpa using hb)) hleaf
    simpa using h
  have hleaves : tree.leaves = (tree.leaves.takeWhile fun leaf => leaf.ns < ns) ++
      (rest.takeWhile fun leaf => leaf.ns ≤ ns) ++ rest.dropWhile fun leaf => leaf.ns ≤ ns := by
    rw [List.append_assoc, List.takeWhile_append_dropWhile, List.takeWhile_append_dropWhile]
  have hfilter : (tree.leaves.filter fun leaf => leaf.ns = ns) =
      rest.takeWhile fun leaf => leaf.ns ≤ ns := by
    rw [hleaves]
    exact filter_ns_eq (fun leaf hleaf => (hbelow leaf hleaf).ne) hrun
      fun leaf hleaf => (habove leaf hleaf).ne'
  refine ⟨_, _, _, hleaves, hbelow, hrun, habove, hfilter, rfl, ?_⟩
  rw [count, List.countP_eq_length_filter, hfilter]

/-! ### The proof for a namespace -/

section Beside

variable {ns : Namespace} {parts : List (List Leaf)} (hparts : ∀ part ∈ parts, part ≠ [])
  {node : NamespacedHash} (hnode : node ∈ parts.map rootOver)
include hparts hnode

/-- Nodes over leaves below a namespace end below it. -/
theorem max_lt_of_mem_map (hbelow : ∀ leaf ∈ parts.flatten, leaf.ns < ns) : node.max < ns := by
  obtain ⟨part, hpart, rfl⟩ := List.mem_map.mp hnode
  obtain ⟨leaf, hleaf, hmax⟩ := exists_ns_eq_rootOver_max (hparts part hpart)
  exact hmax ▸ hbelow leaf (List.mem_flatten.mpr ⟨part, hpart, hleaf⟩)

/-- Nodes over leaves above a namespace begin above it. -/
theorem lt_min_of_mem_map (habove : ∀ leaf ∈ parts.flatten, ns < leaf.ns) : ns < node.min := by
  obtain ⟨part, hpart, rfl⟩ := List.mem_map.mp hnode
  obtain ⟨leaf, hleaf, hmin⟩ := exists_ns_eq_rootOver_min (hparts part hpart)
  exact hmin ▸ habove leaf (List.mem_flatten.mpr ⟨part, hpart, hleaf⟩)

end Beside

variable {tree : Nmt} {ns : Namespace}

/-- The largest namespace of a root is that of a leaf, which no namespace in its range is above. -/
theorem exists_le_of_contains (hin : tree.root.contains ns = true) :
    ∃ leaf ∈ tree.leaves, ns ≤ leaf.ns := by
  obtain ⟨-, hmax, hnonempty⟩ := NamespacedHash.contains_iff.mp hin
  have hne : tree.leaves ≠ [] := by
    intro hnil
    exact hnonempty (show rootOver tree.leaves = _ by rw [hnil, rootOver_nil])
  obtain ⟨leaf, hleaf, hleafMax⟩ := exists_ns_eq_rootOver_max hne
  exact ⟨leaf, hleaf, hleafMax ▸ hmax⟩

/-- The leaves of a namespace are hashed from their data. -/
theorem map_ofLeaf_dataOf (tree : Nmt) (ns : Namespace) :
    (tree.dataOf ns).map (NamespacedHash.ofLeaf ns) =
      leafHashes (tree.leaves.filter fun leaf => leaf.ns = ns) := by
  rw [dataOf, List.map_map, leafHashes]
  refine List.map_congr_left fun leaf hleaf => ?_
  obtain rfl : leaf.ns = ns := by simpa using (List.mem_filter.mp hleaf).2
  rfl

/-- What a proof of a range says about its place. -/
theorem toNat_proveRange (tree : Nmt) {start stop : Nat} (hlt : start < stop)
    (hstop : stop ≤ tree.leaves.length) (hsize : tree.leaves.length ≤ 2 ^ 31) :
    (tree.proveRange start stop).start.toNat = start ∧
      (tree.proveRange start stop).stop.toNat = stop :=
  ⟨UInt32.toNat_ofNat_of_lt' (by rw [UInt32.size]; omega),
    UInt32.toNat_ofNat_of_lt' (by rw [UInt32.size]; omega)⟩

section Contains

variable (hin : tree.root.contains ns = true) (hsize : tree.leaves.length ≤ 2 ^ 31)
include hin hsize

/-- The proof that the leaves of a namespace are there verifies. -/
theorem verifyComplete_prove_of_count_pos (hcount : 0 < tree.count ns) :
    (tree.prove ns).goal = .presence ∧
      (tree.prove ns).verifyComplete tree.root (tree.dataOf ns) ns = .ok () := by
  have hasc := ascending_iff.mp tree.ascending_leaves
  obtain ⟨below, run, above, hleaves, hbelow, hrun, habove, hfilter, hstart, hlength⟩ :=
    exists_append tree ns
  have hprove : tree.prove ns =
      tree.proveRange (tree.lowerBound ns) (tree.lowerBound ns + tree.count ns) := by
    rw [prove, hin, if_neg (by decide), if_pos hcount]
  have hstop : below.length + run.length ≤ tree.leaves.length := by
    rw [hleaves, List.length_append, List.length_append]
    omega
  have hdata : (tree.dataOf ns).map (NamespacedHash.ofLeaf ns) = leafHashes run := by
    rw [map_ofLeaf_dataOf, hfilter]
  have hdataLength : (tree.dataOf ns).length = run.length := by
    rw [dataOf, hfilter, List.length_map]
  rw [hlength] at hcount
  rw [hprove, hstart, hlength]
  obtain ⟨hstartNat, hstopNat⟩ :=
    toNat_proveRange tree (Nat.lt_add_of_pos_right hcount) hstop hsize
  obtain ⟨before, after, hparts, -, hcheck⟩ := NamespaceProof.exists_checkLeaves_eq_ok
    (tree.proveRange below.length (below.length + run.length)) hasc hsize
    (by rw [hstartNat]; exact Nat.lt_add_of_pos_right hcount) hstop (by rw [hstartNat]; rfl) rfl
  rw [hstartNat] at hparts hcheck
  have hbefore : before.flatten = below := by
    rw [hparts.flatten_before, hleaves, List.append_assoc]
    exact List.take_left
  have hafter : after.flatten = above := by
    rw [hparts.flatten_after, hleaves, Nat.sub_zero, ← List.length_append]
    exact List.drop_left
  have hbetween : NamespaceProof.hashesBetween tree.leaves below.length
      (below.length + run.length) = leafHashes run := by
    rw [NamespaceProof.hashesBetween, hleaves, ← List.length_append, List.take_left,
      List.drop_left]
  rw [hbetween] at hcheck
  refine ⟨rfl, (NamespaceProof.verifyComplete_eq_ok_iff_of_presence rfl).mpr
    ⟨?_, Or.inr ⟨hin, ?_⟩⟩⟩
  · rw [hdataLength, NamespaceProof.leafCount, hstartNat, hstopNat, Nat.add_sub_cancel_left]
  rw [hdata]
  refine hcheck.trans (congrArg _ ?_)
  have hne : leafHashes run ≠ [] := by
    rw [leafHashes, ne_eq, List.map_eq_nil_iff]
    exact List.ne_nil_of_length_pos hcount
  have hashNs : ∀ hash ∈ leafHashes run, hash.min = ns ∧ hash.max = ns := by
    intro hash hhash
    obtain ⟨leaf, hleaf, rfl⟩ := List.mem_map.mp hhash
    exact ⟨hrun leaf hleaf, hrun leaf hleaf⟩
  refine (NamespaceProof.isComplete_eq_true_iff hne hashNs).mpr
    ⟨fun node hnode => ?_, fun node hnode => ?_⟩
  · exact max_lt_of_mem_map (fun part hpart => hparts.ne_nil part (List.mem_append_left _ hpart))
      (List.mem_of_getLast? hnode) (by rwa [hbefore])
  · exact lt_min_of_mem_map (fun part hpart => hparts.ne_nil part (List.mem_append_right _ hpart))
      (List.mem_of_head? hnode) (by rwa [hafter])

/-- The proof that a namespace has no leaves verifies. -/
theorem verifyComplete_prove_of_count_eq_zero (hcount : tree.count ns = 0) :
    (∃ leaf, (tree.prove ns).goal = .absence leaf) ∧
      (tree.prove ns).verifyComplete tree.root [] ns = .ok () := by
  have hasc := ascending_iff.mp tree.ascending_leaves
  obtain ⟨below, run, above, hleaves, hbelow, hrun, habove, hfilter, hstart, hlength⟩ :=
    exists_append tree ns
  obtain rfl : run = [] := List.eq_nil_of_length_eq_zero (hlength.symm.trans hcount)
  rw [List.append_nil] at hleaves
  obtain ⟨next, above, rfl⟩ : ∃ next rest, above = next :: rest := by
    refine List.exists_cons_of_ne_nil ?_
    rintro rfl
    rw [List.append_nil] at hleaves
    obtain ⟨leaf, hleaf, hle⟩ := exists_le_of_contains hin
    exact absurd hle (not_le.mpr (hbelow leaf (hleaves ▸ hleaf)))
  have hnext : (leafHashes tree.leaves)[below.length]? = some (.ofLeaf next.ns next.data) := by
    rw [leafHashes, List.getElem?_map, hleaves, List.getElem?_append_right le_rfl, Nat.sub_self]
    rfl
  have hprove : tree.prove ns = { tree.proveRange below.length (below.length + 1) with
      goal := .absence (some (.ofLeaf next.ns next.data)) } := by
    rw [prove, hin, if_neg (by decide), if_neg (by omega), hstart, hnext]
  have hstop : below.length + 1 ≤ tree.leaves.length := by
    rw [hleaves, List.length_append, List.length_cons]
    omega
  obtain ⟨hstartNat, -⟩ := toNat_proveRange tree (Nat.lt_succ_self below.length) hstop hsize
  obtain ⟨before, after, hparts, hnodes, hcheck⟩ := NamespaceProof.exists_checkLeaves_eq_ok
    (tree.prove ns) hasc hsize (by rw [hprove, hstartNat]; exact Nat.lt_succ_self _) hstop
    (by rw [hprove, hstartNat]; rfl) (by rw [hprove]; rfl)
  have hbetween : NamespaceProof.hashesBetween tree.leaves below.length (below.length + 1) =
      [.ofLeaf next.ns next.data] := by
    rw [NamespaceProof.hashesBetween, hleaves, List.take_append, List.take_of_length_le (by omega),
      Nat.add_sub_cancel_left, List.drop_left]
    rfl
  have hgoal : (tree.prove ns).goal = .absence (some (.ofLeaf next.ns next.data)) := by
    rw [hprove]
  have hbefore : before.flatten = below := by
    rw [hparts.flatten_before, hprove, hstartNat, hleaves]
    exact List.take_left
  rw [show (tree.prove ns).start.toNat = below.length by rw [hprove, hstartNat], hbetween] at hcheck
  refine ⟨⟨_, hgoal⟩, (NamespaceProof.verifyComplete_eq_ok_iff_of_absence hgoal).mpr
    (Or.inr ⟨_, rfl, habove next List.mem_cons_self, fun node hnode => ?_, _, hcheck⟩)⟩
  rw [hnodes] at hnode
  exact max_lt_of_mem_map (fun part hpart => hparts.ne_nil part (List.mem_append_left _ hpart))
    (List.mem_of_getLast? hnode) (by rwa [hbefore])

end Contains

/-- **The proof that a tree makes for a namespace verifies**, with all leaves of the namespace. It
is one of absence exactly if there are none. -/
theorem verifyComplete_prove (hin : tree.root.contains ns = true)
    (hsize : tree.leaves.length ≤ 2 ^ 31) :
    (tree.prove ns).isOfAbsence = (tree.dataOf ns).isEmpty ∧
      (tree.prove ns).verifyComplete tree.root (tree.dataOf ns) ns = .ok () := by
  have hlength : (tree.dataOf ns).length = tree.count ns := by
    rw [dataOf, List.length_map, count, List.countP_eq_length_filter]
  rcases Nat.eq_zero_or_pos (tree.count ns) with hcount | hcount
  · obtain ⟨⟨leaf, hgoal⟩, hverify⟩ := verifyComplete_prove_of_count_eq_zero hin hsize hcount
    rw [List.eq_nil_of_length_eq_zero (hlength.trans hcount)]
    exact ⟨by simp [NamespaceProof.isOfAbsence, hgoal], hverify⟩
  · obtain ⟨hgoal, hverify⟩ := verifyComplete_prove_of_count_pos hin hsize hcount
    have hne : tree.dataOf ns ≠ [] := List.ne_nil_of_length_pos (hlength ▸ hcount)
    refine ⟨?_, hverify⟩
    rw [NamespaceProof.isOfAbsence, hgoal, List.isEmpty_eq_false_iff.mpr hne]
    rfl

end Nmt

end Availability
