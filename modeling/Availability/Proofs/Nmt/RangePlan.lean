import Availability.Proofs.Nmt.Tree
import Availability.Proofs.Nmt.TreeSize

/-!
# What is computed for a range proof

Whoever checks a range proof recomputes the root from right to left, and takes the last leaf or the
last node whenever a subtree is not computed further. Nothing tells which of the nodes are meant for
which side of the range: this follows from their **numbers** alone, for the tree that was made up
for the proof.

* `rebuild_eq_ok_iff` – one step of the computation;
* `plan` – the upper part of a tree that is computed, without any checks;
* `exists_plan` – what is recomputed is the value of the plan;
* `frontier_plan` – the plan takes on faith the nodes before the range, then its leaves, then the
  nodes after it, and of both kinds of nodes **as many as the ways down to its ends have turns**.
-/

namespace Availability.NamespaceProof

open Merkle (splitPoint splitPoint_pos splitPoint_lt turns turns_of_lt turns_of_le turns_of_lt_two
  count_true_turns_zero count_false_turns_of_le Opening)

/-! ### One step -/

section Step

variable {ignoreMax : Bool} {start size offset : Nat} {s : Supply}

theorem takeNode_eq_ok_iff {node : NamespacedHash} {s' : Supply} :
    s.takeNode = .ok (node, s') ↔ s.leaves = s'.leaves ∧ s.nodes = node :: s'.nodes := by
  obtain ⟨leaves, nodes⟩ := s
  obtain ⟨leaves', nodes'⟩ := s'
  rcases nodes with _ | ⟨a, nodes⟩
  · simp [Supply.takeNode]
  · simp only [Supply.takeNode, Except.ok.injEq, Prod.mk.injEq, Supply.mk.injEq, List.cons.injEq]
    tauto

theorem takeLeaf_eq_ok_iff {leaf : NamespacedHash} {s' : Supply} :
    s.takeLeaf = .ok (leaf, s') ↔ s.leaves = leaf :: s'.leaves ∧ s.nodes = s'.nodes := by
  obtain ⟨leaves, nodes⟩ := s
  obtain ⟨leaves', nodes'⟩ := s'
  rcases leaves with _ | ⟨a, leaves⟩
  · simp [Supply.takeLeaf]
  · simp only [Supply.takeLeaf, Except.ok.injEq, Prod.mk.injEq, Supply.mk.injEq, List.cons.injEq]
    tauto

/-- A subtree of one leaf is the last leaf. -/
theorem rebuild_of_lt_two (h : size < 2) : rebuild ignoreMax start size offset s = s.takeLeaf := by
  rw [rebuild, dif_neg (by omega)]

/-- The right side of a subtree: computed if a leaf is in it, and a node otherwise. -/
def rebuildRight (ignoreMax : Bool) (start size offset : Nat) (s : Supply) :
    Except RangeFault (NamespacedHash × Supply) :=
  if offset + splitPoint size < start + s.leaves.length then
    rebuild ignoreMax start (size - splitPoint size) (offset + splitPoint size) s
  else s.takeNode

/-- The left side of a subtree. -/
def rebuildLeft (ignoreMax : Bool) (start size offset : Nat) (s : Supply) :
    Except RangeFault (NamespacedHash × Supply) :=
  if start < offset + splitPoint size then rebuild ignoreMax start (splitPoint size) offset s
  else s.takeNode

/-- Joins the sides of a subtree, if they are in order. -/
def joinSides (ignoreMax : Bool) (left right : NamespacedHash) :
    Except RangeFault NamespacedHash :=
  if left.isOrdered && right.isOrdered && left.max ≤ right.min then .ok (.node ignoreMax left right)
  else .error .malformedTree

theorem joinSides_eq_ok_iff {left right root : NamespacedHash} :
    joinSides ignoreMax left right = .ok root ↔
      (left.min ≤ left.max ∧ right.min ≤ right.max ∧ left.max ≤ right.min) ∧
        NamespacedHash.node ignoreMax left right = root := by
  simp only [joinSides, NamespacedHash.isOrdered, Bool.and_eq_true, decide_eq_true_eq, and_assoc]
  split
  case isTrue h => simp [h]
  case isFalse h => simp only [reduceCtorEq, false_iff]; tauto

theorem rebuild_of_two_le (h : 2 ≤ size) :
    rebuild ignoreMax start size offset s =
      rebuildRight ignoreMax start size offset s >>= fun right =>
        rebuildLeft ignoreMax start size offset right.2 >>= fun left =>
          joinSides ignoreMax left.1 right.1 >>= fun root => .ok (root, left.2) := by
  have hjoin (left right : NamespacedHash × Supply) :
      (if left.1.isOrdered && right.1.isOrdered && left.1.max ≤ right.1.min then
        .ok (.node ignoreMax left.1 right.1, left.2) else .error .malformedTree) =
      joinSides ignoreMax left.1 right.1 >>= fun root => .ok (root, left.2) := by
    rw [joinSides]
    split <;> rfl
  rw [rebuild, dif_pos h]
  simp only [hjoin, rebuildRight, rebuildLeft]
  split <;> · congr 1; funext right; split <;> rfl

/-- **A subtree of several leaves is joined from its sides**, the right one first. -/
theorem rebuild_eq_ok_iff (h : 2 ≤ size) {root : NamespacedHash} {s' : Supply} :
    rebuild ignoreMax start size offset s = .ok (root, s') ↔
      ∃ right s₁ left, rebuildRight ignoreMax start size offset s = .ok (right, s₁) ∧
        rebuildLeft ignoreMax start size offset s₁ = .ok (left, s') ∧
        joinSides ignoreMax left right = .ok root := by
  simp only [rebuild_of_two_le h, Checked.bind_eq_ok_iff, Prod.exists, Except.ok.injEq,
    Prod.mk.injEq]
  constructor
  · rintro ⟨right, s₁, hright, left, s₂, hleft, node, hjoin, rfl, rfl⟩
    exact ⟨right, s₁, left, hright, hleft, hjoin⟩
  · rintro ⟨right, s₁, left, hright, hleft, hjoin⟩
    exact ⟨right, s₁, hright, left, s', hleft, root, hjoin, rfl, rfl⟩

end Step

/-! ### The plan -/

/-- A leaf or a node that was taken, as a part of a tree. -/
def given (taken : Except RangeFault (NamespacedHash × Supply)) :
    Except RangeFault (Opening NamespacedHash × Supply) :=
  (fun t => (.given t.1, t.2)) <$> taken

/-- The upper part of a tree that is computed for a range, without any checks. -/
def plan (start size offset : Nat) (s : Supply) :
    Except RangeFault (Opening NamespacedHash × Supply) :=
  if _ : 2 ≤ size then
    (if offset + splitPoint size < start + s.leaves.length then
        plan start (size - splitPoint size) (offset + splitPoint size) s
      else given s.takeNode) >>= fun right =>
    (if start < offset + splitPoint size then plan start (splitPoint size) offset right.2
      else given right.2.takeNode) >>= fun left =>
    .ok (.join left.1 right.1, left.2)
  else given s.takeLeaf
termination_by size
decreasing_by
  all_goals
    have := splitPoint_pos ‹2 ≤ size›
    have := splitPoint_lt ‹2 ≤ size›
    omega

section Plan

variable {start size offset : Nat} {s : Supply}

theorem given_eq_ok_iff {taken : Except RangeFault (NamespacedHash × Supply)}
    {o : Opening NamespacedHash} {s' : Supply} :
    given taken = .ok (o, s') ↔ ∃ a, taken = .ok (a, s') ∧ o = .given a := by
  simp only [given, Checked.map_eq_ok_iff, Prod.exists, Prod.mk.injEq]
  constructor
  · rintro ⟨a, s₁, htaken, rfl, rfl⟩
    exact ⟨a, htaken, rfl⟩
  · rintro ⟨a, htaken, rfl⟩
    exact ⟨a, s', htaken, rfl, rfl⟩

theorem plan_of_lt_two (h : size < 2) : plan start size offset s = given s.takeLeaf := by
  rw [plan, dif_neg (by omega)]

/-- The plan of a subtree of several leaves joins those of its sides. -/
theorem plan_eq_ok_iff (h : 2 ≤ size) {o : Opening NamespacedHash} {s' : Supply} :
    plan start size offset s = .ok (o, s') ↔
      ∃ right s₁ left,
        (if offset + splitPoint size < start + s.leaves.length then
          plan start (size - splitPoint size) (offset + splitPoint size) s
          else given s.takeNode) = .ok (right, s₁) ∧
        (if start < offset + splitPoint size then plan start (splitPoint size) offset s₁
          else given s₁.takeNode) = .ok (left, s') ∧
        o = .join left right := by
  rw [plan, dif_pos h]
  simp only [Checked.bind_eq_ok_iff, Prod.exists, Except.ok.injEq, Prod.mk.injEq]
  constructor
  · rintro ⟨right, s₁, hright, left, s₂, hleft, rfl, rfl⟩
    exact ⟨right, s₁, left, hright, hleft, rfl⟩
  · rintro ⟨right, s₁, left, hright, hleft, rfl⟩
    exact ⟨right, s₁, hright, left, s', hleft, rfl, rfl⟩

/-- **What is recomputed is the value of the plan.** -/
theorem exists_plan {ignoreMax : Bool} {root : NamespacedHash} {s' : Supply}
    (h : rebuild ignoreMax start size offset s = .ok (root, s')) :
    ∃ o, plan start size offset s = .ok (o, s') ∧ (Nmt.hashing ignoreMax).value o = root := by
  induction size using Nat.strong_induction_on generalizing offset s root s' with
  | _ size ih =>
    rcases Nat.lt_or_ge size 2 with hone | htwo
    · rw [rebuild_of_lt_two hone] at h
      exact ⟨.given root, by rw [plan_of_lt_two hone, given_eq_ok_iff]; exact ⟨root, h, rfl⟩, rfl⟩
    have hpos := splitPoint_pos htwo
    have hlt := splitPoint_lt htwo
    obtain ⟨right, s₁, left, hright, hleft, hjoin⟩ := (rebuild_eq_ok_iff htwo).mp h
    obtain ⟨-, rfl⟩ := joinSides_eq_ok_iff.mp hjoin
    -- a side is computed, or it is a node that has itself as its value
    have hside {p : Prop} [Decidable p] {size' offset' : Nat} {s₁ s₂ : Supply}
        {root : NamespacedHash} (hsize : size' < size)
        (hside : (if p then rebuild ignoreMax start size' offset' s₁ else s₁.takeNode) =
          .ok (root, s₂)) :
        ∃ o, (if p then plan start size' offset' s₁ else given s₁.takeNode) = .ok (o, s₂) ∧
          (Nmt.hashing ignoreMax).value o = root := by
      split at hside
      case isTrue hp =>
        rw [if_pos hp]
        exact ih _ hsize hside
      case isFalse hp =>
        rw [if_neg hp]
        exact ⟨.given root, given_eq_ok_iff.mpr ⟨root, hside, rfl⟩, rfl⟩
    obtain ⟨oright, horight, rfl⟩ := hside (by omega) hright
    obtain ⟨oleft, holeft, rfl⟩ := hside hlt hleft
    exact ⟨.join oleft oright,
      (plan_eq_ok_iff htwo).mpr ⟨oright, s₁, oleft, horight, holeft, rfl⟩, rfl⟩

/-! ### What is taken on faith -/

/-- **The range stands between the nodes before it and those after it.** Of the nodes at hand, the
last ones are those to the right, and then come those to the left; there are as many of them as the
way down to the last leaf has turns to the left, and that to the first one turns to the right. The
leaves before the subtree are left over. -/
theorem frontier_plan {o : Opening NamespacedHash} {s' : Supply}
    (h : plan start size offset s = .ok (o, s')) (hne : s.leaves ≠ [])
    (hlow : offset < start + s.leaves.length) (hhigh : start + s.leaves.length ≤ offset + size) :
    ∃ left used right, o.frontier = left ++ used ++ right ∧
      s.leaves = used.reverse ++ s'.leaves ∧ s'.leaves.length = offset - start ∧
      s.nodes = (left ++ right).reverse ++ s'.nodes ∧
      left.length = (turns (start - offset) size).count true ∧
      right.length = (turns (start + s.leaves.length - 1 - offset) size).count false := by
  have hsome := List.length_pos_iff.mpr hne
  induction size using Nat.strong_induction_on generalizing offset s o s' with
  | _ size ih =>
    rcases Nat.lt_or_ge size 2 with hone | htwo
    · -- the only leaf of the subtree is the last one at hand
      rw [plan_of_lt_two hone, given_eq_ok_iff] at h
      obtain ⟨leaf, htake, rfl⟩ := h
      obtain ⟨hleaves, hnodes⟩ := takeLeaf_eq_ok_iff.mp htake
      rw [hleaves, List.length_cons] at hlow hhigh
      refine ⟨[], [leaf], [], rfl, hleaves, by omega, hnodes, ?_, ?_⟩
      · rw [turns_of_lt_two hone]
        rfl
      · rw [turns_of_lt_two hone]
        rfl
    have hpos := splitPoint_pos htwo
    have hlt := splitPoint_lt htwo
    obtain ⟨oright, s₁, oleft, hright, hleft, rfl⟩ := (plan_eq_ok_iff htwo).mp h
    rw [Opening.frontier]
    split at hright
    case isTrue hmiddle =>
      obtain ⟨left₂, used₂, right₂, hfrontier₂, hleaves₂, hrest₂, hnodes₂, hleft₂, hright₂⟩ :=
        ih _ (by omega) hright hne hmiddle (by omega) hsome
      have hlast : (turns (start + s.leaves.length - 1 - offset) size).count false =
          right₂.length := by
        rw [turns_of_le htwo (by omega), List.count_cons_of_ne (by decide), hright₂,
          Nat.sub_sub (start + s.leaves.length - 1)]
      split at hleft
      case isTrue hstart =>
        -- the range goes on from the left side into the right one
        obtain ⟨left₁, used₁, right₁, hfrontier₁, hleaves₁, hrest₁, hnodes₁, hleft₁, hright₁⟩ :=
          ih _ hlt hleft (List.ne_nil_of_length_pos (by omega)) (by omega) (by omega) (by omega)
        rw [show start - (offset + splitPoint size) = 0 by omega, count_true_turns_zero,
          List.length_eq_zero_iff] at hleft₂
        rw [count_false_turns_of_le (by omega), List.length_eq_zero_iff] at hright₁
        subst hleft₂ hright₁
        refine ⟨left₁, used₁ ++ used₂, right₂, ?_, ?_, hrest₁, ?_, ?_, hlast.symm⟩
        · simp [hfrontier₁, hfrontier₂]
        · simp [hleaves₂, hleaves₁]
        · simp [hnodes₂, hnodes₁]
        · rw [hleft₁, turns_of_lt htwo (by omega), List.count_cons_of_ne (by decide)]
      case isFalse hstart =>
        -- the left side is before the range
        obtain ⟨node, htake, rfl⟩ := given_eq_ok_iff.mp hleft
        obtain ⟨hleaves₁, hnodes₁⟩ := takeNode_eq_ok_iff.mp htake
        refine ⟨node :: left₂, used₂, right₂, ?_, ?_, ?_, ?_, ?_, hlast.symm⟩
        · simp [Opening.frontier, hfrontier₂]
        · rw [hleaves₂, hleaves₁]
        · rw [← hleaves₁]
          omega
        · simp [hnodes₂, hnodes₁]
        · rw [turns_of_le htwo (by omega), List.count_cons_self, List.length_cons, hleft₂,
            Nat.sub_sub]
    case isFalse hmiddle =>
      -- the right side is after the range
      obtain ⟨node, htake, rfl⟩ := given_eq_ok_iff.mp hright
      obtain ⟨hleaves₂, hnodes₂⟩ := takeNode_eq_ok_iff.mp htake
      rw [if_pos (by omega)] at hleft
      rw [hleaves₂] at hne hlow hmiddle hsome ⊢
      obtain ⟨left₁, used₁, right₁, hfrontier₁, hleaves₁, hrest₁, hnodes₁, hleft₁, hright₁⟩ :=
        ih _ hlt hleft hne hlow (by omega) hsome
      refine ⟨left₁, used₁, right₁ ++ [node], ?_, hleaves₁, hrest₁, ?_, ?_, ?_⟩
      · simp [Opening.frontier, hfrontier₁]
      · simp [hnodes₂, hnodes₁]
      · rw [hleft₁, turns_of_lt htwo (by omega), List.count_cons_of_ne (by decide)]
      · rw [turns_of_lt htwo (by omega), List.count_cons_self, List.length_append, hright₁]
        rfl

end Plan

end Availability.NamespaceProof
