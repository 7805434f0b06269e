import Availability.Proofs.Nmt.Tree
import Mathlib.Order.Bounds.Basic

/-!
# The range of sorted leaves

Leaves of the parity namespace do not count for the largest namespace of a node, as long as it has
others. Which of its leaves a root has counted cannot be told from the root: a tree of leaves in no
order may have parity for its largest namespace although it has other leaves. It is different if the
leaves are **sorted**.

* `NamespacedHash.node_max_eq` – the rule for the largest namespace, in full;
* `Nmt.rootOver_min_cons` – the smallest namespace is that of the first leaf;
* `Nmt.ns_eq_parity_of_rootOver_max` – the largest one is parity only if **there is nothing else**,
  by induction on the tree;
* `Nmt.isGreatest_rootOver_max` – so it is the largest one but for parity, if there is any.
-/

namespace Availability

theorem NamespacedHash.node_max_eq (l r : NamespacedHash) :
    (node true l r).max = if l.min = .parity then .parity
      else if r.min = .parity then l.max else Max.max l.max r.max := by
  simp only [node, true_and, max_def_lt]

namespace Nmt

open Merkle (LeafTree)

/-- The namespaces of some leaves, but for that of parity. -/
def ownNamespaces (leaves : List Leaf) : Set Namespace :=
  {ns | ns ≠ .parity ∧ ∃ leaf ∈ leaves, leaf.ns = ns}

/-- The root of a sorted tree has parity for its largest namespace only if all leaves are of
parity. -/
theorem ns_eq_parity_of_root_max {t : LeafTree Leaf} (h : t.Full)
    (hasc : t.leaves.Pairwise fun a b => a.ns ≤ b.ns)
    (hmax : ((hashing true).root t).max = .parity) : ∀ leaf ∈ t.leaves, leaf.ns = .parity := by
  induction t with
  | nil => exact h.elim
  | leaf x =>
    intro leaf hleaf
    obtain rfl : leaf = x := by simpa [LeafTree.leaves] using hleaf
    exact hmax
  | node l r ihl ihr =>
    obtain ⟨hl, hr, hlr⟩ := List.pairwise_append.mp hasc
    -- what comes after a leaf of parity is of parity, so only the left leaves matter
    suffices hleft : ∀ leaf ∈ l.leaves, leaf.ns = .parity by
      obtain ⟨first, hfirst, -⟩ := exists_ns_eq_root_min h.1
      refine List.forall_mem_append.mpr ⟨hleft, fun leaf hleaf => ?_⟩
      exact le_antisymm (Namespace.le_parity _) ((hleft first hfirst).ge.trans
        (hlr first hfirst leaf hleaf))
    rw [root_node, NamespacedHash.node_max_eq] at hmax
    split at hmax
    case isTrue hmin =>
      intro leaf hleaf
      exact le_antisymm (Namespace.le_parity _) (hmin.ge.trans (root_min_le hleaf))
    case isFalse =>
      split at hmax
      case isTrue => exact ihl h.1 hl hmax
      case isFalse hother =>
        rcases max_choice ((hashing true).root l).max ((hashing true).root r).max with heq | heq
        · exact ihl h.1 hl (heq.symm.trans hmax)
        · -- the right leaves would all be of parity, and so would their smallest namespace
          obtain ⟨first, hfirst, hmin⟩ := exists_ns_eq_root_min h.2
          exact absurd (hmin.symm.trans (ihr h.2 hr (heq.symm.trans hmax) first hfirst)) hother

variable {leaves : List Leaf}

/-- **The smallest namespace is that of the first leaf**, if the leaves are sorted. -/
theorem rootOver_min_cons {first : Leaf} (h : (first :: leaves).Pairwise fun a b => a.ns ≤ b.ns) :
    (rootOver (first :: leaves)).min = first.ns := by
  refine le_antisymm (rootOver_min_le List.mem_cons_self) ?_
  exact le_rootOver_min (List.cons_ne_nil _ _)
    (List.forall_mem_cons.mpr ⟨le_rfl, (List.pairwise_cons.mp h).1⟩)

theorem ns_eq_parity_of_rootOver_max (hne : leaves ≠ [])
    (hasc : leaves.Pairwise fun a b => a.ns ≤ b.ns) (hmax : (rootOver leaves).max = .parity) :
    ∀ leaf ∈ leaves, leaf.ns = .parity := by
  rw [rootOver_eq] at hmax
  have hall := ns_eq_parity_of_root_max (LeafTree.full_ofList hne)
    (by rwa [LeafTree.leaves_ofList]) hmax
  rwa [LeafTree.leaves_ofList] at hall

/-- **The largest namespace is the largest one but for parity**, if the leaves are sorted. It is
parity if they have nothing else. -/
theorem isGreatest_rootOver_max (hne : leaves ≠ [])
    (hasc : leaves.Pairwise fun a b => a.ns ≤ b.ns) :
    IsGreatest (ownNamespaces leaves) (rootOver leaves).max ∨
      ownNamespaces leaves = ∅ ∧ (rootOver leaves).max = .parity := by
  by_cases hmax : (rootOver leaves).max = .parity
  · refine Or.inr ⟨Set.eq_empty_of_forall_notMem ?_, hmax⟩
    rintro ns ⟨hns, leaf, hleaf, rfl⟩
    exact hns (ns_eq_parity_of_rootOver_max hne hasc hmax leaf hleaf)
  · refine Or.inl ⟨⟨hmax, exists_ns_eq_rootOver_max hne⟩, ?_⟩
    rintro ns ⟨hns, leaf, hleaf, rfl⟩
    exact le_rootOver_max hleaf hns

/-- Leaves of nothing but parity have a root of nothing but parity. -/
theorem rootOver_eq_parity (hne : leaves ≠ []) (h : ∀ leaf ∈ leaves, leaf.ns = .parity) :
    (rootOver leaves).min = .parity ∧ (rootOver leaves).max = .parity := by
  obtain ⟨first, hfirst, hmin⟩ := exists_ns_eq_rootOver_min hne
  obtain ⟨last, hlast, hmax⟩ := exists_ns_eq_rootOver_max hne
  exact ⟨hmin.symm.trans (h first hfirst), hmax.symm.trans (h last hlast)⟩

end Nmt

end Availability
