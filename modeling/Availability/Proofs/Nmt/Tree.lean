import Availability.Nmt.Tree
import Availability.Proofs.Merkle.Tree
import Availability.Proofs.Namespace.Order

/-!
# What the root of a namespaced tree says

A namespaced tree is hashed in such a way that its strings tell what they stand for, so
`Availability.Proofs.Merkle.Tree` applies to it. Besides, its root shows a range of namespaces.

* `Nmt.hashing` – namespaced trees as trees that are hashed; the rule for the largest namespace is a
  parameter, because it has **no influence on what is hashed**;
* `Nmt.leaves_eq_of_rootOver_eq`, `Nmt.eq_of_map_rootOver_eq` – a root binds the leaves, with their
  namespaces;
* `Nmt.ascending_iff` – the order of the leaves as a property of all pairs;
* `Nmt.foldlM_push_eq_ok_iff` – when a tree can be built **leaf by leaf**;
* `Nmt.le_rootOver_min`, `Nmt.rootOver_max_le`, `Nmt.rootOver_min_le_max` – the range that a root
  shows lies within the range of the leaves;
* `Nmt.exists_ns_eq_rootOver_min`, `Nmt.exists_ns_eq_rootOver_max` – both of its ends **are
  namespaces of leaves**;
* `Nmt.rootOver_min_le`, `Nmt.le_rootOver_max` – and it reaches as far as the leaves do, but for
  those of the parity namespace.
-/

namespace Availability

theorem NamespacedHash.toBytes_injective : Function.Injective NamespacedHash.toBytes := by
  intro a b h
  have h' := congrArg NamespacedHash.ofBytes h
  rw [NamespacedHash.ofBytes_toBytes, NamespacedHash.ofBytes_toBytes] at h'
  exact Except.ok.inj h'

namespace NamespacedHash

/-- The smallest namespace of a node is that of its children. -/
theorem node_min (ignoreMax : Bool) (l r : NamespacedHash) :
    (node ignoreMax l r).min = Min.min l.min r.min := by
  rw [node]
  split
  case isTrue h => exact (min_eq_right h.le).symm
  case isFalse h => exact (min_eq_left (not_lt.mp h)).symm

/-- The largest namespace of a node: parity if the left child has nothing else, that of the left
child if the right one has nothing but parity, and otherwise that of its children. -/
theorem node_max_cases (ignoreMax : Bool) (l r : NamespacedHash) :
    ((node ignoreMax l r).max = Namespace.parity ∧ l.min = Namespace.parity) ∨
      ((node ignoreMax l r).max = l.max ∧ r.min = Namespace.parity) ∨
        (node ignoreMax l r).max = Max.max l.max r.max := by
  simp only [node]
  split
  case isTrue h => exact Or.inl ⟨rfl, h.2⟩
  case isFalse =>
    split
    case isTrue h => exact Or.inr (Or.inl ⟨rfl, h.2⟩)
    case isFalse =>
      refine Or.inr (Or.inr ?_)
      split
      case isTrue h => exact (max_eq_right h.le).symm
      case isFalse h => exact (max_eq_left (not_lt.mp h)).symm

variable {root : NamespacedHash} {ns : Namespace}

theorem contains_iff : root.contains ns = true ↔ root.min ≤ ns ∧ ns ≤ root.max ∧ root ≠ .empty := by
  simp only [contains, Bool.and_eq_true, decide_eq_true_eq, and_assoc]

theorem isOutside_eq_false_iff :
    ns.isOutside root root = false ↔ root.min ≤ ns ∧ ns ≤ root.max := by
  simp only [Namespace.isOutside, Namespace.isBelow, Namespace.isAbove, Bool.or_eq_false_iff,
    decide_eq_false_iff_not, not_lt]

end NamespacedHash

namespace Nmt

open Merkle (splitPoint LeafTree Hashing)

/-! ### Hashing -/

/-- Namespaced trees: the digest of a value covers the namespaces of its children. -/
def hashing (ignoreMax : Bool) : Hashing NamespacedHash Leaf where
  empty := .empty
  leaf l := .ofLeaf l.ns l.data
  node := .node ignoreMax
  digest := NamespacedHash.hash
  leafText l := 0 :: (l.ns.bytes ++ l.data)
  nodeText l r := 1 :: (l.toBytes ++ r.toBytes)
  digest_empty := rfl
  digest_leaf _ := rfl
  digest_node _ _ := rfl
  leafText_injective a b h := by
    obtain ⟨hns, hdata⟩ := List.append_inj (List.cons.inj h).2
      (by rw [Namespace.length_bytes, Namespace.length_bytes])
    obtain ⟨ns, data⟩ := a
    obtain rfl : ns = b.ns := Namespace.ext hns
    obtain rfl : data = b.data := hdata
    rfl
  nodeText_injective h := by
    obtain ⟨hl, hr⟩ := List.append_inj (List.cons.inj h).2
      (by rw [NamespacedHash.length_toBytes, NamespacedHash.length_toBytes])
    exact ⟨NamespacedHash.toBytes_injective hl, NamespacedHash.toBytes_injective hr⟩
  leafText_ne_nodeText _ _ _ h := absurd (List.cons.inj h).1 (by decide)
  leafText_ne_nil _ := List.cons_ne_nil _ _
  nodeText_ne_nil _ _ := List.cons_ne_nil _ _

/-- The root over some leaves. -/
def rootOver (leaves : List Leaf) : NamespacedHash :=
  rootOf (leafHashes leaves)

/-- The strings that are hashed for the root over some leaves. -/
def texts (leaves : List Leaf) : List Bytes :=
  (hashing true).texts (LeafTree.ofList leaves)

theorem rootOver_eq (leaves : List Leaf) :
    rootOver leaves = (hashing true).root (LeafTree.ofList leaves) :=
  ((hashing true).root_ofList leaves).symm

@[simp] theorem rootOver_singleton (leaf : Leaf) : rootOver [leaf] = .ofLeaf leaf.ns leaf.data :=
  Merkle.combine_singleton _ _ _

theorem rootOver_of_two_le {leaves : List Leaf} (h : 2 ≤ leaves.length) :
    rootOver leaves = .node true (rootOver (leaves.take (splitPoint leaves.length)))
      (rootOver (leaves.drop (splitPoint leaves.length))) := by
  rw [rootOver_eq, LeafTree.ofList_of_two_le h, rootOver_eq, rootOver_eq]
  rfl

/-- **A root binds its leaves**, unless two of the hashed strings collide. -/
theorem leaves_eq_of_rootOver_eq {all : List Bytes} (free : ¬Collides all) {xs ys : List Leaf}
    (hx : texts xs ⊆ all) (hy : texts ys ⊆ all) (h : rootOver xs = rootOver ys) : xs = ys := by
  rw [rootOver_eq, rootOver_eq] at h
  exact (hashing true).list_eq_of_root_eq free hx hy (congrArg _ h)

/-- Trees that have the roots of some lists are the trees of these lists, unless two of the hashed
strings collide. -/
theorem eq_map_ofList {all : List Bytes} (free : ¬Collides all) {trees : List (LeafTree Leaf)}
    {xss : List (List Leaf)} (htrees : ∀ t ∈ trees, (hashing true).texts t ⊆ all)
    (hxss : xss.flatMap texts ⊆ all)
    (h : trees.map (hashing true).root = xss.map rootOver) : trees = xss.map LeafTree.ofList := by
  induction trees generalizing xss with
  | nil => rw [List.map_eq_nil_iff.mp h.symm, List.map_nil]
  | cons t trees ih =>
    rcases xss with _ | ⟨xs, xss⟩
    · simp at h
    · rw [List.flatMap_cons, List.append_subset] at hxss
      obtain ⟨hhead, htail⟩ := List.cons.inj h
      rw [rootOver_eq] at hhead
      rw [List.map_cons, ih (fun t' ht' => htrees t' (by simp [ht'])) hxss.2 htail,
        (hashing true).eq_of_root_eq free (htrees t (by simp)) hxss.1 (congrArg _ hhead)]

/-- The roots of several trees bind the leaves of each of them. -/
theorem eq_of_map_rootOver_eq {all : List Bytes} (free : ¬Collides all) {xss yss : List (List Leaf)}
    (hx : xss.flatMap texts ⊆ all) (hy : yss.flatMap texts ⊆ all)
    (h : xss.map rootOver = yss.map rootOver) : xss = yss := by
  have hroots : (xss.map LeafTree.ofList).map (hashing true).root = yss.map rootOver := by
    rw [← h, List.map_map]
    exact List.map_congr_left fun xs _ => (rootOver_eq xs).symm
  have htexts : ∀ t ∈ xss.map LeafTree.ofList, (hashing true).texts t ⊆ all := by
    intro t ht
    obtain ⟨xs, hxs, rfl⟩ := List.mem_map.mp ht
    exact fun text htext => hx (List.mem_flatMap.mpr ⟨xs, hxs, htext⟩)
  have htrees := eq_map_ofList free htexts hy hroots
  exact List.map_injective_iff.mpr (Function.LeftInverse.injective LeafTree.leaves_ofList) htrees

/-! ### Order -/

/-- The namespaces of leaves ascend when no leaf has a smaller namespace than any leaf before it. -/
theorem ascending_iff {leaves : List Leaf} :
    ascending leaves = true ↔ leaves.Pairwise fun a b => a.ns ≤ b.ns := by
  rw [← List.isChain_iff_pairwise]
  induction leaves with
  | nil => simp [ascending]
  | cons a rest ih =>
    rcases rest with _ | ⟨b, rest⟩
    · simp [ascending]
    · rw [ascending, Bool.and_eq_true, ih, decide_eq_true_eq, List.isChain_cons_cons]

/-- The tree that leaves are built into has these leaves. -/
theorem ofLeaves_eq_ok_iff {leaves : List Leaf} {tree : Nmt} :
    ofLeaves leaves = .ok tree ↔ tree.leaves = leaves := by
  rw [ofLeaves]
  constructor
  · intro h
    split at h
    · rw [← Except.ok.inj h]
    · cases h
  · rintro rfl
    exact dif_pos tree.ascending_leaves

/-- Leaves in ascending order have a tree. -/
theorem exists_ofLeaves_eq_ok {leaves : List Leaf} (h : leaves.Pairwise fun a b => a.ns ≤ b.ns) :
    ∃ tree, ofLeaves leaves = .ok tree :=
  ⟨⟨leaves, ascending_iff.mpr h⟩, ofLeaves_eq_ok_iff.mpr rfl⟩

/-- **Leaves that are read and appended one by one** make a tree when all of them can be read and
ascend; it does not matter then that the order is checked before the next leaf is read. -/
theorem foldlM_push_eq_ok_iff {α ε : Type} {read : α → Except ε Leaf} {fault : Malformation → ε}
    {xs : List α} {tree tree' : Nmt} :
    xs.foldlM (fun tree x => do
      let leaf ← read x
      (tree.push leaf).mapError fault) tree = .ok tree' ↔
      ∃ leaves, xs.mapM read = .ok leaves ∧ tree'.leaves = tree.leaves ++ leaves := by
  induction xs generalizing tree with
  | nil =>
    rw [List.foldlM_nil, List.mapM_nil, Checked.pure_eq_ok_iff]
    constructor
    · rintro rfl
      exact ⟨[], rfl, (List.append_nil _).symm⟩
    · rintro ⟨leaves, hleaves, htree⟩
      obtain rfl := Checked.pure_eq_ok_iff.mp hleaves
      obtain ⟨leaves', _⟩ := tree'
      obtain rfl : leaves' = tree.leaves := htree.trans (List.append_nil _)
      rfl
  | cons x xs ih =>
    rw [List.foldlM_cons, List.mapM_cons]
    simp only [Checked.bind_eq_ok_iff, Checked.mapError_eq_ok_iff, Checked.pure_eq_ok_iff, ih]
    constructor
    · rintro ⟨pushed, ⟨leaf, hread, hpush⟩, leaves, hleaves, htree⟩
      refine ⟨leaf :: leaves, ⟨leaf, hread, leaves, hleaves, rfl⟩, ?_⟩
      rw [htree, ofLeaves_eq_ok_iff.mp hpush, List.append_assoc, List.singleton_append]
    · rintro ⟨-, ⟨leaf, hread, leaves, hleaves, rfl⟩, htree⟩
      rw [← List.singleton_append, ← List.append_assoc] at htree
      -- all leaves ascend in the end, so they do as far as they are read
      have hascending := ascending_iff.mp tree'.ascending_leaves
      rw [htree] at hascending
      obtain ⟨pushed, hpush⟩ := exists_ofLeaves_eq_ok (List.pairwise_append.mp hascending).1
      exact ⟨pushed, ⟨leaf, hread, hpush⟩, leaves, hleaves,
        (ofLeaves_eq_ok_iff.mp hpush).symm ▸ htree⟩

/-! ### The range of a root -/

section Range

variable {t : LeafTree Leaf}

theorem root_node (l r : LeafTree Leaf) : (hashing true).root (.node l r) =
    .node true ((hashing true).root l) ((hashing true).root r) := rfl

/-- No leaf lies below the smallest namespace of the root. -/
theorem root_min_le {leaf : Leaf} (h : leaf ∈ t.leaves) :
    ((hashing true).root t).min ≤ leaf.ns := by
  induction t with
  | nil => simp [LeafTree.leaves] at h
  | leaf x =>
    obtain rfl : leaf = x := by simpa [LeafTree.leaves] using h
    exact le_refl leaf.ns
  | node l r ihl ihr =>
    rw [root_node, NamespacedHash.node_min]
    rcases List.mem_append.mp h with hl | hr
    · exact (min_le_left _ _).trans (ihl hl)
    · exact (min_le_right _ _).trans (ihr hr)

/-- The smallest namespace of the root is not above its largest. -/
theorem root_min_le_max (h : t.Full) :
    ((hashing true).root t).min ≤ ((hashing true).root t).max := by
  induction t with
  | nil => exact h.elim
  | leaf x => exact le_refl x.ns
  | node l r ihl ihr =>
    rw [root_node, NamespacedHash.node_min]
    have hmin := min_le_left ((hashing true).root l).min ((hashing true).root r).min
    rcases NamespacedHash.node_max_cases true ((hashing true).root l) ((hashing true).root r) with
      ⟨hmax, hparity⟩ | ⟨hmax, -⟩ | hmax
    · rw [hmax, ← hparity]
      exact hmin
    · rw [hmax]
      exact hmin.trans (ihl h.1)
    · rw [hmax]
      exact hmin.trans ((ihl h.1).trans (le_max_left _ _))

/-- The smallest namespace of the root is not below all leaves. -/
theorem le_root_min (h : t.Full) {low : Namespace} (hlow : ∀ leaf ∈ t.leaves, low ≤ leaf.ns) :
    low ≤ ((hashing true).root t).min := by
  induction t with
  | nil => exact h.elim
  | leaf x => exact hlow x (by simp [LeafTree.leaves])
  | node l r ihl ihr =>
    rw [root_node, NamespacedHash.node_min]
    exact le_min (ihl h.1 fun x hx => hlow x (List.mem_append_left _ hx))
      (ihr h.2 fun x hx => hlow x (List.mem_append_right _ hx))

/-- The largest namespace of the root is not above all leaves. -/
theorem root_max_le (h : t.Full) {high : Namespace} (hhigh : ∀ leaf ∈ t.leaves, leaf.ns ≤ high) :
    ((hashing true).root t).max ≤ high := by
  induction t with
  | nil => exact h.elim
  | leaf x => exact hhigh x (by simp [LeafTree.leaves])
  | node l r ihl ihr =>
    have hl := ihl h.1 fun x hx => hhigh x (List.mem_append_left _ hx)
    have hr := ihr h.2 fun x hx => hhigh x (List.mem_append_right _ hx)
    rw [root_node]
    rcases NamespacedHash.node_max_cases true ((hashing true).root l) ((hashing true).root r) with
      ⟨hmax, hparity⟩ | ⟨hmax, -⟩ | hmax
    · rw [hmax, ← hparity]
      exact (root_min_le_max h.1).trans hl
    · rw [hmax]
      exact hl
    · rw [hmax]
      exact max_le hl hr

/-- No leaf lies above the largest namespace of the root, but for those of the parity namespace. -/
theorem le_root_max {leaf : Leaf} (h : leaf ∈ t.leaves) (hne : leaf.ns ≠ .parity) :
    leaf.ns ≤ ((hashing true).root t).max := by
  induction t with
  | nil => simp [LeafTree.leaves] at h
  | leaf x =>
    obtain rfl : leaf = x := by simpa [LeafTree.leaves] using h
    exact le_refl leaf.ns
  | node l r ihl ihr =>
    rw [root_node]
    rcases NamespacedHash.node_max_cases true ((hashing true).root l) ((hashing true).root r) with
      ⟨hmax, -⟩ | ⟨hmax, hparity⟩ | hmax
    · rw [hmax]
      exact Namespace.le_parity leaf.ns
    · rw [hmax]
      rcases List.mem_append.mp h with hl | hr
      · exact ihl hl
      · -- a leaf under a node without other namespaces than parity is of parity itself
        have hle := root_min_le hr
        rw [hparity] at hle
        exact absurd (le_antisymm (Namespace.le_parity leaf.ns) hle) hne
    · rw [hmax]
      rcases List.mem_append.mp h with hl | hr
      · exact (ihl hl).trans (le_max_left _ _)
      · exact (ihr hr).trans (le_max_right _ _)

/-- The smallest namespace of the root is that of a leaf. -/
theorem exists_ns_eq_root_min (h : t.Full) :
    ∃ leaf ∈ t.leaves, leaf.ns = ((hashing true).root t).min := by
  induction t with
  | nil => exact h.elim
  | leaf x => exact ⟨x, List.mem_singleton_self x, rfl⟩
  | node l r ihl ihr =>
    obtain ⟨a, ha, hamin⟩ := ihl h.1
    obtain ⟨b, hb, hbmin⟩ := ihr h.2
    rw [root_node, NamespacedHash.node_min, ← hamin, ← hbmin]
    rcases min_choice a.ns b.ns with hmin | hmin
    · exact ⟨a, List.mem_append_left _ ha, hmin.symm⟩
    · exact ⟨b, List.mem_append_right _ hb, hmin.symm⟩

/-- So is the largest one. -/
theorem exists_ns_eq_root_max (h : t.Full) :
    ∃ leaf ∈ t.leaves, leaf.ns = ((hashing true).root t).max := by
  induction t with
  | nil => exact h.elim
  | leaf x => exact ⟨x, List.mem_singleton_self x, rfl⟩
  | node l r ihl ihr =>
    obtain ⟨a, ha, hamax⟩ := ihl h.1
    obtain ⟨b, hb, hbmax⟩ := ihr h.2
    rw [root_node]
    rcases NamespacedHash.node_max_cases true ((hashing true).root l) ((hashing true).root r) with
      ⟨hmax, hparity⟩ | ⟨hmax, -⟩ | hmax
    · obtain ⟨c, hc, hcmin⟩ := exists_ns_eq_root_min h.1
      exact ⟨c, List.mem_append_left _ hc, by rw [hmax, hcmin, hparity]⟩
    · exact ⟨a, List.mem_append_left _ ha, by rw [hmax, hamax]⟩
    · rw [hmax, ← hamax, ← hbmax]
      rcases max_choice a.ns b.ns with hmax | hmax
      · exact ⟨a, List.mem_append_left _ ha, hmax.symm⟩
      · exact ⟨b, List.mem_append_right _ hb, hmax.symm⟩

variable {leaves : List Leaf}

theorem exists_ns_eq_rootOver_min (h : leaves ≠ []) :
    ∃ leaf ∈ leaves, leaf.ns = (rootOver leaves).min := by
  have hleaf := exists_ns_eq_root_min (LeafTree.full_ofList h)
  rwa [LeafTree.leaves_ofList, ← rootOver_eq] at hleaf

theorem exists_ns_eq_rootOver_max (h : leaves ≠ []) :
    ∃ leaf ∈ leaves, leaf.ns = (rootOver leaves).max := by
  have hleaf := exists_ns_eq_root_max (LeafTree.full_ofList h)
  rwa [LeafTree.leaves_ofList, ← rootOver_eq] at hleaf

theorem rootOver_min_le {leaf : Leaf} (h : leaf ∈ leaves) : (rootOver leaves).min ≤ leaf.ns := by
  rw [rootOver_eq]
  exact root_min_le (by rwa [LeafTree.leaves_ofList])

theorem rootOver_min_le_max (h : leaves ≠ []) : (rootOver leaves).min ≤ (rootOver leaves).max := by
  rw [rootOver_eq]
  exact root_min_le_max (LeafTree.full_ofList h)

theorem le_rootOver_min {low : Namespace} (h : leaves ≠ [])
    (hlow : ∀ leaf ∈ leaves, low ≤ leaf.ns) :
    low ≤ (rootOver leaves).min := by
  rw [rootOver_eq]
  exact le_root_min (LeafTree.full_ofList h) (by rwa [LeafTree.leaves_ofList])

theorem rootOver_max_le {high : Namespace} (h : leaves ≠ [])
    (hhigh : ∀ leaf ∈ leaves, leaf.ns ≤ high) :
    (rootOver leaves).max ≤ high := by
  rw [rootOver_eq]
  exact root_max_le (LeafTree.full_ofList h) (by rwa [LeafTree.leaves_ofList])

theorem le_rootOver_max {leaf : Leaf} (h : leaf ∈ leaves) (hne : leaf.ns ≠ .parity) :
    leaf.ns ≤ (rootOver leaves).max := by
  rw [rootOver_eq]
  exact le_root_max (by rwa [LeafTree.leaves_ofList]) hne

end Range

end Nmt

end Availability
