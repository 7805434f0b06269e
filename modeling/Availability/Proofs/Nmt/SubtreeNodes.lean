import Availability.Proofs.Merkle.Place
import Availability.Proofs.Nmt.SubtreeProof

/-!
# Subtree roots that verify are nodes of the tree

The maker of a proof chooses the range, the nodes beside it and with them the shape of the tree that
is computed. None of this has to fit the tree whose root is checked against. The hashes make up for
it: wherever a node is computed, the tree has a node over the same two children, and what is taken
on faith in the end is a node of the tree too.

* `Nmt.nodes` – all nodes of a tree, each with **the leaves that it covers**;
* `Nmt.Tiles` – nodes that cover consecutive leaves, without a gap;
* `exists_nodes_of_value_eq` – an opening with the root of a tree takes nodes of this tree on faith,
  which cover all leaves, by induction on the opening;
* `ns_of_mem_nodes` – a node that shows a single namespace covers leaves of this namespace and of
  the parity namespace only;
* `nodes_of_verify` – so subtree roots that verify are nodes over one run of leaves of their
  namespace, **whatever range, width and nodes the proof has**.
-/

namespace Availability

namespace Nmt

open Merkle (splitPoint splitPoint_pos splitPoint_lt length_take_splitPoint)

/-! ### The nodes of a tree -/

/-- A node of a namespaced tree. -/
structure Node where
  /-- The number of the first leaf below the node. -/
  start : Nat
  /-- The number of the first leaf after these. -/
  stop : Nat
  /-- The hash of the node. -/
  hash : NamespacedHash

/-- The nodes over some leaves, of which the first one has the number `offset`. -/
def nodesFrom (offset : Nat) (leaves : List Leaf) : List Node :=
  if _ : 2 ≤ leaves.length then
    ⟨offset, offset + leaves.length, rootOver leaves⟩ ::
      (nodesFrom offset (leaves.take (splitPoint leaves.length)) ++
        nodesFrom (offset + splitPoint leaves.length) (leaves.drop (splitPoint leaves.length)))
  else [⟨offset, offset + leaves.length, rootOver leaves⟩]
termination_by leaves.length
decreasing_by
  all_goals
    have := splitPoint_pos ‹2 ≤ leaves.length›
    have := splitPoint_lt ‹2 ≤ leaves.length›
    simp only [List.length_take, List.length_drop]
    omega

/-- All nodes of a tree. The tree without leaves has a single one, its root. -/
def nodes (tree : Nmt) : List Node :=
  nodesFrom 0 tree.leaves

/-- The nodes cover the leaves from `start` up to `stop`, one after the other. -/
def Tiles : List Node → (start stop : Nat) → Prop
  | [], start, stop => start = stop
  | node :: nodes, start, stop =>
    node.start = start ∧ start ≤ node.stop ∧ Tiles nodes node.stop stop

section Nodes

variable {offset : Nat} {leaves : List Leaf} {node : Node}

/-- The uppermost node is the root. -/
theorem root_mem_nodesFrom (offset : Nat) (leaves : List Leaf) :
    ⟨offset, offset + leaves.length, rootOver leaves⟩ ∈ nodesFrom offset leaves := by
  rw [nodesFrom]
  split <;> exact List.mem_cons_self

/-- The nodes of both halves are nodes of the whole. -/
theorem nodesFrom_halves_subset (htwo : 2 ≤ leaves.length) :
    nodesFrom offset (leaves.take (splitPoint leaves.length)) ++
        nodesFrom (offset + splitPoint leaves.length) (leaves.drop (splitPoint leaves.length)) ⊆
      nodesFrom offset leaves := by
  intro node hnode
  rw [nodesFrom, dif_pos htwo]
  exact List.mem_cons_of_mem _ hnode

/-- **The hash of a node is the root over the leaves that it covers.** -/
theorem hash_of_mem_nodesFrom (h : node ∈ nodesFrom offset leaves) :
    offset ≤ node.start ∧ node.stop ≤ offset + leaves.length ∧
      node.hash = rootOver (slice leaves (node.start - offset) (node.stop - node.start)) := by
  induction offset, leaves using nodesFrom.induct with
  | case1 offset leaves htwo ihl ihr =>
    have hlt := splitPoint_lt htwo
    have htake := length_take_splitPoint htwo
    have hdrop : (leaves.drop (splitPoint leaves.length)).length =
        leaves.length - splitPoint leaves.length := List.length_drop
    rw [nodesFrom, dif_pos htwo, List.mem_cons, List.mem_append] at h
    rcases h with rfl | hleft | hright
    · simp [slice]
    · obtain ⟨hstart, hstop, hhash⟩ := ihl hleft
      refine ⟨hstart, by omega, ?_⟩
      -- the node covers leaves of the left half only, which are the first ones
      rw [hhash, slice, slice, List.drop_take, List.take_take, min_eq_left (by omega)]
    · obtain ⟨hstart, hstop, hhash⟩ := ihr hright
      refine ⟨by omega, by omega, ?_⟩
      rw [hhash, slice, slice, List.drop_drop]
      congr 3
      omega
  | case2 offset leaves hone =>
    rw [nodesFrom, dif_neg hone, List.mem_singleton] at h
    subst h
    simp [slice]

end Nodes

section Tiles

variable {xs ys : List Node} {start stop : Nat}

theorem tiles_append :
    Tiles (xs ++ ys) start stop ↔ ∃ middle, Tiles xs start middle ∧ Tiles ys middle stop := by
  induction xs generalizing start with
  | nil => simp [Tiles]
  | cons x xs ih =>
    simp only [List.cons_append, Tiles, ih]
    constructor
    · rintro ⟨hstart, hle, middle, hxs, hys⟩
      exact ⟨middle, ⟨hstart, hle, hxs⟩, hys⟩
    · rintro ⟨middle, ⟨hstart, hle, hxs⟩, hys⟩
      exact ⟨hstart, hle, middle, hxs, hys⟩

theorem Tiles.le (h : Tiles xs start stop) : start ≤ stop := by
  induction xs generalizing start with
  | nil => exact le_of_eq h
  | cons x xs ih =>
    obtain ⟨-, hle, hrest⟩ := h
    exact hle.trans (ih hrest)

/-- Each leaf of the run is covered by one of the nodes. -/
theorem Tiles.exists_mem (h : Tiles xs start stop) {i : Nat} (hstart : start ≤ i)
    (hstop : i < stop) : ∃ node ∈ xs, node.start ≤ i ∧ i < node.stop := by
  induction xs generalizing start with
  | nil =>
    obtain rfl : start = stop := h
    omega
  | cons x xs ih =>
    obtain ⟨rfl, -, hrest⟩ := h
    rcases Nat.lt_or_ge i x.stop with hlt | hge
    · exact ⟨x, List.mem_cons_self, hstart, hlt⟩
    · obtain ⟨node, hnode, hcover⟩ := ih hrest hge
      exact ⟨node, List.mem_cons_of_mem _ hnode, hcover⟩

end Tiles

/-! ### Openings and nodes -/

/-- **An opening with the root of a tree takes nodes of this tree on faith**, unless two of the
hashed strings collide. They cover all leaves, one after the other. -/
theorem exists_nodes_of_value_eq {all : List Bytes} (free : ¬Collides all) {ignoreMax : Bool}
    {o : Merkle.Opening NamespacedHash} {leaves : List Leaf}
    (hopen : (hashing ignoreMax).openingTexts o ⊆ all) (hleaves : texts leaves ⊆ all)
    (hvalue : (hashing ignoreMax).value o = rootOver leaves) (offset : Nat) :
    ∃ nodes ⊆ nodesFrom offset leaves, nodes.map Node.hash = o.frontier ∧
      Tiles nodes offset (offset + leaves.length) := by
  induction o generalizing leaves offset with
  | given value =>
    refine ⟨[⟨offset, offset + leaves.length, rootOver leaves⟩], ?_, ?_, ?_⟩
    · rw [List.cons_subset]
      exact ⟨root_mem_nodesFrom offset leaves, List.nil_subset _⟩
    · rw [List.map_singleton, ← hvalue]
      rfl
    · exact ⟨rfl, Nat.le_add_right _ _, rfl⟩
  | join left right ihl ihr =>
    -- the tree has a node where the opening has one, over the same children
    rw [rootOver_eq] at hvalue
    obtain ⟨htwo, ⟨hol, hor⟩, ⟨htl, htr⟩, hl, hr⟩ :=
      (hashing true).halves_of_value_eq (hashing ignoreMax) rfl rfl free hopen hleaves hvalue
    rw [← rootOver_eq] at hl hr
    have hlt := splitPoint_lt htwo
    obtain ⟨ls, hlsub, hlhash, hltiles⟩ := ihl hol htl hl offset
    obtain ⟨rs, hrsub, hrhash, hrtiles⟩ := ihr hor htr hr (offset + splitPoint leaves.length)
    rw [length_take_splitPoint htwo] at hltiles
    rw [List.length_drop, Nat.add_assoc, Nat.add_sub_cancel' hlt.le] at hrtiles
    refine ⟨ls ++ rs, ?_, ?_, tiles_append.mpr ⟨_, hltiles, hrtiles⟩⟩
    · intro node hnode
      refine nodesFrom_halves_subset htwo ?_
      rw [List.mem_append] at hnode ⊢
      exact hnode.imp (fun h => hlsub h) (fun h => hrsub h)
    · rw [List.map_append, hlhash, hrhash, Merkle.Opening.frontier]

/-- **A node that shows a single namespace covers no leaves of others**, but for those of the parity
namespace. -/
theorem ns_of_mem_nodes {tree : Nmt} {node : Node} {ns : Namespace} (h : node ∈ tree.nodes)
    (hmin : node.hash.min = ns) (hmax : node.hash.max = ns) {i : Nat} {leaf : Leaf}
    (hstart : node.start ≤ i) (hstop : i < node.stop) (hleaf : tree.leaves[i]? = some leaf) :
    leaf.ns = ns ∨ leaf.ns = .parity := by
  obtain ⟨-, -, hhash⟩ := hash_of_mem_nodesFrom h
  have hmem : leaf ∈ slice tree.leaves node.start (node.stop - node.start) := by
    refine List.mem_of_getElem? (i := i - node.start) ?_
    rw [slice, List.getElem?_take_of_lt (by omega), List.getElem?_drop,
      Nat.add_sub_cancel' hstart]
    exact hleaf
  rw [Nat.sub_zero] at hhash
  have hlow := rootOver_min_le hmem
  rw [← hhash, hmin] at hlow
  by_cases hparity : leaf.ns = .parity
  · exact Or.inr hparity
  · have hhigh := le_rootOver_max hmem hparity
    rw [← hhash, hmax] at hhigh
    exact Or.inl (le_antisymm hhigh hlow)

end Nmt

namespace SubtreeRoots

open Nmt (Leaf)

/-- **Subtree roots that verify are nodes of the tree**, one after the other and over a single run
of leaves, each of which is of the namespace or of the parity namespace. This holds for every proof
and every width, unless two of the strings collide that are hashed for the tree and for the
check. -/
theorem nodes_of_verify {tree : Nmt} {proof : NamespaceProof} {roots : List NamespacedHash}
    {width : Nat} {ns : Namespace} (h : verify proof roots width ns tree.root = .ok ()) :
    Collides (Nmt.texts tree.leaves ++ texts proof roots width) ∨
      ∃ run ⊆ tree.nodes, run.map Nmt.Node.hash = roots ∧
        ∃ start stop, Nmt.Tiles run start stop ∧ stop ≤ tree.leaves.length ∧
          ∀ i leaf, start ≤ i → i < stop → tree.leaves[i]? = some leaf →
            leaf.ns = ns ∨ leaf.ns = .parity := by
  rw [or_iff_not_imp_left]
  intro free
  obtain ⟨o, ho, hvalue, left, right, hfrontier⟩ := exists_opening_of_verify h
  have hopen : (Nmt.hashing proof.ignoreMax).openingTexts o ⊆
      Nmt.texts tree.leaves ++ texts proof roots width := by
    rw [texts, ho]
    exact List.subset_append_right _ _
  obtain ⟨nodes, hnodes, hhash, htiles⟩ :=
    Nmt.exists_nodes_of_value_eq free hopen (List.subset_append_left _ _) hvalue 0
  -- the nodes at the places of the subtree roots
  rw [hfrontier] at hhash
  obtain ⟨upto, after, rfl, hupto, -⟩ := List.map_eq_append_iff.mp hhash
  obtain ⟨before, run, rfl, -, hrun⟩ := List.map_eq_append_iff.mp hupto
  obtain ⟨stop, hstop, hafter⟩ := Nmt.tiles_append.mp htiles
  obtain ⟨start, -, htiles⟩ := Nmt.tiles_append.mp hstop
  have hsub : run ⊆ tree.nodes := fun node hnode => hnodes (by simp [hnode])
  refine ⟨run, hsub, hrun, start, stop, htiles, by simpa using hafter.le,
    fun i leaf hi hi' hleaf => ?_⟩
  obtain ⟨node, hnode, hlow, hhigh⟩ := htiles.exists_mem hi hi'
  -- each of these nodes was checked to be of the namespace
  obtain ⟨-, -, -, hcheck, -⟩ := verify_eq_ok_iff.mp h
  have hroot : node.hash ∈ roots := by
    rw [← hrun]
    exact List.mem_map_of_mem hnode
  obtain ⟨hmin, hmax⟩ := checkNamespace_eq_ok_iff.mp hcheck _ hroot
  exact Nmt.ns_of_mem_nodes (hsub hnode) hmin hmax hlow hhigh hleaf

/-- Two leaves of a namespace across the middle of a tree, with leaves of other namespaces beside
them. -/
theorem nodes_of_verify_middle :
    ∃ tree : Nmt, tree.leaves = [⟨.ofSuffix [1], []⟩, ⟨.ofSuffix [1, 0], [7]⟩,
        ⟨.ofSuffix [1, 0], [8]⟩, ⟨.parity, [9]⟩] ∧
      ∃ proof roots, verify proof roots 2 (.ofSuffix [1, 0]) tree.root = .ok () ∧
        (Collides (Nmt.texts tree.leaves ++ texts proof roots 2) ∨
          ∃ run ⊆ tree.nodes, run.map Nmt.Node.hash = roots ∧
            ∃ start stop, Nmt.Tiles run start stop ∧ stop ≤ tree.leaves.length ∧
              ∀ i leaf, start ≤ i → i < stop → tree.leaves[i]? = some leaf →
                leaf.ns = .ofSuffix [1, 0] ∨ leaf.ns = .parity) := by
  obtain ⟨tree, htree⟩ : ∃ tree : Nmt, tree.leaves = [⟨.ofSuffix [1], []⟩, ⟨.ofSuffix [1, 0], [7]⟩,
      ⟨.ofSuffix [1, 0], [8]⟩, ⟨.parity, [9]⟩] := by
    refine ⟨⟨_, ?_⟩, rfl⟩
    decide
  have hns : ∀ i leaf, 1 ≤ i → i < 3 → tree.leaves[i]? = some leaf →
      leaf.ns = .ofSuffix [1, 0] := by
    intro i leaf hi hi' hleaf
    rw [htree] at hleaf
    obtain rfl | rfl : i = 1 ∨ i = 2 := by omega
    · rw [← Option.some.inj hleaf]
    · rw [← Option.some.inj hleaf]
  have hverify := verify_proveRange (w := 1) (by decide) (by rw [htree]; decide) (by decide)
    (by decide) hns
  exact ⟨tree, htree, _, _, hverify, nodes_of_verify hverify⟩

end SubtreeRoots

end Availability
