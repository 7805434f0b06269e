import Availability.Merkle.Proof
import Availability.Proofs.Checked
import Availability.Proofs.Merkle.Tree

/-!
# What a Merkle proof shows

A proof is made by walking down to its leaf, and it is checked by climbing up again. Whoever checks
it does not know the tree: the position and the number of leaves, which say on which side every
digest is joined, come from the proof.

* `MerkleProof.climb_path` – a proof that was made **leads back to the root**;
* `MerkleProof.make_eq_ok` – so it verifies;
* `MerkleProof.verify_eq_error_of_ne` – and it does so for no other root;
* `MerkleProof.opening` – what is computed of a tree while a proof is checked;
* `MerkleProof.openingTexts_path_subset` – for a proof that was made, **nothing new is hashed**;
* `MerkleProof.mem_of_verify` – whatever the proof says about its place, a byte string that verifies
  is a leaf.
-/

namespace Availability.MerkleProof

open Merkle

/-! ### Making a proof -/

theorem path_of_lt {index : Nat} {leaves : List Digest} (h : 2 ≤ leaves.length)
    (hlt : index < splitPoint leaves.length) :
    path index leaves =
      (innerHash (path index (leaves.take (splitPoint leaves.length))).1
          (combine innerHash emptyHash (leaves.drop (splitPoint leaves.length))),
        (path index (leaves.take (splitPoint leaves.length))).2 ++
          [combine innerHash emptyHash (leaves.drop (splitPoint leaves.length))]) := by
  rw [path, dif_pos h]
  simp only [if_pos hlt]

theorem path_of_le {index : Nat} {leaves : List Digest} (h : 2 ≤ leaves.length)
    (hle : splitPoint leaves.length ≤ index) :
    path index leaves =
      (innerHash (combine innerHash emptyHash (leaves.take (splitPoint leaves.length)))
          (path (index - splitPoint leaves.length)
            (leaves.drop (splitPoint leaves.length))).1,
        (path (index - splitPoint leaves.length) (leaves.drop (splitPoint leaves.length))).2 ++
          [combine innerHash emptyHash (leaves.take (splitPoint leaves.length))]) := by
  rw [path, dif_pos h]
  simp only [if_neg (Nat.not_lt.mpr hle)]

/-- The walk down to a leaf finds the root on its way. -/
theorem path_fst (index : Nat) (leaves : List Digest) :
    (path index leaves).1 = combine innerHash emptyHash leaves := by
  induction index, leaves using path.induct with
  | case1 index leaves h k hlt left aunts hpath ih =>
    rw [path_of_lt h hlt, ih, combine_of_two_le innerHash emptyHash h]
  | case2 index leaves h k hle right aunts hpath ih =>
    rw [path_of_le h (Nat.le_of_not_lt hle), ih, combine_of_two_le innerHash emptyHash h]
  | case3 index leaves h =>
    rw [path, dif_neg h, combine, dif_neg h]

theorem climb_one (leaf : Digest) : climb leaf 0 1 [] = .ok leaf := by
  rw [climb]
  simp

/-- One step of the climb. -/
theorem climb_cons {leaf aunt : Digest} {index total : Nat} {aunts : List Digest}
    (h : 2 ≤ total) (hlt : index < total) :
    climb leaf index total (aunt :: aunts) =
      if index < splitPoint total then
        (innerHash · aunt) <$> climb leaf index (splitPoint total) aunts
      else (innerHash aunt ·) <$>
        climb leaf (index - splitPoint total) (total - splitPoint total) aunts := by
  rw [climb, if_neg (by omega), if_neg (by omega)]

/-- **Climbing the path of a leaf leads to the root.** -/
theorem climb_path {index : Nat} {leaves : List Digest} {leaf : Digest}
    (h : leaves[index]? = some leaf) :
    climb leaf index leaves.length (path index leaves).2.reverse =
      .ok (combine innerHash emptyHash leaves) := by
  have hlt := (List.getElem?_eq_some_iff.mp h).1
  induction index, leaves using path.induct with
  | case1 index leaves htwo k hk left aunts hpath ih =>
    -- the leaf is on the left, and the root of the right side is the uppermost aunt
    have hsplit := splitPoint_lt htwo
    have hlength : (leaves.take k).length = k := by
      rw [List.length_take]
      omega
    have hleft := ih (by rwa [List.getElem?_take_of_lt hk]) (by omega)
    rw [hlength] at hleft
    rw [path_of_lt htwo hk, List.reverse_append, List.reverse_singleton, List.singleton_append,
      climb_cons htwo hlt, if_pos hk, hleft, combine_of_two_le _ _ htwo]
    rfl
  | case2 index leaves htwo k hk right aunts hpath ih =>
    have hle := Nat.le_of_not_lt hk
    have hright := ih (by rwa [List.getElem?_drop, Nat.add_sub_cancel' hle])
      (by rw [List.length_drop]; omega)
    rw [List.length_drop] at hright
    rw [path_of_le htwo hle, List.reverse_append, List.reverse_singleton, List.singleton_append,
      climb_cons htwo hlt, if_neg hk, hright, combine_of_two_le _ _ htwo]
    rfl
  | case3 index leaves htwo =>
    rcases leaves_cases leaves with rfl | ⟨x, rfl⟩ | h'
    · simp at hlt
    · obtain rfl : index = 0 := by simpa using hlt
      obtain rfl : x = leaf := by simpa using h
      rw [path, dif_neg htwo, combine_singleton]
      exact climb_one x
    · exact absurd h' htwo

/-! ### Checking a proof -/

/-- Without digests beside the path there is a single leaf. -/
theorem climb_nil_eq_ok_iff {leaf root : Digest} {index total : Nat} :
    climb leaf index total [] = .ok root ↔ index = 0 ∧ total = 1 ∧ leaf = root := by
  rw [climb]
  split
  case isTrue h => simp; omega
  case isFalse h =>
    split
    case isTrue hone =>
      obtain rfl : index = 0 := by omega
      simp [hone]
    case isFalse hone => simp [hone]

/-- With a digest beside the path, one of the sides is climbed and joined to it. -/
theorem climb_cons_eq_ok_iff {leaf aunt root : Digest} {index total : Nat} {aunts : List Digest} :
    climb leaf index total (aunt :: aunts) = .ok root ↔ 2 ≤ total ∧ index < total ∧
      (index < splitPoint total ∧ (∃ left, climb leaf index (splitPoint total) aunts = .ok left ∧
          innerHash left aunt = root) ∨
        splitPoint total ≤ index ∧ ∃ right, climb leaf (index - splitPoint total)
          (total - splitPoint total) aunts = .ok right ∧ innerHash aunt right = root) := by
  rcases Decidable.em (2 ≤ total ∧ index < total) with ⟨htwo, hlt⟩ | hout
  · rw [climb_cons htwo hlt]
    split
    case isTrue hk => simp [htwo, hlt, hk, Nat.not_le.mpr hk]
    case isFalse hk => simp [htwo, hlt, hk, Nat.le_of_not_lt hk]
  · refine iff_of_false (fun h => ?_) fun h => hout ⟨h.1, h.2.1⟩
    rw [climb] at h
    split at h
    · cases h
    · rw [if_pos (by omega)] at h
      cases h

/-- What has to hold for a proof to verify. -/
theorem verify_eq_ok_iff {proof : MerkleProof} {leaf : Bytes} {root : Digest} :
    proof.verify leaf root = .ok () ↔
      Merkle.leafHash leaf = proof.leafHash ∧
        climb (Merkle.leafHash leaf) proof.index proof.total proof.aunts.reverse = .ok root := by
  simp only [verify, Checked.throw_bind, Checked.ite_throw_eq_ok_iff, Checked.bind_eq_ok_iff,
    Checked.mapError_eq_ok_iff, Checked.pure_eq_ok_iff, not_not]
  constructor
  · rintro ⟨hleaf, computed, hclimb, rfl, -⟩
    exact ⟨hleaf, hclimb⟩
  · rintro ⟨hleaf, hclimb⟩
    exact ⟨hleaf, root, hclimb, rfl, trivial⟩

/-- **A proof that verifies for one root** is refused for every other one. -/
theorem verify_eq_error_of_ne {proof : MerkleProof} {leaf : Bytes} {root root' : Digest}
    (h : proof.verify leaf root = .ok ()) (hne : root' ≠ root) :
    proof.verify leaf root' = .error .rootMismatch := by
  obtain ⟨hleaf, hclimb⟩ := verify_eq_ok_iff.mp h
  rw [verify, if_neg (not_not.mpr hleaf), hclimb]
  exact if_pos hne.symm

/-- **The proof of a leaf**: it is for the given position, comes with the root, and verifies. -/
theorem make_eq_ok {index : Nat} {leaves : List Bytes} {leaf : Bytes}
    (h : leaves[index]? = some leaf) :
    ∃ proof, make index leaves = .ok (proof, Merkle.root leaves) ∧ proof.index = index ∧
      proof.verify leaf (Merkle.root leaves) = .ok () := by
  have hhash : (leaves.map Merkle.leafHash)[index]? = some (Merkle.leafHash leaf) := by
    rw [List.getElem?_map, h, Option.map_some]
  have hclimb := climb_path hhash
  rw [List.length_map] at hclimb
  let proof : MerkleProof :=
    { index, total := leaves.length, leafHash := Merkle.leafHash leaf
      aunts := (path index (leaves.map Merkle.leafHash)).2 }
  refine ⟨proof, ?_, rfl, verify_eq_ok_iff.mpr ⟨rfl, hclimb⟩⟩
  rw [make, h]
  exact congrArg (fun root => Except.ok (proof, root)) (path_fst index _)

/-! ### What is computed -/

/-- What is computed of a tree while a proof is checked: the path of the leaf. The digests beside it
are taken on faith. -/
def opening (leaf : Digest) : (index total : Nat) → (aunts : List Digest) → Opening Digest
  | _, _, [] => .given leaf
  | index, total, aunt :: aunts =>
    if index < splitPoint total then
      .join (opening leaf index (splitPoint total) aunts) (.given aunt)
    else
      .join (.given aunt)
        (opening leaf (index - splitPoint total) (total - splitPoint total) aunts)

/-- The climb computes the value of this opening. -/
theorem value_opening {leaf root : Digest} {index total : Nat} {aunts : List Digest}
    (h : climb leaf index total aunts = .ok root) :
    Merkle.hashing.value (opening leaf index total aunts) = root := by
  induction aunts generalizing index total root with
  | nil =>
    obtain ⟨-, -, rfl⟩ := climb_nil_eq_ok_iff.mp h
    rfl
  | cons aunt aunts ih =>
    rw [opening]
    obtain ⟨-, -, ⟨hk, left, hleft, rfl⟩ | ⟨hk, right, hright, rfl⟩⟩ := climb_cons_eq_ok_iff.mp h
    · rw [if_pos hk, Hashing.value, ih hleft]
      rfl
    · rw [if_neg (Nat.not_lt.mpr hk), Hashing.value, ih hright]
      rfl

/-- The leaf is among what is taken on faith. -/
theorem mem_frontier_opening (leaf : Digest) (index total : Nat) (aunts : List Digest) :
    leaf ∈ (opening leaf index total aunts).frontier := by
  induction aunts generalizing index total with
  | nil => simp [opening, Opening.frontier]
  | cons aunt aunts ih =>
    rw [opening]
    split
    · exact List.mem_append_left _ (ih _ _)
    · exact List.mem_append_right _ (ih _ _)

/-- The strings that are hashed while a proof is checked. -/
def texts (proof : MerkleProof) (leaf : Bytes) : List Bytes :=
  Merkle.hashing.leafText leaf :: Merkle.hashing.openingTexts
    (opening (Merkle.leafHash leaf) proof.index proof.total proof.aunts.reverse)

/-- Climbing the path of a leaf computes the root over all leaves. -/
theorem value_opening_path {index : Nat} {leaves : List Bytes} {leaf : Bytes}
    (h : leaves[index]? = some leaf) :
    Merkle.hashing.value (opening (Merkle.leafHash leaf) index leaves.length
        (path index (leaves.map Merkle.leafHash)).2.reverse) =
      Merkle.hashing.root (LeafTree.ofList leaves) := by
  have hclimb := climb_path (show (leaves.map Merkle.leafHash)[index]? =
    some (Merkle.leafHash leaf) by rw [List.getElem?_map, h, Option.map_some])
  rw [List.length_map] at hclimb
  rw [value_opening hclimb]
  exact (Merkle.hashing.root_ofList leaves).symm

/-- **Checking the proof of a leaf hashes nothing new**: all of its strings were hashed for the
tree. -/
theorem openingTexts_path_subset {index : Nat} {leaves : List Bytes} {leaf : Bytes}
    (h : leaves[index]? = some leaf) :
    Merkle.hashing.openingTexts (opening (Merkle.leafHash leaf) index leaves.length
      (path index (leaves.map Merkle.leafHash)).2.reverse) ⊆ Merkle.texts leaves := by
  induction hn : leaves.length using Nat.strong_induction_on generalizing index leaves with
  | _ n ih =>
    subst hn
    have hlt := (List.getElem?_eq_some_iff.mp h).1
    rcases leaves_cases leaves with rfl | ⟨x, rfl⟩ | htwo
    · simp at hlt
    · rw [List.map_singleton, path, dif_neg (by simp)]
      exact List.nil_subset _
    have hk := splitPoint_lt htwo
    have htwo' : 2 ≤ (leaves.map Merkle.leafHash).length := by rwa [List.length_map]
    have hother (half : List Bytes) :
        combine innerHash emptyHash (half.map Merkle.leafHash) =
          Merkle.hashing.root (LeafTree.ofList half) := (Merkle.hashing.root_ofList half).symm
    rw [Merkle.texts, LeafTree.ofList_of_two_le htwo, Hashing.texts]
    rcases Nat.lt_or_ge index (splitPoint leaves.length) with hleft | hright
    · have htake := length_take_splitPoint htwo
      have hside : (leaves.take (splitPoint leaves.length))[index]? = some leaf := by
        rwa [List.getElem?_take_of_lt hleft]
      have hvalue := value_opening_path hside
      have hsub := ih _ hk hside htake
      rw [htake] at hvalue
      rw [path_of_lt htwo' (by rwa [List.length_map]), List.length_map, ← List.map_take,
        ← List.map_drop, List.reverse_append, List.reverse_singleton, List.singleton_append,
        opening, if_pos hleft, Hashing.openingTexts, hvalue, Hashing.value, hother]
      exact List.cons_subset_cons _ (List.append_subset.mpr
        ⟨List.subset_append_of_subset_left _ hsub, List.nil_subset _⟩)
    · have hdrop : (leaves.drop (splitPoint leaves.length)).length =
          leaves.length - splitPoint leaves.length := List.length_drop
      have hside : (leaves.drop (splitPoint leaves.length))[index - splitPoint leaves.length]? =
          some leaf := by
        rwa [List.getElem?_drop, Nat.add_sub_cancel' hright]
      have hpos := splitPoint_pos htwo
      have hvalue := value_opening_path hside
      have hsub := ih _ (by omega) hside hdrop
      rw [hdrop] at hvalue
      rw [path_of_le htwo' (by rwa [List.length_map]), List.length_map, ← List.map_take,
        ← List.map_drop, List.reverse_append, List.reverse_singleton, List.singleton_append,
        opening, if_neg (Nat.not_lt.mpr hright), Hashing.openingTexts, hvalue, Hashing.value,
        hother]
      exact List.cons_subset_cons _ (List.append_subset.mpr
        ⟨List.nil_subset _, List.subset_append_of_subset_right _ hsub⟩)

/-- The proof of a leaf is for the number of leaves, and checking it hashes nothing new. -/
theorem of_make_eq_ok {index : Nat} {leaves : List Bytes} {leaf : Bytes} {proof : MerkleProof}
    {root : Digest} (h : leaves[index]? = some leaf)
    (hmake : make index leaves = .ok (proof, root)) :
    proof.total = leaves.length ∧ proof.texts leaf ⊆ Merkle.texts leaves := by
  rw [make, h] at hmake
  obtain rfl := (Prod.mk.inj (Except.ok.inj hmake)).1
  refine ⟨rfl, List.cons_subset.mpr ⟨?_, openingTexts_path_subset h⟩⟩
  refine Merkle.hashing.leafText_mem_texts ?_
  rw [LeafTree.leaves_ofList]
  exact List.mem_of_getElem? h

/-- **What verifies is a leaf**, unless two of the hashed strings collide. The proof may say about
its place what it likes. -/
theorem mem_of_verify {proof : MerkleProof} {leaf : Bytes} {leaves : List Bytes} {all : List Bytes}
    (free : ¬Collides all) (hproof : proof.texts leaf ⊆ all) (hleaves : Merkle.texts leaves ⊆ all)
    (h : proof.verify leaf (Merkle.root leaves) = .ok ()) : leaf ∈ leaves := by
  rw [texts, List.cons_subset] at hproof
  have hvalue := value_opening (verify_eq_ok_iff.mp h).2
  rw [Merkle.root_eq] at hvalue
  obtain ⟨subtrees, hroots, hsubleaves, hsubtexts⟩ :=
    Merkle.hashing.exists_subtrees Merkle.hashing rfl rfl free hproof.2 hleaves hvalue
  have hmem := mem_frontier_opening (Merkle.leafHash leaf) proof.index proof.total
    proof.aunts.reverse
  rw [← hroots] at hmem
  obtain ⟨subtree, hsubtree, hroot⟩ := List.mem_map.mp hmem
  -- the subtree at the place of the leaf has its digest, so it is the leaf
  have heq : subtree = .leaf leaf :=
    Merkle.hashing.eq_of_root_eq free (hsubtexts subtree hsubtree)
      (by simpa [Hashing.texts] using hproof.1) hroot
  rw [← LeafTree.leaves_ofList leaves, ← hsubleaves]
  exact List.mem_flatMap.mpr ⟨subtree, hsubtree, by simp [heq, LeafTree.leaves]⟩

end Availability.MerkleProof
