import Availability.Proofs.Merkle.Place

/-!
# The digests beside a path

Next to the digest of its leaf, a proof brings the digests beside the way from the root to the leaf.
Nobody tells whoever checks it how many of them there have to be, or which ones. The place and the
number of leaves settle the first, before anything is hashed: one digest for each turn. The root
settles the second. So each way down a tree has one proof, and when a proof is for the number of
leaves that there are, it is the one that is made for its leaf.

* `MerkleProof.follow` – joining digests **along a way**, and nothing but the way;
* `MerkleProof.climb_eq_follow` – a climb does this, along the turns of its place;
* `MerkleProof.exists_follow_eq_ok_iff` – it leads to some root exactly when there is a digest for
  each turn;
* `MerkleProof.make_proves_leaf` – the proof that is made verifies for its root and for no other
  one, and no digest can be added to it or left out;
* `MerkleProof.verify_iff_exists_turns` – **which proofs verify** under the root of a list;
* `MerkleProof.leaf_of_verify` – so what verifies is a leaf, and a proof for the number of leaves
  that there are is the one that is made.
-/

namespace Availability.MerkleProof

open Merkle

/-! ### Following a way -/

/-- Joins digests to a leaf along the way down to it. The turn at the root comes first, and so does
the digest beside it. -/
def follow (leaf : Digest) : (way : List Bool) → (aunts : List Digest) → Except Refutation Digest
  | [], [] => .ok leaf
  | [], _ :: _ => .error .extraAunts
  | _ :: _, [] => .error .missingAunts
  | false :: way, aunt :: aunts => (innerHash · aunt) <$> follow leaf way aunts
  | true :: way, aunt :: aunts => (innerHash aunt ·) <$> follow leaf way aunts

/-- **A climb follows the turns of its place**: it depends on the place and on the number of leaves
in no other way. -/
theorem climb_eq_follow {leaf : Digest} {index total : Nat} (h : index < total)
    (aunts : List Digest) :
    climb leaf index total aunts = follow leaf (turns index total) aunts := by
  induction index, total using turns.induct generalizing aunts with
  | case1 index total htwo k hk ih =>
    rw [turns_of_lt htwo hk]
    rcases aunts with _ | ⟨aunt, aunts⟩
    · rw [climb, if_neg (by omega), if_neg (by omega), follow]
    · rw [climb_cons htwo h, if_pos hk, ih hk, follow]
  | case2 index total htwo k hk ih =>
    have hsplit := splitPoint_lt htwo
    rw [turns_of_le htwo (Nat.le_of_not_lt hk)]
    rcases aunts with _ | ⟨aunt, aunts⟩
    · rw [climb, if_neg (by omega), if_neg (by omega), follow]
    · rw [climb_cons htwo h, if_neg hk, ih (by omega), follow]
  | case3 index total hone =>
    obtain rfl : total = 1 := by omega
    rw [turns_of_lt_two (by norm_num)]
    rcases aunts with _ | ⟨aunt, aunts⟩
    · rw [climb, if_neg (by omega), if_pos rfl]
      rfl
    · rw [climb, if_neg (by omega), if_pos rfl]
      rfl

/-- A climb is for the place of a leaf. -/
theorem lt_of_climb_eq_ok {leaf root : Digest} {index total : Nat} {aunts : List Digest}
    (h : climb leaf index total aunts = .ok root) : index < total := by
  cases aunts with
  | nil =>
    obtain ⟨rfl, rfl, -⟩ := climb_nil_eq_ok_iff.mp h
    exact Nat.one_pos
  | cons aunt aunts => exact (climb_cons_eq_ok_iff.mp h).2.1

/-- **Each turn needs a digest**, and each digest a turn. Which digests these are only decides to
which root the way leads. -/
theorem exists_follow_eq_ok_iff {leaf : Digest} {way : List Bool} {aunts : List Digest} :
    (∃ root, follow leaf way aunts = .ok root) ↔ aunts.length = way.length := by
  induction way generalizing aunts with
  | nil => cases aunts <;> simp [follow]
  | cons turn way ih =>
    cases aunts with
    | nil => simp [follow]
    | cons aunt aunts =>
      rw [List.length_cons, List.length_cons, Nat.add_right_cancel_iff, ← ih]
      cases turn <;> simp [follow, Checked.map_eq_ok_iff]

/-! ### The number of digests -/

/-- A proof that verifies has a digest for each turn. -/
theorem length_aunts_of_verify {proof : MerkleProof} {leaf : Bytes} {root : Digest}
    (h : proof.verify leaf root = .ok ()) :
    proof.aunts.length = (turns proof.index proof.total).length := by
  have hclimb := (verify_eq_ok_iff.mp h).2
  rw [climb_eq_follow (lt_of_climb_eq_ok hclimb)] at hclimb
  rw [← exists_follow_eq_ok_iff.mp ⟨root, hclimb⟩, List.length_reverse]

/-- **A proof with more or fewer digests** than one that verifies is refused, whatever they are and
whatever it is checked against. -/
theorem exists_verify_eq_error {proof : MerkleProof} {leaf : Bytes} {root : Digest}
    (h : proof.verify leaf root = .ok ()) {aunts : List Digest}
    (hlength : aunts.length ≠ proof.aunts.length) (leaf' : Bytes) (root' : Digest) :
    ∃ error, ({ proof with aunts } : MerkleProof).verify leaf' root' = .error error := by
  cases hverify : ({ proof with aunts } : MerkleProof).verify leaf' root' with
  | error error => exact ⟨error, rfl⟩
  | ok =>
    have hsame := (length_aunts_of_verify hverify).trans (length_aunts_of_verify h).symm
    exact absurd hsame hlength

/-! ### The proof that is made -/

/-- **Nothing but a place outside of the leaves has no proof.** -/
theorem make_eq_error_iff {index : Nat} {leaves : List Bytes} {error : Error} :
    make index leaves = .error error ↔
      leaves.length ≤ index ∧ error = .indexOutside index leaves.length := by
  rw [make]
  cases hleaf : leaves[index]? with
  | none =>
    have hle := List.getElem?_eq_none_iff.mp hleaf
    constructor
    · intro h
      exact ⟨hle, (Except.error.inj h).symm⟩
    · rintro ⟨-, rfl⟩
      rfl
  | some leaf =>
    have hlt := (List.getElem?_eq_some_iff.mp hleaf).1
    constructor
    · intro h
      cases h
    · rintro ⟨hle, -⟩
      omega

/-- **Every leaf has a proof, and no place outside of the leaves has one.** The proof comes with the
root of the leaves. It verifies for its leaf with this root, and with no other root; with more or
fewer digests it does not verify at all. -/
theorem make_proves_leaf (index : Nat) (leaves : List Bytes) :
    (∀ error, make index leaves = .error error ↔
      leaves.length ≤ index ∧ error = .indexOutside index leaves.length) ∧
    ∀ leaf, leaves[index]? = some leaf →
      ∃ proof, make index leaves = .ok (proof, Merkle.root leaves) ∧
        proof.verify leaf (Merkle.root leaves) = .ok () ∧
        (∀ root, root ≠ Merkle.root leaves → proof.verify leaf root = .error .rootMismatch) ∧
        ∀ aunts : List Digest, aunts.length ≠ proof.aunts.length → ∀ leaf' root,
          ∃ error, ({ proof with aunts } : MerkleProof).verify leaf' root = .error error := by
  refine ⟨fun error => make_eq_error_iff, ?_⟩
  intro leaf hleaf
  obtain ⟨proof, hmake, -, hverify⟩ := make_eq_ok hleaf
  refine ⟨proof, hmake, hverify, ?_, ?_⟩
  · intro root hroot
    exact verify_eq_error_of_ne hverify hroot
  · intro aunts hlength leaf' root
    exact exists_verify_eq_error hverify hlength leaf' root

/-- The last of three leaves, whose path is the shorter one: its proof is refused under the root of
no leaves, and with one more digest. -/
theorem make_proves_leaf_last : ∃ proof,
    make 2 [[7], [8], [9]] = .ok (proof, Merkle.root [[7], [8], [9]]) ∧
      proof.verify [9] (Merkle.root [[7], [8], [9]]) = .ok () ∧
      proof.verify [9] emptyHash = .error .rootMismatch ∧
      ∃ error, ({ proof with aunts := proof.aunts ++ [emptyHash] } : MerkleProof).verify [9]
        (Merkle.root [[7], [8], [9]]) = .error error := by
  obtain ⟨-, hleaf⟩ := make_proves_leaf 2 [[7], [8], [9]]
  obtain ⟨proof, hmake, hverify, hroot, hlength⟩ := hleaf [9] rfl
  have hne : emptyHash.bytes ≠ (Merkle.root [[7], [8], [9]]).bytes := by decide +kernel
  exact ⟨proof, hmake, hverify, hroot _ (fun h => hne (congrArg Digest.bytes h)),
    hlength _ (by simp) _ _⟩

/-! ### Which proofs verify -/

section Verify

variable {proof : MerkleProof} {leaf : Bytes} {leaves all : List Bytes} (free : ¬Collides all)
  (hproof : proof.texts leaf ⊆ all) (hleaves : Merkle.texts leaves ⊆ all)
include free hproof hleaves

/-- **Which proofs verify** under the root of a list, unless two of the hashed strings collide:
those that go the way of some place of their leaf, with the digests beside this way. The place and
the number of leaves that the proof names may be others with the same way. -/
theorem verify_iff_exists_turns :
    proof.verify leaf (Merkle.root leaves) = .ok () ↔
      Merkle.leafHash leaf = proof.leafHash ∧ proof.index < proof.total ∧
        ∃ j, leaves[j]? = some leaf ∧ turns proof.index proof.total = turns j leaves.length ∧
          proof.aunts = (path j (leaves.map Merkle.leafHash)).2 := by
  constructor
  · intro h
    exact ⟨(verify_eq_ok_iff.mp h).1, exists_turns_of_verify free hproof hleaves h⟩
  · rintro ⟨hleaf, hlt, j, hj, hturns, haunts⟩
    have hlt' := (List.getElem?_eq_some_iff.mp hj).1
    have hclimb := climb_path (show (leaves.map Merkle.leafHash)[j]? =
      some (Merkle.leafHash leaf) by rw [List.getElem?_map, hj, Option.map_some])
    rw [List.length_map, climb_eq_follow hlt'] at hclimb
    refine verify_eq_ok_iff.mpr ⟨hleaf, ?_⟩
    rw [climb_eq_follow hlt, hturns, haunts]
    exact hclimb

/-- **A proof that verifies is the one that is made**, when it is for as many leaves as there are,
unless two of the hashed strings collide. -/
theorem make_eq_of_verify (h : proof.verify leaf (Merkle.root leaves) = .ok ())
    (htotal : proof.total = leaves.length) :
    leaves[proof.index]? = some leaf ∧
      make proof.index leaves = .ok (proof, Merkle.root leaves) := by
  obtain ⟨hleaf, hlt, j, hj, hturns, haunts⟩ :=
    (verify_iff_exists_turns free hproof hleaves).mp h
  obtain ⟨index, total, digest, aunts⟩ := proof
  obtain rfl : total = leaves.length := htotal
  obtain rfl : Merkle.leafHash leaf = digest := hleaf
  -- different leaves of a tree have different ways
  obtain rfl : index = j := turns_injective hlt (List.getElem?_eq_some_iff.mp hj).1 hturns
  obtain rfl : aunts = (path index (leaves.map Merkle.leafHash)).2 := haunts
  refine ⟨hj, ?_⟩
  rw [make, hj]
  exact congrArg (fun root => Except.ok (_, root)) (path_fst index _)

end Verify

/-- **What verifies is a leaf**, unless two of the strings collide that are hashed for the root and
for the check. The proof may be for any place and any number of leaves. When it is for as many
leaves as there are, the leaf is the one at its place, and the proof is the one that is made for
it. -/
theorem leaf_of_verify {proof : MerkleProof} {leaf : Bytes} {leaves : List Bytes}
    (h : proof.verify leaf (Merkle.root leaves) = .ok ()) :
    Collides (Merkle.texts leaves ++ proof.texts leaf) ∨
      leaf ∈ leaves ∧ (proof.total = leaves.length →
        leaves[proof.index]? = some leaf ∧
          make proof.index leaves = .ok (proof, Merkle.root leaves)) := by
  rw [or_iff_not_imp_left]
  intro free
  have hleaves : Merkle.texts leaves ⊆ Merkle.texts leaves ++ proof.texts leaf :=
    List.subset_append_left _ _
  have hproof : proof.texts leaf ⊆ Merkle.texts leaves ++ proof.texts leaf :=
    List.subset_append_right _ _
  exact ⟨mem_of_verify free hproof hleaves h, make_eq_of_verify free hproof hleaves h⟩

/-- The last of three leaves: there is a proof to apply this to, and it is for three leaves. -/
theorem leaf_of_verify_last : ∃ proof : MerkleProof,
    (proof.verify [9] (Merkle.root [[7], [8], [9]]) = .ok () ∧ proof.total = 3) ∧
      (Collides (Merkle.texts [[7], [8], [9]] ++ proof.texts [9]) ∨
        [9] ∈ ([[7], [8], [9]] : List Bytes) ∧ (proof.total = 3 →
          ([[7], [8], [9]] : List Bytes)[proof.index]? = some [9] ∧
            make proof.index [[7], [8], [9]] = .ok (proof, Merkle.root [[7], [8], [9]]))) := by
  have hleaf : ([[7], [8], [9]] : List Bytes)[2]? = some [9] := rfl
  obtain ⟨proof, hmake, -, hverify⟩ := make_eq_ok hleaf
  have htotal : proof.total = 3 := (of_make_eq_ok hleaf hmake).1
  exact ⟨proof, ⟨hverify, htotal⟩, leaf_of_verify hverify⟩

end Availability.MerkleProof
