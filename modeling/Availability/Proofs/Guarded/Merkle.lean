import Availability.Proofs.Guarded.Basic
import Availability.Proofs.Merkle.Tree
import Availability.Square.RowProof

/-!
# Runs over Merkle proofs

Position and number of leaves of a Merkle proof are chosen by its maker. Climbing from the leaf to
the root takes numbers off both of them, and goes on only as long as there are digests beside the
path.

* `splitPoint_eq`, `root_eq` – splitting a list never breaks a run;
* `agrees_climb` – **climbing** takes off no more than is there;
* `agrees_validateRows`, `agrees_verifyRowProof` – a row proof is refused before its rows are
  counted, if there are none.
-/

namespace Availability.Guarded

/-! ### Trees -/

/-- The number of leaves to the left. -/
def splitPoint (n : Nat) : Except Stop Nat :=
  if n < 2 then .ok 0
  else do
    let k := 1 <<< (← log2 n)
    return if k = n then k / 2 else k

theorem splitPoint_eq (n : Nat) : splitPoint n = .ok (Merkle.splitPoint n) := by
  rw [splitPoint, Merkle.splitPoint]
  by_cases hsmall : n < 2
  · rw [if_pos hsmall, if_pos hsmall]
  · rw [if_neg hsmall, if_neg hsmall, log2_eq (by omega)]
    rfl

/-- The root of the tree over some byte strings. -/
def root (leaves : List Bytes) : Except Stop Digest :=
  if leaves.length = 0 then .ok Merkle.emptyHash
  else if leaves.length = 1 then
    ensure (leaves ≠ []) .outside fun h => .ok (Merkle.leafHash (leaves.head h))
  else do
    let k ← splitPoint leaves.length
    ensure (k ≤ leaves.length) .outside fun _ =>
      ensure (0 < k ∧ k < leaves.length) .endless fun _ => do
        let left ← root (leaves.take k)
        let right ← root (leaves.drop k)
        return Merkle.innerHash left right
termination_by leaves.length
decreasing_by
  all_goals
    simp only [List.length_take, List.length_drop]
    omega

/-- **Hashing a tree never breaks a run.** -/
theorem root_eq (leaves : List Bytes) : root leaves = .ok (Merkle.root leaves) := by
  induction h : leaves.length using Nat.strong_induction_on generalizing leaves with
  | _ n ih =>
    subst h
    rw [root, Merkle.root]
    rcases Nat.lt_or_ge leaves.length 2 with hsmall | htwo
    · rcases leaves with _ | ⟨leaf, rest⟩
      · rw [if_pos List.length_nil, List.map_nil, Merkle.combine_nil]
      · obtain rfl : rest = [] :=
          List.eq_nil_of_length_eq_zero (by rw [List.length_cons] at hsmall; omega)
        rw [if_neg (by simp), if_pos List.length_singleton, ensure_of (List.cons_ne_nil _ _),
          List.map_singleton, Merkle.combine_singleton]
        rfl
    · have hpos := Merkle.splitPoint_pos htwo
      have hlt := Merkle.splitPoint_lt htwo
      have hleft := ih _ hlt (leaves.take (Merkle.splitPoint leaves.length))
        (List.length_take_of_le hlt.le)
      have hright := ih _ (by omega) (leaves.drop (Merkle.splitPoint leaves.length))
        List.length_drop
      rw [if_neg (by omega), if_neg (by omega), splitPoint_eq,
        Merkle.combine_of_two_le _ _ (by rwa [List.length_map]), List.length_map,
        ← List.map_take, ← List.map_drop]
      change ensure _ _ _ = _
      rw [ensure_of hlt.le, ensure_of ⟨hpos, hlt⟩, hleft, hright]
      rfl

/-! ### Merkle proofs -/

/-- Climbs from a leaf to the root of a tree. -/
def climb (leaf : Digest) : (index total : Nat) → (aunts : List Digest) → Except Stop Digest
  | index, total, aunts =>
    if total = 0 ∨ total ≤ index then throw (.refused (.refuted (.indexOutside index total)))
    else if total = 1 then
      if aunts.isEmpty then .ok leaf else throw (.refused (.refuted .extraAunts))
    else do
      let k ← splitPoint total
      match aunts with
      | [] => throw (.refused (.refuted .missingAunts))
      | aunt :: aunts =>
        if index < k then (Merkle.innerHash · aunt) <$> climb leaf index k aunts
        else do
          let index ← sub index k
          let total ← sub total k
          (Merkle.innerHash aunt ·) <$> climb leaf index total aunts

/-- **Climbing never breaks a run**: the way to the right is taken by indexes that are large enough,
and there are leaves on the right. -/
theorem agrees_climb (leaf : Digest) (index total : Nat) (aunts : List Digest) :
    Agrees (climb leaf index total aunts)
      ((MerkleProof.climb leaf index total aunts).mapError .refuted) := by
  induction aunts generalizing index total with
  | nil =>
    rw [climb, MerkleProof.climb, splitPoint_eq]
    simp only [apply_ite (Except.mapError _)]
    refine .ite (fun _ => .error rfl) fun _ => ?_
    refine .ite (fun _ => .ite (fun _ => .ok leaf) fun _ => .error rfl) fun _ => ?_
    exact .error rfl
  | cons aunt aunts ih =>
    rw [climb, MerkleProof.climb, splitPoint_eq]
    simp only [apply_ite (Except.mapError _)]
    refine .ite (fun _ => .error rfl) fun hindex => ?_
    refine .ite (fun _ => .ite (fun _ => .ok leaf) fun _ => .error rfl) fun hone => ?_
    have htwo : 2 ≤ total := by omega
    have hlt := Merkle.splitPoint_lt htwo
    change Agrees (if _ then _ else _) (if _ then _ else _)
    refine .ite (fun _ => ?_) fun hright => ?_
    · rw [Checked.mapError_map]
      exact (ih _ _).map _
    · rw [sub_eq (not_lt.mp hright), sub_eq hlt.le, Checked.mapError_map]
      exact (ih _ _).map _

/-- Checks that a byte string is the proven leaf of a tree with the given root. -/
def verifyMerkle (proof : MerkleProof) (leaf : Bytes) (root : Digest) : Except Stop Unit := do
  let leaf := Merkle.leafHash leaf
  if leaf ≠ proof.leafHash then throw (.refused (.refuted .otherLeaf))
  let computed ← climb leaf proof.index proof.total proof.aunts.reverse
  if computed ≠ root then throw (.refused .rootMismatch)

theorem agrees_verifyMerkle (proof : MerkleProof) (leaf : Bytes) (root : Digest) :
    Agrees (verifyMerkle proof leaf root) (proof.verify leaf root) := by
  simp only [verifyMerkle, MerkleProof.verify, Checked.throw_bind]
  refine .refuse rfl fun _ => ?_
  refine .bind (agrees_climb _ _ _ _) fun computed _ => ?_
  exact .refuse rfl fun _ => .ok ()

/-! ### Row proofs -/

/-- Checks that there are as many roots and proofs as rows. -/
def validateRows (cause : Malformation → Error) (proof : RowProof) : Except Stop Unit := do
  if proof.last < proof.first then
    throw (.refused (cause (.rowOrder proof.last.toNat proof.first.toNat)))
  let rows ← add (← sub proof.last.toNat proof.first.toNat) 1
  if proof.rowRoots.length ≠ rows then
    throw (.refused (cause (.rowRootCount proof.rowRoots.length rows)))
  if proof.proofs.length ≠ rows then
    throw (.refused (cause (.rowProofCount proof.proofs.length rows)))

/-- **Counting the rows never breaks a run**, as the last one is known not to be above the first. -/
theorem agrees_validateRows (cause : Malformation → Error) (hcause : ∀ fault, (cause fault).Refutes)
    (proof : RowProof) : Agrees (validateRows cause proof) (proof.validate.mapError cause) := by
  simp only [validateRows, RowProof.validate, Checked.throw_bind, apply_ite (Except.mapError _)]
  refine .refuse (hcause _) fun horder => ?_
  have hle : proof.first.toNat ≤ proof.last.toNat :=
    UInt32.le_iff_toNat_le.mp (UInt32.not_lt.mp horder)
  have hbound : proof.last.toNat - proof.first.toNat + 1 < UInt64.size := by
    have := proof.last.toNat_lt
    unfold UInt64.size
    omega
  simp only [sub_eq hle, add_eq hbound, Checked.ok_bind]
  exact .refuse (hcause _) fun _ => .refuse (hcause _) fun _ => .ok ()

/-- Checks the proof of each row, given the number of the first one. -/
def verifyRowProofs (root : Digest) :
    (row : Nat) → List NamespacedHash → List MerkleProof → Except Stop Unit
  | row, rowRoot :: rowRoots, proof :: proofs => do
    if proof.index ≠ row then throw (.refused (.refuted (.otherRow proof.index row)))
    verifyMerkle proof rowRoot.toBytes root
    verifyRowProofs root (row + 1) rowRoots proofs
  | _, _, _ => .ok ()

theorem agrees_verifyRowProofs (root : Digest) (row : Nat) (rowRoots : List NamespacedHash)
    (proofs : List MerkleProof) :
    Agrees (verifyRowProofs root row rowRoots proofs)
      (RowProof.verifyRows root row rowRoots proofs) := by
  induction rowRoots generalizing row proofs with
  | nil => exact .ok ()
  | cons rowRoot rowRoots ih =>
    rcases proofs with _ | ⟨proof, proofs⟩
    · exact .ok ()
    simp only [verifyRowProofs, RowProof.verifyRows, Checked.throw_bind]
    refine .refuse rfl fun _ => ?_
    exact .bind (agrees_verifyMerkle _ _ _) fun _ _ => ih _ _

/-- Checks that the rows have the given roots, at their own places under the data root. -/
def verifyRowProof (proof : RowProof) (root : Digest) : Except Stop Unit := do
  validateRows (fun fault => .refuted (.malformedRows fault)) proof
  verifyRowProofs root proof.first.toNat proof.rowRoots proof.proofs

theorem agrees_verifyRowProof (proof : RowProof) (root : Digest) :
    Agrees (verifyRowProof proof root) (proof.verify root) :=
  .bind (agrees_validateRows (fun fault => .refuted (.malformedRows fault)) (fun _ => rfl) proof)
    fun _ _ => agrees_verifyRowProofs _ _ _ _

end Availability.Guarded
