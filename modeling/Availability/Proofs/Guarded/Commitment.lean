import Availability.Proofs.Blob.Proof
import Availability.Proofs.Guarded.Subtree

/-!
# Commitment proofs fail closed

A commitment proof comes from a node that nobody has to trust, and is checked as it was received.
Whatever its numbers, nodes and namespaces are, checking it ends without breaking, and if it does
not end well, it says that the proof does not hold.

* `ceilSqrt_eq`, `subtreeWidth?_eq` – the width of the subtrees is found within 64 bits;
* `shareCount_eq` – the shares that the rows claim can be added up, once there are **as many rows as
  32 bits can number**;
* `CommitmentProof.verify_failsClosed` – the main statement.
-/

namespace Availability

namespace Guarded

/-! ### Widths of subtrees -/

/-- The product of two numbers, or the largest number there is. -/
def saturatingMul (m n : Nat) : Nat :=
  min (m * n) (UInt64.size - 1)

/-- Counts up from an estimate until its square is not below `n`. -/
def raise (n estimate : Nat) : Except Stop Nat :=
  if saturatingMul estimate estimate < n then
    ensure (estimate + 1 < UInt64.size) .overflow fun _ => raise n (estimate + 1)
  else .ok estimate
termination_by UInt64.size - estimate

/-- Counts down from an estimate while the square of the number below it is not below `n`. -/
def lower (n estimate : Nat) : Except Stop Nat :=
  if _ : 0 < estimate then
    ensure (1 ≤ estimate) .negative fun _ =>
      if n ≤ saturatingMul (estimate - 1) (estimate - 1) then lower n (estimate - 1)
      else .ok estimate
  else .ok estimate
termination_by estimate

/-- The rounded up square root. -/
def ceilSqrt (n : Nat) : Except Stop Nat := do
  lower n (← raise n (Float.sqrt (Float.ofNat n)).toUInt64.toNat)

theorem saturatingMul_lt_iff {m n k : Nat} (h : k < UInt64.size) :
    saturatingMul m n < k ↔ m * n < k := by
  unfold saturatingMul
  omega

/-- Only numbers of 32 bits have squares that are too small. -/
theorem raise_eq {n : Nat} (h : n < UInt64.size) (estimate : Nat) :
    raise n estimate = .ok (CeilSqrt.raise n estimate) := by
  induction estimate using CeilSqrt.raise.induct n with
  | case1 estimate hlt ih =>
    have hle : estimate ≤ estimate * estimate := Nat.le_mul_self estimate
    have hbound : estimate + 1 < UInt64.size := by omega
    rw [raise, CeilSqrt.raise, if_pos ((saturatingMul_lt_iff h).mpr hlt), if_pos hlt,
      ensure_of hbound, ih]
  | case2 estimate hle =>
    rw [raise, CeilSqrt.raise, if_neg (mt (saturatingMul_lt_iff h).mp hle), if_neg hle]

theorem lower_eq {n : Nat} (h : n < UInt64.size) (estimate : Nat) :
    lower n estimate = .ok (CeilSqrt.lower n estimate) := by
  induction estimate with
  | zero => rw [lower, dif_neg (Nat.lt_irrefl 0), CeilSqrt.lower]
  | succ r ih =>
    rw [lower, CeilSqrt.lower, dif_pos r.succ_pos, ensure_of (Nat.le_add_left 1 r),
      Nat.add_sub_cancel]
    by_cases hle : n ≤ r * r
    · rw [if_pos hle, if_pos (not_lt.mp (mt (saturatingMul_lt_iff h).mp (not_lt.mpr hle))), ih]
    · rw [if_neg hle, if_neg (not_le.mpr ((saturatingMul_lt_iff h).mpr (not_le.mp hle)))]

theorem ceilSqrt_eq {n : Nat} (h : n < UInt64.size) :
    ceilSqrt n = .ok (Availability.ceilSqrt n) := by
  rw [ceilSqrt, raise_eq h, Checked.ok_bind, lower_eq h]
  rfl

/-- The number of shares for each of `threshold` subtrees, rounded up. -/
def leastWidth (shares threshold : Nat) : Except Stop Nat :=
  if shares % threshold ≠ 0 then add (shares / threshold) 1 else .ok (shares / threshold)

/-- The largest width of a subtree for the given number of shares, if there is one. -/
def subtreeWidth? (shares threshold : Nat) : Except Stop (Option Nat) :=
  if threshold = 0 then .ok none
  else do
    match roundUp? (← leastWidth shares threshold) with
    | none => .ok none
    | some width =>
      match roundUp? (← ceilSqrt shares) with
      | none => .ok none
      | some square => .ok (some (min width square))

theorem leastWidth_eq {shares : Nat} (h : shares < UInt64.size) (threshold : Nat) :
    leastWidth shares threshold =
      .ok (if shares % threshold = 0 then shares / threshold else shares / threshold + 1) := by
  have hle := leastWidth_le shares threshold
  rw [leastWidth]
  by_cases hmod : shares % threshold = 0
  · rw [if_neg (not_not.mpr hmod), if_pos hmod]
  · rw [if_neg hmod] at hle
    rw [if_pos hmod, if_neg hmod, add_eq (hle.trans_lt h)]

/-- **The width of the subtrees is found without breaking the run.** -/
theorem subtreeWidth?_eq {shares : Nat} (h : shares < UInt64.size) (threshold : Nat) :
    subtreeWidth? shares threshold = .ok (Availability.subtreeWidth? shares threshold) := by
  by_cases hzero : threshold = 0
  · rw [subtreeWidth?, if_pos hzero, Availability.subtreeWidth?, hzero]
    rfl
  have hguard : (guard (threshold ≠ 0) : Option Unit) = some () := if_pos hzero
  rw [subtreeWidth?, if_neg hzero, leastWidth_eq h, Checked.ok_bind]
  simp only [Availability.subtreeWidth?, hguard, minSquare?, ceilSqrt_eq h, Checked.ok_bind]
  generalize (if shares % threshold = 0 then shares / threshold else shares / threshold + 1) = least
  rcases roundUp? least with _ | width
  · rfl
  rcases roundUp? (Availability.ceilSqrt shares) with _ | square
  · rfl
  · rfl

/-! ### Commitment proofs -/

/-- Checks that the numbers of the parts fit together, and that no row proves an absence. -/
def validate (proof : CommitmentProof) : Except Stop Unit := do
  validateRows .malformed proof.rowProof
  if proof.rangeProofs.length ≠ proof.rowProof.rowRoots.length then
    throw (.refused (.malformed
      (.rangeProofCount proof.rangeProofs.length proof.rowProof.rowRoots.length)))
  if proof.subtreeRoots.isEmpty then throw (.refused (.malformed .noSubtreeRoots))
  if proof.rangeProofs.any NamespaceProof.isOfAbsence then throw (.refused .absenceProof)

theorem agrees_validate (proof : CommitmentProof) : Agrees (validate proof) proof.validate := by
  simp only [validate, CommitmentProof.validate, Checked.throw_bind]
  refine .bind (agrees_validateRows .malformed (fun _ => trivial) proof.rowProof) fun _ _ => ?_
  refine .refuse trivial fun _ => ?_
  refine .refuse trivial fun _ => ?_
  exact .refuse rfl fun _ => .ok ()

/-- The number of shares that the ranges of the rows claim. -/
def shareCount (proof : CommitmentProof) : Except Stop Nat :=
  proof.rangeProofs.foldlM (fun sum rangeProof => add sum rangeProof.leafCount) 0

theorem foldlM_add_eq {proofs : List NamespaceProof} {sum : Nat}
    (h : sum + (proofs.map NamespaceProof.leafCount).foldr (· + ·) 0 < UInt64.size) :
    proofs.foldlM (fun sum rangeProof => add sum rangeProof.leafCount) sum =
      .ok (sum + (proofs.map NamespaceProof.leafCount).foldr (· + ·) 0) := by
  induction proofs generalizing sum with
  | nil => rfl
  | cons proof proofs ih =>
    rw [List.map_cons, List.foldr_cons] at h ⊢
    rw [List.foldlM_cons, add_eq (by omega), Checked.ok_bind, ih (by omega), Nat.add_assoc]

/-- A range has less leaves than 32 bits can number. -/
theorem foldr_leafCount_le (proofs : List NamespaceProof) :
    (proofs.map NamespaceProof.leafCount).foldr (· + ·) 0 ≤ proofs.length * (2 ^ 32 - 1) := by
  induction proofs with
  | nil => exact Nat.zero_le _
  | cons proof proofs ih =>
    have hcount : proof.leafCount ≤ 2 ^ 32 - 1 :=
      (Nat.sub_le _ _).trans (Nat.le_sub_one_of_lt proof.stop.toNat_lt)
    rw [List.map_cons, List.foldr_cons, List.length_cons, Nat.succ_mul]
    omega

/-- **The claimed shares fit into 64 bits**, as there is one range for each row. -/
theorem shareCount_lt {proof : CommitmentProof} (h : proof.validate = .ok ()) :
    proof.shareCount < UInt64.size := by
  obtain ⟨hrows, hcount, -⟩ := CommitmentProof.validate_eq_ok_iff.mp h
  obtain ⟨-, hroots, -⟩ := RowProof.validate_eq_ok_iff.mp hrows
  have hlast := proof.rowProof.last.toNat_lt
  have hlength : proof.rangeProofs.length ≤ 2 ^ 32 := by omega
  calc proof.shareCount ≤ proof.rangeProofs.length * (2 ^ 32 - 1) := foldr_leafCount_le _
    _ ≤ 2 ^ 32 * (2 ^ 32 - 1) := Nat.mul_le_mul_right _ hlength
    _ < UInt64.size := by decide

theorem shareCount_eq {proof : CommitmentProof} (h : proof.validate = .ok ()) :
    shareCount proof = .ok proof.shareCount := by
  have hlt := shareCount_lt h
  rw [CommitmentProof.shareCount] at hlt
  rw [shareCount, foldlM_add_eq (by rwa [Nat.zero_add]), Nat.zero_add, CommitmentProof.shareCount]

/-- Checks the subtree roots against the row roots, row by row, and gives back those that no row
needed. -/
def verifyRows (ns : Namespace) (width : Nat) :
    List NamespaceProof → List NamespacedHash → (roots : List NamespacedHash) →
      Except Stop (List NamespacedHash)
  | proof :: proofs, rowRoot :: rowRoots, roots => do
    let ranges ← leafRanges proof.start.toNat proof.stop.toNat width
    if roots.length < ranges.length then
      throw (.refused (.refuted (.fewSubtreeRoots ranges.length roots.length)))
    ensure (ranges.length ≤ roots.length) .outside fun _ => do
      verifySubtreeRoots proof (roots.take ranges.length) width ns rowRoot
      verifyRows ns width proofs rowRoots (roots.drop ranges.length)
  | _, _, roots => .ok roots

theorem agrees_verifyRows (ns : Namespace) (width : Nat) (proofs : List NamespaceProof)
    (rowRoots roots : List NamespacedHash) :
    Agrees (verifyRows ns width proofs rowRoots roots)
      (CommitmentProof.verifyRows ns width proofs rowRoots roots) := by
  induction proofs generalizing rowRoots roots with
  | nil => exact .ok roots
  | cons proof proofs ih =>
    rcases rowRoots with _ | ⟨rowRoot, rowRoots⟩
    · exact .ok roots
    simp only [verifyRows, CommitmentProof.verifyRows, Checked.throw_bind]
    have hstop : proof.stop.toNat < UInt64.size := proof.stop.toNat_lt.trans (by decide)
    refine .bind (agrees_leafRanges _ _ hstop) fun ranges _ => ?_
    refine .refuse rfl fun hfew => .ensure (not_lt.mp hfew) ?_
    exact .bind (agrees_verifySubtreeRoots _ _ _ _ _) fun _ _ => ih _ _

/-- Checks the proof. -/
def verifyParts (proof : CommitmentProof) (commitment : Commitment) (dataRoot : Digest)
    (threshold : Nat) : Except Stop Unit := do
  validate proof
  match ← subtreeWidth? (← shareCount proof) threshold with
  | none => throw (.refused (.refuted (.threshold threshold)))
  | some width =>
    let unused ←
      verifyRows proof.ns width proof.rangeProofs proof.rowProof.rowRoots proof.subtreeRoots
    if !unused.isEmpty then throw (.refused (.refuted (.manySubtreeRoots unused.length)))
    let computed ← root (proof.subtreeRoots.map NamespacedHash.toBytes)
    if computed ≠ commitment then throw (.refused (.refuted (.otherCommitment commitment)))
    verifyRowProof proof.rowProof dataRoot

theorem agrees_verifyParts (proof : CommitmentProof) (commitment : Commitment) (dataRoot : Digest)
    (threshold : Nat) :
    Agrees (verifyParts proof commitment dataRoot threshold)
      (proof.verifyParts commitment dataRoot threshold) := by
  rw [verifyParts, CommitmentProof.verifyParts]
  refine .bind (agrees_validate proof) fun _ hvalid => ?_
  rw [shareCount_eq hvalid, Checked.ok_bind, subtreeWidth?_eq (shareCount_lt hvalid),
    Checked.ok_bind]
  rcases Availability.subtreeWidth? proof.shareCount threshold with _ | width
  · exact .error rfl
  simp only [Checked.throw_bind, root_eq, Checked.ok_bind]
  refine .bind (agrees_verifyRows _ _ _ _ _) fun unused _ => ?_
  refine .refuse rfl fun _ => .refuse rfl fun _ => ?_
  exact agrees_verifyRowProof proof.rowProof dataRoot

/-- Checks that the blob of the commitment is in the block of the data root. -/
def verify (proof : CommitmentProof) (commitment : Commitment) (dataRoot : Digest)
    (threshold : Nat) : Except Stop Unit :=
  (verifyParts proof commitment dataRoot threshold).mapError fun
    | .refused error => .refused (CommitmentProof.refute error)
    | .broken fault => .broken fault

theorem kind_refute {error : Error} (h : error.Refutes) :
    (CommitmentProof.refute error).kind = .invalidProof := by
  cases error
  case malformed => rfl
  case namespacedHash => rfl
  all_goals exact h

end Guarded

/-- **Commitment proofs fail closed.** Whatever a proof is made of, whether anyone has validated it
or not, checking it on a machine ends just as the check does, and never breaks: nothing overflows,
falls below zero or is split behind its end, all nodes that are hashed are in order, and no loop
goes on forever. A proof that is not accepted is refused as one that does not hold. -/
theorem CommitmentProof.verify_failsClosed (proof : CommitmentProof) (commitment : Commitment)
    (dataRoot : Digest) (threshold : Nat) :
    Guarded.verify proof commitment dataRoot threshold =
        (proof.verify commitment dataRoot threshold).mapError .refused ∧
      (proof.verify commitment dataRoot threshold = .ok () ∨
        ∃ error, proof.verify commitment dataRoot threshold = .error error ∧
          error.kind = .invalidProof) := by
  obtain ⟨hrun, hrefutes⟩ := Guarded.agrees_verifyParts proof commitment dataRoot threshold
  rw [Guarded.verify, hrun, verify]
  cases hcheck : proof.verifyParts commitment dataRoot threshold with
  | ok result => exact ⟨rfl, Or.inl rfl⟩
  | error error => exact ⟨rfl, Or.inr ⟨_, rfl, Guarded.kind_refute (hrefutes error hcheck)⟩⟩

end Availability
