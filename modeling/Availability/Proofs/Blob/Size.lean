import Availability.Proofs.Blob.Inclusion
import Availability.Proofs.Nmt.SubtreePlace

/-!
# The number of shares that a proof claims

The width of the subtrees of a blob follows from the number of its shares, and whoever checks a
commitment proof adds this number up from the ranges of the proof. What is known of these ranges is
how many subtrees they have: as many as there are subtree roots. The row itself is not known, so a
subtree root may be taken for that of a subtree twice as wide, with the nodes beside it pushed
further to the right; the same row root is computed either way.

* `CommitmentProof.sum_rootCounts_of_verifyRows` – the ranges have **as many subtrees** as there are
  subtree roots;
* `CommitmentProof.sum_length_of_verifyRows` – when they fit their rows, they have **as many
  leaves** as there are shares;
* `CommitmentProof.shareCount_of_verify` – so the number of shares is right, for every proof with
  ranges that fit the rows that it names;
* `CommitmentProof.exists_verify_shareCount_ne` – and **for other proofs it may be wrong**;
* `CommitmentProof.shareCount_of_header` – the rows of a square are all as wide as the square, so
  there is nothing else to know of them.
-/

namespace Availability.CommitmentProof

open Merkle (LeafTree)

/-- The number of subtrees that the ranges of a proof have, for the width that follows from the
number of shares that they claim. -/
def subtreeCount (proof : CommitmentProof) (threshold : Nat) : Nat :=
  match subtreeWidth? proof.shareCount threshold with
  | none => 0
  | some width => (rootCounts width proof.rangeProofs).sum

section Rows

variable {ns ns' : Namespace} {width : Nat} {proofs : List NamespaceProof}

/-- **When no subtree root is left over, there are as many as the ranges have subtrees.** -/
theorem sum_rootCounts_of_verifyRows {rowRoots roots : List NamespacedHash}
    (hcount : proofs.length = rowRoots.length)
    (h : verifyRows ns width proofs rowRoots roots = .ok []) :
    (rootCounts width proofs).sum = roots.length := by
  induction proofs generalizing rowRoots roots with
  | nil =>
    rw [verifyRows] at h
    · rw [Except.ok.inj h]
      rfl
    · simp
  | cons proof proofs ih =>
    rcases rowRoots with _ | ⟨rowRoot, rowRoots⟩
    · simp at hcount
    · obtain ⟨hle, -, hrest⟩ := verifyRows_cons_eq_ok_iff.mp h
      have hsum := ih (by simpa using hcount) hrest
      rw [List.length_drop] at hsum
      rw [rootCounts, List.map_cons, List.sum_cons, ← rootCounts, hsum]
      omega

/-- **When the ranges fit their rows, they have as many leaves as there are shares**, unless two of
the hashed strings collide. -/
theorem sum_length_of_verifyRows {all : List Bytes} (free : ¬Collides all)
    {rows : List (List Nmt.Leaf)} {groups : List (List Share)}
    (hgroups : (groups.flatMap fun group => Nmt.texts (groupLeaves ns group)) ⊆ all)
    (hproofs : rowTexts width proofs (cut (rootCounts width proofs) (groupRoots ns groups)) ⊆ all)
    (hrows : rows.flatMap Nmt.texts ⊆ all)
    (hfits : List.Forall₂ (fun proof row => proof.Fits row.length) proofs rows)
    (h : verifyRows ns' width proofs (rows.map Nmt.rootOver) (groupRoots ns groups) = .ok []) :
    (groups.map List.length).sum = (proofs.map NamespaceProof.leafCount).sum := by
  induction hfits generalizing groups with
  | nil =>
    rw [verifyRows] at h
    · rw [List.map_eq_nil_iff.mp (Except.ok.inj h)]
      rfl
    · simp
  | @cons proof row proofs rows hfit _ ih =>
    obtain ⟨-, hverify, hrest⟩ := verifyRows_cons_eq_ok_iff.mp h
    obtain ⟨-, -, -, -, _, hranges, -⟩ := SubtreeRoots.verify_eq_ok_iff.mp hverify
    obtain ⟨w, rfl⟩ := isPowerOfTwo_iff.mp (leafRanges_eq_ok_iff.mp hranges).2.1
    -- the groups of this row, and those of the rows below
    rw [rootCounts, List.map_cons, cut, rowTexts, List.append_subset, ← rootCounts] at hproofs
    rw [List.flatMap_cons, List.append_subset] at hrows
    generalize (coverRange (2 ^ w) proof.start.toNat proof.stop.toNat).length = count
      at hverify hrest hproofs
    have hcut := List.take_append_drop count groups
    rw [← hcut, List.flatMap_append, List.append_subset] at hgroups
    rw [groupRoots, ← List.map_take] at hverify
    rw [groupRoots, ← List.map_drop] at hrest
    rw [groupRoots, ← List.map_take, ← List.map_drop] at hproofs
    have hrow := SubtreeRoots.sum_length_of_verify free hproofs.1 hrows.1 hfit hverify
      (show _ = ((groups.take count).map (groupLeaves ns)).map Nmt.rootOver by
        rw [List.map_map]; rfl)
      (by rw [List.flatMap_map]; exact hgroups.1)
    have hbelow := ih hgroups.2 hproofs.2 hrows.2 hrest
    have hlength : ((groups.take count).map (groupLeaves ns)).map List.length =
        (groups.take count).map List.length := by
      rw [List.map_map]
      exact List.map_congr_left fun group _ => List.length_map _
    rw [hlength] at hrow
    rw [← hcut, List.map_append, List.sum_append, hrow, hbelow, List.map_cons, List.sum_cons]

end Rows

/-- **A commitment proof has as many subtrees as the blob, and claims as many shares** if its ranges
fit their rows: whatever the data root is, when the row roots in the proof are those of some rows,
and each range is within its row and has as many nodes as there are beside it. This holds unless two
of the hashed strings collide. -/
theorem shareCount_of_verify {ns : Namespace} {data : Bytes} {version : UInt8} {threshold : Nat}
    {c : Commitment} {dataRoot : Digest} {proof : CommitmentProof}
    (hcommit : commit ns data version threshold = .ok c)
    (hverify : proof.verify c dataRoot threshold = .ok ()) (rows : List (List Nmt.Leaf)) :
    Collides (commitTexts ns data version threshold ++ proof.texts threshold ++
        rows.flatMap Nmt.texts) ∨
      proof.subtreeCount threshold =
          (shareGroups (Share.split ns version data) threshold).length ∧
        (proof.FitsRows rows → proof.shareCount = (Share.split ns version data).length) := by
  rw [or_iff_not_imp_left]
  intro free
  obtain ⟨hvalid, ht, rfl⟩ := commit_eq_ok_iff.mp hcommit
  have hs := length_split_le_two_pow hvalid
  -- where the hashed strings come from
  generalize hall : commitTexts ns data version threshold ++ proof.texts threshold ++
    rows.flatMap Nmt.texts = all at free
  have hsub := List.Subset.refl all
  nth_rewrite 1 [← hall] at hsub
  obtain ⟨hvalidate, width, hwidth, hrows, hcommitment, -⟩ := verify_eq_ok_iff.mp hverify
  obtain ⟨-, hcount, -⟩ := validate_eq_ok_iff.mp hvalidate
  simp only [List.append_subset, commitTexts, groupTexts, texts, hwidth] at hsub
  obtain ⟨⟨⟨hgroups, hgroupRoots⟩, ⟨hrowTexts, hrootTexts⟩, -⟩, hrowLeaves⟩ := hsub
  have hroots : proof.subtreeRoots =
      groupRoots ns (shareGroups (Share.split ns version data) threshold) :=
    eq_of_commitmentOf_eq free hrootTexts hgroupRoots hcommitment
  rw [hroots] at hrows hrowTexts
  constructor
  · simp only [subtreeCount, hwidth]
    rw [sum_rootCounts_of_verifyRows hcount hrows, groupRoots, List.length_map]
  · rintro ⟨hrowRoots, hfits⟩
    rw [hrowRoots] at hrows
    have hsum := sum_length_of_verifyRows free hgroups hrowTexts hrowLeaves hfits hrows
    rw [← List.length_flatten, flatten_shareGroups hs ht] at hsum
    rw [hsum]
    rfl

/-- A blob of three shares in a square of width four, with a proof that fits its two rows. -/
theorem shareCount_of_verify_thousand :
    ∃ (data : Bytes) (header : AvailabilityHeader) (c : Commitment) (proof : CommitmentProof)
      (rows : List (List Nmt.Leaf)), data.length = 1000 ∧ rows.length = 2 ∧
      (commit (.ofSuffix [1, 0]) data 0 64 = .ok c ∧ proof.verify c header.hash 64 = .ok () ∧
        proof.FitsRows rows) ∧
      (Collides (commitTexts (.ofSuffix [1, 0]) data 0 64 ++ proof.texts 64 ++
          rows.flatMap Nmt.texts) ∨
        proof.subtreeCount 64 =
            (shareGroups (Share.split (.ofSuffix [1, 0]) 0 data) 64).length ∧
          (proof.FitsRows rows →
            proof.shareCount = (Share.split (.ofSuffix [1, 0]) 0 data).length)) := by
  have hlen : (List.replicate 1000 (7 : UInt8)).length = 1000 := List.length_replicate
  obtain ⟨square, header, c, proof, -, hcommit, hverify, hfits⟩ := exists_square_of_thousand hlen
  exact ⟨_, header, c, proof, _, hlen, rfl, ⟨hcommit, hverify, hfits⟩,
    shareCount_of_verify hcommit hverify _⟩

/-! ### A proof that does not fit -/

theorem subtreeWidth?_two : subtreeWidth? 2 1 = some 2 := by
  have hsqrt : ceilSqrt 2 = 2 := by
    refine le_antisymm (ceilSqrt_le_self 2) ?_
    by_contra h
    exact absurd (ceilSqrt_le_iff.mp (Nat.le_of_lt_succ (not_le.mp h))) (by decide)
  have hsquare : minSquare? 2 = some 2 := by
    rw [minSquare?, hsqrt]
    decide
  have hleast : roundUp? 2 = some 2 := by decide
  simp [subtreeWidth?, hsquare, hleast]

theorem coverRange_ofRange_two (nodes : List NamespacedHash) :
    coverRange 2 (NamespaceProof.ofRange 0 2 nodes).start.toNat
      (NamespaceProof.ofRange 0 2 nodes).stop.toNat = [(0, 2)] := by
  have hnext : nextWidth 0 2 (2 ^ 1) = 2 := by decide
  have hcover := coverRange_cons 1 (show 0 < 2 by decide)
  rwa [hnext, Nat.zero_add, coverRange_of_le le_rfl] at hcover

/-- A proof that takes a subtree root for that of two leaves, in a row that has nothing else. -/
def ofTwo (ns : Namespace) (root : NamespacedHash) : CommitmentProof where
  subtreeRoots := [root]
  rangeProofs := [.ofRange 0 2 []]
  ns
  rowProof :=
    { rowRoots := [root], first := 0, last := 0
      proofs :=
        [{ index := 0, total := 1, leafHash := Merkle.leafHash root.toBytes, aunts := [] }] }

/-- The proof verifies whatever the subtree root is the root of. -/
theorem verify_ofTwo {ns : Namespace} {root : NamespacedHash} (hmin : root.min = ns)
    (hmax : root.max = ns) :
    (ofTwo ns root).verify (commitmentOf [root]) (commitmentOf [root]) 1 = .ok () := by
  have hrow : SubtreeRoots.verify (.ofRange 0 2 []) [root] 2 ns root = .ok () := by
    refine SubtreeRoots.verify_eq_ok_iff.mpr ⟨rfl, ?_, ?_, ?_, [(0, 2)],
      leafRanges_eq_ok_iff.mpr ⟨by decide, by decide, coverRange_ofRange_two []⟩, rfl, root,
      ⟨[], [], []⟩, ?_, rfl, rfl⟩
    · rw [SubtreeRoots.validateOrder_eq_ok_iff, hmin, hmax]
    · simp [Namespace.isOutside, Namespace.isBelow, Namespace.isAbove, hmin, hmax]
    · exact SubtreeRoots.checkNamespace_eq_ok_iff.mpr (by simp [hmin, hmax])
    · rw [show SubtreeRoots.planSize _ = 2 from by decide]
      exact SubtreeRoots.rebuild_of_range (by decide) rfl
  have hclimb := MerkleProof.climb_one (Merkle.leafHash root.toBytes)
  have hcommitment : commitmentOf [root] = Merkle.leafHash root.toBytes :=
    Merkle.combine_singleton _ _ _
  refine verify_eq_ok_iff.mpr ⟨validate_eq_ok_iff.mpr ⟨?_, rfl, by simp [ofTwo], ?_⟩, 2,
    subtreeWidth?_two, verifyRows_cons_eq_ok_iff.mpr ?_, rfl,
    RowProof.verify_eq_ok_iff.mpr ⟨?_, ?_⟩⟩
  · exact RowProof.validate_eq_ok_iff.mpr ⟨UInt32.le_refl _, rfl, rfl⟩
  · simp [ofTwo, NamespaceProof.ofRange, NamespaceProof.isOfAbsence]
  · rw [coverRange_ofRange_two]
    exact ⟨le_rfl, hrow, rfl⟩
  · exact RowProof.validate_eq_ok_iff.mpr ⟨UInt32.le_refl _, rfl, rfl⟩
  · rintro (_ | i) rowRoot merkleProof hroot hproof
    · obtain rfl := Option.some.inj hroot
      obtain rfl := Option.some.inj hproof
      exact ⟨rfl, MerkleProof.verify_eq_ok_iff.mpr ⟨rfl, by rw [hcommitment]; exact hclimb⟩⟩
    · cases hroot

/-- All that is hashed to check the proof is the subtree root. -/
theorem texts_ofTwo (ns : Namespace) (root : NamespacedHash) :
    (ofTwo ns root).texts 1 = [0 :: root.toBytes, 0 :: root.toBytes] := by
  have hwidth : subtreeWidth? (ofTwo ns root).shareCount 1 = some 2 := subtreeWidth?_two
  have hopening : SubtreeRoots.texts (.ofRange 0 2 []) [root] 2 = [] := by
    rw [SubtreeRoots.texts, SubtreeRoots.opening, coverRange_ofRange_two, SubtreeRoots.plan]
    rfl
  simp only [texts, hwidth]
  simp only [ofTwo, rootCounts, List.map_cons, List.map_nil, coverRange_ofRange_two,
    List.length_singleton, cut, rowTexts, List.take_succ_cons, List.take_nil, hopening]
  rw [Merkle.texts, LeafTree.ofList_singleton]
  rfl

set_option maxRecDepth 100000 in
/-- **A blob of a single byte passes for one of two shares**, and no two of the strings that are
hashed for it collide. -/
theorem exists_verify_shareCount_ne :
    ∃ (c : Commitment) (dataRoot : Digest) (proof : CommitmentProof),
      commit (.ofSuffix [1, 0]) [7] 0 1 = .ok c ∧ proof.verify c dataRoot 1 = .ok () ∧
      ¬Collides (commitTexts (.ofSuffix [1, 0]) [7] 0 1 ++ proof.texts 1) ∧
      proof.shareCount ≠ (Share.split (.ofSuffix [1, 0]) 0 [7]).length := by
  generalize hns : Namespace.ofSuffix [1, 0] = ns
  obtain ⟨share, hshare⟩ := Share.exists_split_eq_singleton
    (show ns.isCompact = false by rw [← hns]; decide) 0
    (show ([7] : Bytes).length < 478 by decide)
  have hgroups := shareGroups_singleton share one_ne_zero
  have hroots : groupRoots ns [[share]] = [.ofLeaf ns share.bytes] := by
    simp [groupRoots, groupLeaves]
  have hcommit := commit_eq_ok_iff.mpr ⟨show validateBlob ns [7] 0 = .ok () by rw [← hns]; decide,
    one_ne_zero, rfl⟩
  rw [hshare, hgroups, hroots] at hcommit
  refine ⟨_, _, ofTwo ns (.ofLeaf ns share.bytes), hcommit, verify_ofTwo rfl rfl, ?_, ?_⟩
  · have htexts : commitTexts ns [7] 0 1 =
        [0 :: (ns.bytes ++ share.bytes), 0 :: (NamespacedHash.ofLeaf ns share.bytes).toBytes] := by
      rw [commitTexts, hshare, hgroups, groupTexts, hroots, List.map_singleton, Merkle.texts,
        LeafTree.ofList_singleton, List.flatMap_singleton, groupLeaves, List.map_singleton,
        Nmt.texts, LeafTree.ofList_singleton]
      rfl
    have hfree : ¬Collides
        [0 :: (ns.bytes ++ share.bytes), 0 :: (NamespacedHash.ofLeaf ns share.bytes).toBytes] := by
      obtain rfl := (List.cons.inj hshare).1
      subst hns
      exact not_collides_of_pairwise (by decide +kernel)
    rw [htexts, texts_ofTwo]
    exact fun h => hfree (h.mono (by simp))
  · rw [hshare]
    exact show 2 ≠ 1 by decide

/-! ### Squares -/

/-- **A commitment proof claims as many shares as the blob has**, when it is checked against the
header of a square and its ranges fit the width of the square. This holds unless two of the hashed
strings collide. -/
theorem shareCount_of_header {square : ExtendedSquare} {app : AppVersion}
    {header : AvailabilityHeader} (hheader : square.header app = .ok header) {ns : Namespace}
    {data : Bytes} {version : UInt8} {threshold : Nat} {c : Commitment} {proof : CommitmentProof}
    (hcommit : commit ns data version threshold = .ok c)
    (hverify : proof.verify c header.hash threshold = .ok ())
    (hfits : ∀ rangeProof ∈ proof.rangeProofs, rangeProof.Fits square.width) :
    Collides (allTexts square header ns data version threshold proof threshold) ∨
      proof.shareCount = (Share.split ns version data).length := by
  rw [or_iff_not_imp_left]
  intro free
  obtain ⟨hvalidate, width, hwidth, -, -, hrow⟩ := verify_eq_ok_iff.mp hverify
  obtain ⟨-, hcount, -⟩ := validate_eq_ok_iff.mp hvalidate
  generalize hall : allTexts square header ns data version threshold proof threshold = all at free
  have hsub := List.Subset.refl all
  nth_rewrite 1 [← hall] at hsub
  simp only [allTexts, List.append_subset] at hsub
  obtain ⟨⟨⟨hsquare, hleaves⟩, hblob⟩, hproof⟩ := hsub
  have hrowTexts := hproof
  simp only [texts, hwidth, List.append_subset] at hrowTexts
  -- every row root in the proof is that of a line of the square
  have hline (root : NamespacedHash) (hroot : root ∈ proof.rowProof.rowRoots) :
      ∃ row, root = Nmt.rootOver row ∧ row.length = square.width ∧ Nmt.texts row ⊆ all := by
    have hmem := RowProof.mem_of_verify free hrowTexts.2 hleaves hrow hroot
    obtain ⟨axis, index, hindex, heq⟩ := ExtendedSquare.exists_line hheader hmem
    exact ⟨_, heq, ExtendedSquare.length_lineLeaves hheader axis hindex,
      List.Subset.trans (ExtendedSquare.texts_lineLeaves_subset axis hindex) hsquare⟩
  choose! line hlineRoot hlineLength hlineTexts using hline
  have hlines : (proof.rowProof.rowRoots.map line).flatMap Nmt.texts ⊆ all := by
    intro text htext
    obtain ⟨row, hrow, htext⟩ := List.mem_flatMap.mp htext
    obtain ⟨root, hroot, rfl⟩ := List.mem_map.mp hrow
    exact hlineTexts root hroot htext
  refine ((shareCount_of_verify hcommit hverify (proof.rowProof.rowRoots.map line)).resolve_left
    fun h => free (h.mono ?_)).2 ⟨?_, ?_⟩
  · exact List.append_subset.mpr ⟨List.append_subset.mpr ⟨hblob, hproof⟩, hlines⟩
  · rw [List.map_map]
    exact (List.map_id' _).symm.trans (List.map_congr_left hlineRoot)
  · rw [List.forall₂_map_right_iff]
    refine List.forall₂_iff_get.mpr ⟨hcount, fun i hi hi' => ?_⟩
    rw [hlineLength _ (List.get_mem _ _)]
    exact hfits _ (List.get_mem _ _)

end Availability.CommitmentProof
