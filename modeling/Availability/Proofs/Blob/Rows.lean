import Availability.Proofs.Nmt.RangeComplete
import Availability.Proofs.Nmt.SubtreePlace
import Availability.Proofs.Square.OfBlob
import Availability.Proofs.Square.OfRows

/-!
# A blob at the top of an extended square

The rows of an extended square are twice as long as those of the blob's own square, and what they
have behind the data quadrant is of parity. As parity comes last of all, this is nothing more than
some larger namespace behind the shares, and the rows prove the blob in the same way.

* `Nmt.fits_prove` – a proof that is not of absence **fits its tree**;
* `CommitmentProof.exists_verify_of_rowShares` – a blob that fills the first rows of a square has a
  proof that verifies, and that fits these rows;
* `ExtendedSquare.isQuadrant_pieces` – a list in order can be cut into a data quadrant;
* `CommitmentProof.exists_square_of_commit` – so **every blob is at the top of some square**.
-/

namespace Availability

/-- **A proof that the leaves of a namespace are there fits its tree.** -/
theorem Nmt.fits_prove {tree : Nmt} {ns : Namespace} (h : (tree.prove ns).isOfAbsence = false)
    (hsize : tree.leaves.length < UInt32.size) : (tree.prove ns).Fits tree.leaves.length := by
  rw [prove] at h ⊢
  by_cases hin : tree.root.contains ns = true
  · rw [hin, if_neg (by decide)] at h ⊢
    by_cases hcount : 0 < tree.count ns
    · obtain ⟨below, run, above, hleaves, -, -, -, -, hstart, hlength⟩ := exists_append tree ns
      have htotal := congrArg List.length hleaves
      rw [List.length_append, List.length_append, ← hstart, ← hlength] at htotal
      rw [if_pos hcount]
      exact fits_proveRange (by omega) (by omega) (by omega)
    · rw [if_neg hcount] at h
      cases h
  · rw [Bool.eq_false_iff.mpr hin] at h
    cases h

/-! ### The first rows of a square -/

namespace CommitmentProof

open BlobSquare (BeginsWith allShares pieces rowCount width?)

/-- A commitment proof fits some rows: it names their roots, and each of its ranges fits its row. -/
def FitsRows (proof : CommitmentProof) (rows : List (List Nmt.Leaf)) : Prop :=
  proof.rowProof.rowRoots = rows.map Nmt.rootOver ∧
    List.Forall₂ (fun rangeProof row => rangeProof.Fits row.length) proof.rangeProofs rows

section Square

variable {square : ExtendedSquare} {app : AppVersion} {header : AvailabilityHeader}
  (hheader : square.header app = .ok header)
include hheader

/-- The rows of the data quadrant have trees, which begin with their shares: what is behind them is
of parity. -/
theorem exists_trees_beginsWith {ns : Namespace} (hns : ns ≠ .parity) :
    ∃ trees : List Nmt,
      trees.map Nmt.leaves = (List.range square.dataWidth).map (square.lineLeaves .row) ∧
      List.Forall₂ (BeginsWith ns) trees ((List.range square.dataWidth).map square.rowShares) := by
  obtain ⟨trees, htrees⟩ : ∃ trees,
      (List.range square.dataWidth).mapM (square.tree .row) = .ok trees := by
    refine Checked.exists_mapM_eq_ok fun row hrow => ?_
    obtain ⟨tree, htree, -⟩ := ExtendedSquare.exists_tree_of_header hheader .row
      ((List.mem_range.mp hrow).trans_le square.dataWidth_le)
    exact ⟨tree, htree⟩
  refine ⟨trees, ?_, ?_⟩
  · exact Checked.map_of_mapM_eq_ok htrees fun _ _ h => (ExtendedSquare.lineLeaves_of_tree h).symm
  · rw [List.forall₂_map_right_iff]
    refine (Checked.forall₂_of_mapM_eq_ok htrees fun row hrow tree htree => ?_).flip
    obtain ⟨-, parity, hleaves, hparity⟩ :=
      ExtendedSquare.exists_lineLeaves_eq hheader (List.mem_range.mp hrow)
    refine ⟨parity, ?_, fun leaf hleaf => ?_⟩
    · rw [← ExtendedSquare.lineLeaves_of_tree htree, hleaves]
      rfl
    · rw [hparity leaf hleaf]
      exact lt_of_le_of_ne (Namespace.le_parity ns) hns

/-- The first of these trees have the leaves of the first rows, and the first roots that are in the
header. -/
theorem map_take_of_map_leaves {trees : List Nmt} {count : Nat} (hused : count ≤ square.dataWidth)
    (hleaves : trees.map Nmt.leaves = (List.range square.dataWidth).map (square.lineLeaves .row)) :
    (trees.take count).map Nmt.leaves = (List.range count).map (square.lineLeaves .row) ∧
      (trees.take count).map Nmt.root = (header.rowRoots.drop 0).take count := by
  have hhalf := square.dataWidth_le
  have hfirst : (trees.take count).map Nmt.leaves =
      (List.range count).map (square.lineLeaves .row) := by
    rw [List.map_take, hleaves, ← List.map_take, List.take_range, min_eq_left hused]
  have hover := congrArg (List.map Nmt.rootOver) hfirst
  rw [List.map_map, List.map_map] at hover
  refine ⟨hfirst, ?_⟩
  rw [List.drop_zero, ExtendedSquare.rowRoots_eq hheader, ← List.map_take, List.take_range,
    min_eq_left (by omega)]
  exact hover

/-- **A blob that fills the first rows of a square has a proof**, which fits these rows. -/
theorem exists_verify_of_rowShares {ns : Namespace} {data : Bytes} {version : UInt8}
    {threshold : Nat} {c : Commitment} (hcommit : commit ns data version threshold = .ok c)
    {j : Nat} (hwidth : square.dataWidth = 2 ^ j)
    (hroom : (Share.split ns version data).length ≤ 2 ^ j * 2 ^ j) {padding : List Share}
    (hpadding : ∀ share ∈ padding, ns < share.ns)
    (hrows : (List.range square.dataWidth).map square.rowShares =
      pieces (2 ^ j) (Share.split ns version data ++ padding)) :
    ∃ proof : CommitmentProof, proof.verify c header.hash threshold = .ok () ∧
      proof.FitsRows ((List.range (rowCount (2 ^ j) (Share.split ns version data).length)).map
        (square.lineLeaves .row)) := by
  obtain ⟨hvalid, ht, rfl⟩ := commit_eq_ok_iff.mp hcommit
  have hns := (validateBlob_eq_ok_iff.mp hvalid).2.2.1
  have hs := length_split_le_two_pow hvalid
  have hshares : ∀ share ∈ Share.split ns version data, share.ns = ns :=
    fun share hshare => (Share.of_mem_split hshare).1
  have hne := Share.split_ne_nil ns version data
  generalize Share.split ns version data = shares at hs hshares hne hroom hrows ⊢
  have hw := (Nat.two_pow_pos j).ne'
  obtain ⟨hbound, hrowCount, -⟩ := ExtendedSquare.of_header hheader
  have hsize := ExtendedSquare.extendedBound_lt app
  have hhalf := square.dataWidth_le
  obtain ⟨k, hk, hgroups⟩ := exists_shareGroups_eq hs ht
  obtain ⟨trees, hleaves, hbegins⟩ := exists_trees_beginsWith hheader (Namespace.ne_parity hns)
  rw [hrows] at hbegins
  have hproven := BlobSquare.rowsProven hns (subtreeWidth?_dvd hs hk hroom) hw (by omega) hshares
    hpadding hbegins
  -- the roots of these trees are the first ones in the header
  have hused := BlobSquare.rowCount_le hw hroom
  have hpos : 0 < rowCount (2 ^ j) shares.length := by
    rw [BlobSquare.rowCount_of_pos hw (List.length_pos_iff.mpr hne)]
    exact Nat.succ_pos _
  generalize rowCount (2 ^ j) shares.length = count at hproven hused hpos ⊢
  obtain ⟨hfirst, hroots⟩ := map_take_of_map_leaves hheader (hused.trans hwidth.ge) hleaves
  have hcount : (trees.take count).length = count := by
    have := congrArg List.length hfirst
    rwa [List.length_map, List.length_map, List.length_range] at this
  rw [hroots] at hproven
  obtain ⟨-, proof, -, -, hproofs, hproofRoots, hverify⟩ := hproven.exists_proof hpos (by omega)
    (by omega) (by rw [List.length_map, hcount]) hk (by rw [hgroups])
    (groupRoots_shareGroups_ne_nil hs ht hne ns)
  refine ⟨proof, hverify, ?_, ?_⟩
  · rw [hproofRoots, ← hroots, ← hfirst, List.map_map]
    rfl
  · rw [hproofs, ← hfirst, List.forall₂_map_left_iff, List.forall₂_map_right_iff,
      List.forall₂_same]
    intro tree htree
    -- the leaves of the tree are a row, and so they are as many as the square is wide
    have hmem := hfirst ▸ List.mem_map_of_mem (f := Nmt.leaves) htree
    obtain ⟨row, hrow, hline⟩ := List.mem_map.mp hmem
    have hlength := ExtendedSquare.length_lineLeaves hheader .row
      (show row < square.width by rw [List.mem_range] at hrow; omega)
    rw [hline] at hlength
    exact Nmt.fits_prove (hproven.presence _ (List.mem_map_of_mem htree)) (by omega)

end Square

end CommitmentProof

/-! ### The square of a list -/

/-- **A list in order can be cut into a data quadrant**, when it has as many shares as one. -/
theorem ExtendedSquare.isQuadrant_pieces {shares : List Share} {j : Nat}
    (hlength : shares.length = 2 ^ j * 2 ^ j)
    (hvalid : ∀ share ∈ shares, share.ns.validate = .ok ())
    (hasc : shares.Pairwise fun a b => a.ns ≤ b.ns) :
    IsQuadrant (BlobSquare.pieces (2 ^ j) shares) := by
  have hw := (Nat.two_pow_pos j).ne'
  have hcount := BlobSquare.length_pieces hw hlength
  have hpiece (row : List Share) (h : row ∈ BlobSquare.pieces (2 ^ j) shares) :
      row.length = 2 ^ j := BlobSquare.length_of_mem_pieces hw hlength h
  have hflatten := BlobSquare.flatten_pieces hw shares
  rw [← hflatten, List.pairwise_flatten] at hasc
  refine ⟨⟨j, hcount⟩, fun row hrow => (hpiece row hrow).trans hcount.symm, ?_, hasc.1, ?_⟩
  · intro row hrow share hshare
    refine hvalid share ?_
    rw [← hflatten]
    exact List.mem_flatten.mpr ⟨row, hrow, hshare⟩
  · refine hasc.2.imp_of_mem fun habove hbelow hle => ?_
    refine List.forall₂_iff_get.mpr ⟨(hpiece _ habove).trans (hpiece _ hbelow).symm, ?_⟩
    exact fun _ _ _ => hle _ (List.get_mem _ _) _ (List.get_mem _ _)

namespace CommitmentProof

open BlobSquare (allShares pieces rowCount width?)

/-- **Every blob is at the top of an extended square**, in which it has a proof: the square of the
blob with padding behind it, as wide as its own. The proof fits the rows of the blob. -/
theorem exists_square_of_commit {ns : Namespace} {data : Bytes} {version : UInt8} {threshold : Nat}
    {c : Commitment} (hcommit : commit ns data version threshold = .ok c) (app : AppVersion) :
    ∃ (square : ExtendedSquare) (header : AvailabilityHeader) (proof : CommitmentProof),
      square.header app = .ok header ∧ proof.verify c header.hash threshold = .ok () ∧
        width? (Share.split ns version data).length = some square.dataWidth ∧
        proof.FitsRows ((List.range (rowCount square.dataWidth
          (Share.split ns version data).length)).map (square.lineLeaves .row)) := by
  have hvalid := (commit_eq_ok_iff.mp hcommit).1
  have hns := (validateBlob_eq_ok_iff.mp hvalid).2.2.1
  have hshares : ∀ share ∈ Share.split ns version data, share.ns = ns :=
    fun share hshare => (Share.of_mem_split hshare).1
  obtain ⟨j, hwidth, hroom, hsmall⟩ := BlobSquare.exists_width?_eq (length_split_le hvalid)
  have hlength := BlobSquare.length_allShares hroom
  have hquadrant : ExtendedSquare.IsQuadrant
      (pieces (2 ^ j) (allShares (2 ^ j) (Share.split ns version data))) := by
    refine ExtendedSquare.isQuadrant_pieces hlength (fun share hshare => ?_)
      (BlobSquare.pairwise_allShares hns _ hshares)
    rcases List.mem_append.mp hshare with hshare | hshare
    · rw [hshares share hshare]
      exact (Namespace.validateForBlob_eq_ok_iff.mp hns).1
    · rw [BlobSquare.ns_of_mem_padding hshare]
      decide
  have hcount := BlobSquare.length_pieces (Nat.two_pow_pos j).ne' hlength
  have hdata (codec : String) := (ExtendedSquare.dataWidth_ofRows codec).trans hcount
  have hbound : 256 ≤ app.extendedBound := by cases app <;> decide
  obtain ⟨header, hheader⟩ := ExtendedSquare.exists_header_ofRows "Leopard" hquadrant
    (show _ ≤ app.extendedBound by omega)
  obtain ⟨proof, hverify, hfits⟩ := exists_verify_of_rowShares hheader hcommit (hdata _) hroom
    (fun share hshare => by
      rw [BlobSquare.ns_of_mem_padding hshare]
      exact Namespace.lt_tailPadding hns)
    (ExtendedSquare.map_rowShares_ofRows _ hquadrant)
  exact ⟨_, header, proof, hheader, hverify, hwidth.trans (congrArg some (hdata _).symm),
    (hdata _).symm ▸ hfits⟩

/-- A blob of 1000 bytes has three shares, which are in the upper two rows of a square of width
four. -/
theorem exists_square_of_thousand {data : Bytes} (hlen : data.length = 1000) :
    ∃ (square : ExtendedSquare) (header : AvailabilityHeader) (c : Commitment)
      (proof : CommitmentProof), square.header .v1 = .ok header ∧
        commit (.ofSuffix [1, 0]) data 0 64 = .ok c ∧ proof.verify c header.hash 64 = .ok () ∧
        proof.FitsRows [square.lineLeaves .row 0, square.lineLeaves .row 1] := by
  have hvalid : validateBlob (.ofSuffix [1, 0]) data 0 = .ok () :=
    validateBlob_eq_ok_iff.mpr ⟨List.ne_nil_of_length_pos (hlen ▸ by decide),
      hlen ▸ by decide, by decide, by decide⟩
  have hcommit := commit_eq_ok_iff.mpr ⟨hvalid, show 64 ≠ 0 by decide, rfl⟩
  have hthree : (Share.split (.ofSuffix [1, 0]) 0 data).length = 3 := by
    rw [Share.length_split (by decide), hlen]
    decide
  obtain ⟨square, header, proof, hheader, hverify, hwidth, hfits⟩ :=
    exists_square_of_commit hcommit .v1
  -- three shares need two rows, whatever the rounding does
  have hsqrt : ceilSqrt 3 = 2 := by
    refine le_antisymm (ceilSqrt_le_iff.mpr (by decide)) (Nat.lt_of_not_le fun h => ?_)
    exact absurd (ceilSqrt_le_iff.mp h) (by decide)
  have htwo : square.dataWidth = 2 := by
    rw [hthree, width?, minSquare?, hsqrt] at hwidth
    exact (Option.some.inj hwidth).symm
  rw [hthree, htwo] at hfits
  exact ⟨square, header, _, proof, hheader, hcommit, hverify, hfits⟩

end CommitmentProof

end Availability
