import Availability.Proofs.Blob.Rows

/-!
# What a commitment proof shows

A commitment proof comes from a node that nobody trusts. It leads through three kinds of trees: its
subtree roots are the leaves of the tree of the commitment, they are nodes in the trees of some
rows, and the roots of these rows are leaves of the tree of the data root.

* `CommitmentProof.parts` – **which subtree roots are checked with which range proof**;
* `CommitmentProof.texts` – the strings that are hashed on the way;
* `CommitmentProof.of_verifyRows` – each part was checked against a row;
* `CommitmentProof.namespace_of_verify` – all proofs for a commitment are of **one namespace**;
* `CommitmentProof.shares_in_square` – the shares of a blob whose commitment verifies against the
  header of a square are in its data quadrant, one after the other in a line for each range proof.
-/

namespace Availability.CommitmentProof

/-! ### The parts of the rows -/

/-- The number of subtree roots that are checked with each range proof. -/
def rootCounts (width : Nat) (proofs : List NamespaceProof) : List Nat :=
  proofs.map fun proof => (coverRange width proof.start.toNat proof.stop.toNat).length

/-- Cuts what belongs to the subtree roots of a proof, one for each of them, into the parts that are
checked with the single range proofs. -/
def parts {α : Type} (proof : CommitmentProof) (threshold : Nat) (xs : List α) : List (List α) :=
  match subtreeWidth? proof.shareCount threshold with
  | none => []
  | some width => cut (rootCounts width proof.rangeProofs) xs

/-- The strings that are hashed to check the subtree roots, row by row. -/
def rowTexts (width : Nat) : List NamespaceProof → List (List NamespacedHash) → List Bytes
  | proof :: proofs, roots :: parts =>
    SubtreeRoots.texts proof roots width ++ rowTexts width proofs parts
  | _, _ => []

/-- **The strings that are hashed to check a commitment proof.** -/
def texts (proof : CommitmentProof) (threshold : Nat) : List Bytes :=
  match subtreeWidth? proof.shareCount threshold with
  | none => []
  | some width =>
    rowTexts width proof.rangeProofs
        (cut (rootCounts width proof.rangeProofs) proof.subtreeRoots) ++
      Merkle.texts (proof.subtreeRoots.map NamespacedHash.toBytes) ++ proof.rowProof.texts

section Rows

variable {ns : Namespace} {width : Nat} {proof : NamespaceProof} {proofs : List NamespaceProof}
  {rowRoot : NamespacedHash} {rowRoots : List NamespacedHash}

/-- **When no subtree root is left over, each part was checked against a row**, and the parts are
all subtree roots. -/
theorem of_verifyRows {α : Type} {f : α → NamespacedHash} {xs : List α}
    (hcount : proofs.length = rowRoots.length)
    (h : verifyRows ns width proofs rowRoots (xs.map f) = .ok []) :
    (cut (rootCounts width proofs) xs).flatten = xs ∧
      ∀ part ∈ cut (rootCounts width proofs) xs, ∃ proof, ∃ rowRoot ∈ rowRoots,
        SubtreeRoots.verify proof (part.map f) width ns rowRoot = .ok () ∧
        SubtreeRoots.texts proof (part.map f) width ⊆
          rowTexts width proofs (cut (rootCounts width proofs) (xs.map f)) := by
  induction proofs generalizing rowRoots xs with
  | nil =>
    rw [verifyRows] at h
    · obtain rfl := List.map_eq_nil_iff.mp (Except.ok.inj h)
      simp [rootCounts, cut]
    · simp
  | cons proof proofs ih =>
    rcases rowRoots with _ | ⟨rowRoot, rowRoots⟩
    · simp at hcount
    · obtain ⟨-, hverify, hrest⟩ := verifyRows_cons_eq_ok_iff.mp h
      rw [← List.map_drop] at hrest
      rw [← List.map_take] at hverify
      obtain ⟨hflatten, hparts⟩ := ih (by simpa using hcount) hrest
      simp only [rootCounts, List.map_cons, cut, List.flatten_cons, rowTexts, List.mem_cons] at *
      refine ⟨by rw [hflatten, List.take_append_drop], ?_⟩
      -- a part is that of the first row or that of one below it
      rintro part (rfl | hpart)
      · refine ⟨proof, rowRoot, Or.inl rfl, hverify, ?_⟩
        rw [List.map_take]
        exact List.subset_append_left _ _
      · obtain ⟨proof', rowRoot', hmem, hv, htexts⟩ := hparts part hpart
        refine ⟨proof', rowRoot', Or.inr hmem, hv, ?_⟩
        rw [List.map_drop] at htexts
        exact List.subset_append_of_subset_right _ htexts

end Rows

/-! ### The namespace -/

/-- Subtree roots that are checked against rows are of the namespace of the proof. -/
theorem namespace_of_verifyRows {ns : Namespace} {width : Nat} {proofs : List NamespaceProof}
    {rowRoots roots : List NamespacedHash} (hcount : proofs.length = rowRoots.length)
    (h : verifyRows ns width proofs rowRoots roots = .ok []) :
    ∀ root ∈ roots, root.min = ns ∧ root.max = ns := by
  rw [← List.map_id roots] at h
  obtain ⟨hflatten, hparts⟩ := of_verifyRows hcount h
  intro root hroot
  rw [← hflatten] at hroot
  obtain ⟨part, hpart, hroot⟩ := List.mem_flatten.mp hroot
  obtain ⟨_, _, -, hverify, -⟩ := hparts part hpart
  rw [List.map_id] at hverify
  obtain ⟨-, -, -, hns, -⟩ := SubtreeRoots.verify_eq_ok_iff.mp hverify
  exact SubtreeRoots.checkNamespace_eq_ok_iff.mp hns root hroot

/-- **A commitment tells the namespace of every proof for it**, unless two of the hashed strings
collide: the namespace is shown by each of the subtree roots, and these are bound by the
commitment. -/
theorem namespace_of_verify {ns : Namespace} {data : Bytes} {version : UInt8}
    {threshold threshold' : Nat} {c : Commitment} {dataRoot : Digest} {proof : CommitmentProof}
    (hcommit : commit ns data version threshold = .ok c)
    (hverify : proof.verify c dataRoot threshold' = .ok ()) :
    Collides (commitTexts ns data version threshold ++ proof.texts threshold') ∨ ns = proof.ns := by
  rw [or_iff_not_imp_left]
  intro free
  obtain ⟨hvalid, ht, rfl⟩ := commit_eq_ok_iff.mp hcommit
  obtain ⟨hvalidate, width, hwidth, hrows, hcommitment, -⟩ := verify_eq_ok_iff.mp hverify
  obtain ⟨-, hcount, -⟩ := validate_eq_ok_iff.mp hvalidate
  have hroots : proof.subtreeRoots =
      groupRoots ns (shareGroups (Share.split ns version data) threshold) := by
    refine eq_of_commitmentOf_eq free ?_ ?_ hcommitment
    · simp only [texts, hwidth]
      exact List.subset_append_of_subset_right _ (List.subset_append_of_subset_left _
        (List.subset_append_right _ _))
    · exact List.subset_append_of_subset_left _ (List.subset_append_right _ _)
  -- the root of the first group shows both namespaces
  have hs := length_split_le_two_pow hvalid
  have hne := Share.split_ne_nil ns version data
  generalize Share.split ns version data = shares at hs hne hroots
  obtain ⟨root, hroot⟩ :=
    List.exists_mem_of_ne_nil _ (groupRoots_shareGroups_ne_nil hs ht hne ns)
  have hproof := (namespace_of_verifyRows hcount hrows root (hroots ▸ hroot)).1
  obtain ⟨group, hgroup, rfl⟩ := List.mem_map.mp hroot
  have hgroupNe : groupLeaves ns group ≠ [] :=
    List.map_eq_nil_iff.not.mpr (ne_nil_of_mem_shareGroups hs ht hgroup)
  rw [← hproof]
  refine (SubtreeRoots.rootOver_of_all hgroupNe fun leaf hleaf => ?_).1.symm
  obtain ⟨share, -, rfl⟩ := List.mem_map.mp hleaf
  rfl

/-! ### Where the shares are -/

/-- Everything that was hashed until a proof for a blob was checked against the header of a square:
for the header, for the data root, for the commitment and for the proof. -/
def allTexts (square : ExtendedSquare) (header : AvailabilityHeader) (ns : Namespace) (data : Bytes)
    (version : UInt8) (threshold : Nat) (proof : CommitmentProof) (threshold' : Nat) : List Bytes :=
  square.texts ++ Merkle.texts header.leaves ++ commitTexts ns data version threshold ++
    proof.texts threshold'

section Soundness

variable {all : List Bytes} (free : ¬Collides all) {square : ExtendedSquare} {app : AppVersion}
  {header : AvailabilityHeader} (hheader : square.header app = .ok header)
  (hsquare : square.texts ⊆ all)
include free hheader hsquare

/-- Groups of shares whose roots verify against a row root of the header are consecutive shares of a
line, unless two of the hashed strings collide. -/
theorem sharesAt_of_verify {ns ns' : Namespace} (hne : ns ≠ .parity) {groups : List (List Share)}
    {rangeProof : NamespaceProof} {width : Nat} {rowRoot : NamespacedHash}
    (hgroups : (groups.flatMap fun group => Nmt.texts (groupLeaves ns group)) ⊆ all)
    (hproof : SubtreeRoots.texts rangeProof (groupRoots ns groups) width ⊆ all)
    (hmem : rowRoot ∈ header.rowRoots ++ header.columnRoots)
    (h : SubtreeRoots.verify rangeProof (groupRoots ns groups) width ns' rowRoot = .ok ()) :
    ∃ axis index first,
      square.sharesAt ((List.range' first groups.flatten.length).map (Axis.cell axis index)) =
        .ok groups.flatten := by
  obtain ⟨axis, index, hindex, rfl⟩ := ExtendedSquare.exists_line hheader hmem
  have hline := List.Subset.trans (ExtendedSquare.texts_lineLeaves_subset axis hindex)
    hsquare
  obtain ⟨before, after, hleaves⟩ := SubtreeRoots.exists_run_of_verify free hproof hline h
    (groups.map (groupLeaves ns)) (by rw [groupRoots, List.map_map]; rfl)
    (by rwa [List.flatMap_map])
  rw [← groupLeaves_flatten] at hleaves
  exact ⟨axis, index, before.length, ExtendedSquare.sharesAt_of_leaves hne hleaves⟩

/-- The shares of the parts that are checked with the single range proofs are consecutive shares of
lines, unless two of the hashed strings collide. -/
theorem sharesAt_of_parts {ns : Namespace} (hne : ns ≠ .parity) {groups : List (List Share)}
    {proof : CommitmentProof} {threshold : Nat} (hgroups : groupTexts ns groups ⊆ all)
    (hleaves : Merkle.texts header.leaves ⊆ all) (hproof : proof.texts threshold ⊆ all)
    (h : proof.verify (commitmentOf (groupRoots ns groups)) header.hash threshold = .ok ()) :
    (proof.parts threshold groups).flatten = groups ∧
      ∀ part ∈ proof.parts threshold groups, ∃ axis index first,
        square.sharesAt ((List.range' first part.flatten.length).map (Axis.cell axis index)) =
          .ok part.flatten := by
  obtain ⟨hvalid, width, hwidth, hrows, hcommitment, hrow⟩ := verify_eq_ok_iff.mp h
  obtain ⟨-, hcount, -⟩ := validate_eq_ok_iff.mp hvalid
  have hparts : proof.parts threshold groups =
      cut (rootCounts width proof.rangeProofs) groups := by
    rw [parts, hwidth]
  rw [groupTexts, List.append_subset] at hgroups
  simp only [texts, hwidth, List.append_subset] at hproof
  obtain ⟨⟨hrowTexts, hrootTexts⟩, hrowProof⟩ := hproof
  -- the subtree roots are those of the groups
  have hroots : proof.subtreeRoots = groupRoots ns groups :=
    eq_of_commitmentOf_eq free hrootTexts hgroups.2 hcommitment
  rw [hroots, groupRoots] at hrows hrowTexts
  obtain ⟨hflatten, hverified⟩ := of_verifyRows hcount hrows
  rw [hparts]
  refine ⟨hflatten, fun part hpart => ?_⟩
  obtain ⟨rangeProof, rowRoot, hmem, hverify, htexts⟩ := hverified part hpart
  refine sharesAt_of_verify free hheader hsquare hne ?_ (List.Subset.trans htexts hrowTexts)
    (RowProof.mem_of_verify free hrowProof hleaves hrow hmem) hverify
  refine List.Subset.trans ?_ hgroups.1
  intro text htext
  obtain ⟨group, hgroup, htext⟩ := List.mem_flatMap.mp htext
  refine List.mem_flatMap.mpr ⟨group, ?_, htext⟩
  rw [← hflatten]
  exact List.mem_flatten.mpr ⟨part, hpart, hgroup⟩

end Soundness

/-- **A blob whose commitment verifies is in the square.** Whoever made the proof, and whatever is
in it: all shares of the blob are in the data quadrant of the square, and those whose roots are
checked with one range proof are next to each other in a row or a column, in the order of the blob.
This holds unless two of the hashed strings collide. -/
theorem shares_in_square {square : ExtendedSquare} {app : AppVersion} {header : AvailabilityHeader}
    {ns : Namespace} {data : Bytes} {version : UInt8} {threshold threshold' : Nat} {c : Commitment}
    {proof : CommitmentProof} (hheader : square.header app = .ok header)
    (hcommit : commit ns data version threshold = .ok c)
    (hverify : proof.verify c header.hash threshold' = .ok ()) :
    Collides (allTexts square header ns data version threshold proof threshold') ∨
      ((∀ share ∈ Share.split ns version data,
          ∃ row column, square.share row column = .ok share) ∧
        ((proof.parts threshold' (shareGroups (Share.split ns version data) threshold)).map
          List.flatten).flatten = Share.split ns version data ∧
        ∀ part ∈ proof.parts threshold' (shareGroups (Share.split ns version data) threshold),
          ∃ axis index first,
            square.sharesAt ((List.range' first part.flatten.length).map (Axis.cell axis index)) =
              .ok part.flatten) := by
  rw [or_iff_not_imp_left]
  intro free
  obtain ⟨hvalid, ht, rfl⟩ := commit_eq_ok_iff.mp hcommit
  have hs := length_split_le_two_pow hvalid
  have hne := Namespace.ne_parity (validateBlob_eq_ok_iff.mp hvalid).2.2.1
  -- where the hashed strings come from
  generalize hall : allTexts square header ns data version threshold proof threshold' = all at free
  have hsub := List.Subset.refl all
  nth_rewrite 1 [← hall] at hsub
  simp only [allTexts, List.append_subset] at hsub
  obtain ⟨⟨⟨hsquare, hleaves⟩, hgroups⟩, hproof⟩ := hsub
  obtain ⟨hflatten, hparts⟩ :=
    sharesAt_of_parts free hheader hsquare hne hgroups hleaves hproof hverify
  have hshares : ((proof.parts threshold' (shareGroups (Share.split ns version data) threshold)).map
      List.flatten).flatten = Share.split ns version data := by
    rw [← List.flatten_flatten, hflatten, flatten_shareGroups hs ht]
  refine ⟨fun share hshare => ?_, hshares, hparts⟩
  rw [← hshares] at hshare
  obtain ⟨shares, hmem, hshare⟩ := List.mem_flatten.mp hshare
  obtain ⟨part, hpart, rfl⟩ := List.mem_map.mp hmem
  obtain ⟨axis, index, first, hat⟩ := hparts part hpart
  exact ExtendedSquare.exists_share_of_sharesAt hat hshare

/-- A blob of three shares in a square of width four, with a proof over two rows. -/
theorem shares_in_square_thousand :
    ∃ (data : Bytes) (square : ExtendedSquare) (header : AvailabilityHeader) (c : Commitment)
      (proof : CommitmentProof), data.length = 1000 ∧ proof.rangeProofs.length = 2 ∧
      (square.header .v1 = .ok header ∧ commit (.ofSuffix [1, 0]) data 0 64 = .ok c ∧
        proof.verify c header.hash 64 = .ok ()) ∧
      (Collides (allTexts square header (.ofSuffix [1, 0]) data 0 64 proof 64) ∨
        ((∀ share ∈ Share.split (.ofSuffix [1, 0]) 0 data,
            ∃ row column, square.share row column = .ok share) ∧
          ((proof.parts 64 (shareGroups (Share.split (.ofSuffix [1, 0]) 0 data) 64)).map
            List.flatten).flatten = Share.split (.ofSuffix [1, 0]) 0 data ∧
          ∀ part ∈ proof.parts 64 (shareGroups (Share.split (.ofSuffix [1, 0]) 0 data) 64),
            ∃ axis index first, square.sharesAt
              ((List.range' first part.flatten.length).map (Axis.cell axis index)) =
                .ok part.flatten)) := by
  have hlen : (List.replicate 1000 (7 : UInt8)).length = 1000 := List.length_replicate
  obtain ⟨square, header, c, proof, hheader, hcommit, hverify, -, hfits⟩ :=
    exists_square_of_thousand hlen
  exact ⟨_, square, header, c, proof, hlen, hfits.length_eq, ⟨hheader, hcommit, hverify⟩,
    shares_in_square hheader hcommit hverify⟩

end Availability.CommitmentProof
