import Availability.Blob.Form
import Availability.Proofs.Blob.Proof
import Availability.Proofs.Namespace.Rules
import Availability.Proofs.Square.Form

/-!
# Commitment proofs are read back

The text of a commitment proof is that of its parts: subtree roots and the nodes beside them in
base64, row roots in hexadecimal digits, numbers of several widths, and a namespace of which the
version and the id stand apart. All parts are read back, under conditions that each of them brings
along: a range proof must not be one of absence, a namespace must be well-formed, and the numbers of
a Merkle proof must fit. The checks see to the first of them, and the last one holds of **all Merkle
proofs there are**.

* `CommitmentProof.decoder_toJson` – a proof is read back under these conditions;
* `CommitmentProof.ofText_render_of_validate` – so a proof that passes the checks is read back, and
  verifies as before.
-/

namespace Availability.CommitmentProof

/-! ### Reading proofs -/

section Parts

variable {proof : CommitmentProof}
  (hranges : ∀ range ∈ proof.rangeProofs, range.isOfAbsence = false)
  (hns : proof.ns.validate = .ok ()) (hrows : ∀ row ∈ proof.rowProof.proofs, row.Fits)
include hranges hns hrows

/-- The parts of a proof are read back one by one. -/
theorem reads_fields :
    fields.Reads
      [("subtree_roots", .ofList NamespacedHash.toJson proof.subtreeRoots),
        ("subtree_root_proofs", .ofList NamespaceProof.toJson proof.rangeProofs),
        ("namespace_id", .ofBytes proof.ns.id), ("row_proof", proof.rowProof.toJson),
        ("namespace_version", .ofNat proof.ns.version.toNat)] (.ok proof) := by
  have hrangeProofs :
      Decoder.list NamespaceProof.decoder (.ofList NamespaceProof.toJson proof.rangeProofs) =
        .ok (proof.rangeProofs.map id) := by
    refine Decoder.list_ofList fun range hrange => ?_
    rw [NamespaceProof.decoder_toJson,
      NamespaceProof.readBack_of_not_isOfAbsence (hranges range hrange)]
    rfl
  rw [List.map_id] at hrangeProofs
  have hparts : ofParts proof.subtreeRoots proof.rangeProofs proof.ns.id proof.rowProof
      proof.ns.version = .ok proof := by
    rw [ofParts, Namespace.ofId_version_id hns]
    rfl
  have hroots := Fields.Reads.required "subtree_roots"
    (NamespacedHash.listDecoder_ofList proof.subtreeRoots)
  have hproofs := Fields.Reads.required "subtree_root_proofs" hrangeProofs
  have hid := Fields.Reads.required "namespace_id" (Decoder.base64_ofBytes proof.ns.id)
  have hrow := Fields.Reads.required "row_proof" (RowProof.decoder_toJson hrows)
  have hversion := Fields.Reads.required "namespace_version" (Decoder.uint8_ofNat proof.ns.version)
  rw [← hparts]
  exact ((((hroots.map ofParts).seq hproofs).seq hid).seq hrow).seq hversion

/-- **A proof is read back** when none of its range proofs is one of absence, its namespace is
well-formed, and the numbers of its Merkle proofs fit. -/
theorem decoder_toJson : decoder proof.toJson = .ok proof := by
  have hkeys : ["subtree_roots", "subtree_root_proofs", "namespace_id", "row_proof",
    "namespace_version"].Nodup := by decide
  exact Decoder.refined_eq_ok ((reads_fields hranges hns hrows).decoder_eq hkeys) rfl

omit hranges hns in
theorem plain_toJson : proof.toJson.Plain := by
  have hroots := NamespacedHash.plain_ofList proof.subtreeRoots
  have hranges := Json.plain_ofList fun range (_ : range ∈ proof.rangeProofs) => range.plain_toJson
  have hid := Json.plain_ofBytes proof.ns.id
  have hversion := Json.plain_ofNat (proof.ns.version.toNat_lt.trans (by decide))
  exact .cons hroots (.cons hranges (.cons hid (.cons (RowProof.plain_toJson hrows)
    (.cons hversion .nil))))

end Parts

/-! ### Proofs that pass the checks -/

/-- **A proof that passes the checks is read back**, if its namespace is well-formed. Writing it
does not fail, and what is read verifies for the same commitments and data roots as before. -/
theorem ofText_render_of_validate {proof : CommitmentProof} (hvalid : proof.validate = .ok ())
    (hns : proof.ns.validate = .ok ())
    (hrows : ∀ row ∈ proof.rowProof.proofs, MerkleProof.Constructed row) :
    ∃ json read, JsonForm.write proof = some json ∧
      Decoder.ofText JsonForm.read json.render = .ok read ∧ read = proof ∧
      ∀ commitment dataRoot threshold,
        read.verify commitment dataRoot threshold = proof.verify commitment dataRoot threshold := by
  obtain ⟨-, -, -, hranges⟩ := validate_eq_ok_iff.mp hvalid
  have hfits : ∀ row ∈ proof.rowProof.proofs, row.Fits := fun row hrow =>
    MerkleProof.constructed_iff.mp (hrows row hrow)
  refine ⟨proof.toJson, proof, rfl, ?_, rfl, fun _ _ _ => rfl⟩
  rw [Decoder.ofText_render _ (plain_toJson hfits)]
  exact decoder_toJson hranges hns hfits

/-- The proof of one share in a square with one row. -/
theorem ofText_render_of_validate_single :
    ∃ proof : CommitmentProof,
      proof.subtreeRoots = [.ofLeaf (.ofSuffix [1, 0]) [7]] ∧
      proof.rangeProofs = [.ofRange 0 1 []] ∧ proof.ns = .ofSuffix [1, 0] ∧
      proof.rowProof.proofs.map MerkleProof.total = [1] ∧
      proof.validate = .ok () ∧ proof.ns.validate = .ok () ∧
      (∀ row ∈ proof.rowProof.proofs, MerkleProof.Constructed row) ∧
      ∃ json read, JsonForm.write proof = some json ∧
        Decoder.ofText JsonForm.read json.render = .ok read ∧ read = proof ∧
        ∀ commitment dataRoot threshold,
          read.verify commitment dataRoot threshold =
            proof.verify commitment dataRoot threshold := by
  let root := NamespacedHash.ofLeaf (.ofSuffix [1, 0]) [7]
  let row : MerkleProof :=
    { index := 0, total := 1, leafHash := Merkle.leafHash root.toBytes, aunts := [] }
  let proof : CommitmentProof :=
    { subtreeRoots := [root], rangeProofs := [.ofRange 0 1 []], ns := .ofSuffix [1, 0]
      rowProof := { rowRoots := [root], proofs := [row], first := 0, last := 0 } }
  have hrows : ∀ row ∈ proof.rowProof.proofs, MerkleProof.Constructed row := by
    rintro _ (_ | ⟨_, ⟨⟩⟩)
    exact MerkleProof.constructed_iff.mpr ⟨by decide, by decide, by decide⟩
  have hvalid : proof.validate = .ok () := rfl
  have hns : proof.ns.validate = .ok () := rfl
  exact ⟨proof, rfl, rfl, rfl, rfl, hvalid, hns, hrows,
    ofText_render_of_validate hvalid hns hrows⟩

end Availability.CommitmentProof
