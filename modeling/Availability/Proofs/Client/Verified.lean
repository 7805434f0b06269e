import Availability.Client.MultiClient
import Availability.Proofs.Blob.Inclusion

/-!
# What is known of a blob that a node answered with

A verified blob takes three answers of a node that nobody trusts: a header, a blob and a proof. Each
of them is checked by itself and against the request, and the header and the blob against the proof.
There is one thing that is never compared: the namespace of the blob that was sent with the one that
was asked for. The proof stands between them, since its subtree roots are those of the blob and show
a namespace.

* `MultiClient.Vouched` – **all that is known** of three answers that are accepted;
* `MultiClient.getVerified_eq_ok_iff` – a blob is given back exactly when the answers of the node
  are vouched for, and it is the one in the answer.
-/

namespace Availability

/-- A blob has its own commitment when this is the one that its parts have. -/
theorem Blob.validate_eq_ok_iff {blob : Blob} {app : AppVersion} :
    blob.validate app = .ok () ↔
      commit blob.ns blob.data blob.version app.subtreeRootThreshold = .ok blob.commitment := by
  simp only [validate, Checked.bind_eq_ok_iff, Checked.ite_throw_eq_ok_iff,
    Checked.pure_eq_ok_iff, ne_eq, not_not, and_true, exists_eq_right']

theorem Blob.validateWith_eq_ok_iff {blob : Blob} {commitment : Commitment} {app : AppVersion} :
    blob.validateWith commitment app = .ok () ↔ blob.commitment = commitment ∧
      commit blob.ns blob.data blob.version app.subtreeRootThreshold = .ok commitment := by
  simp only [validateWith, Checked.bind_eq_ok_iff, Checked.exists_unit_iff,
    Checked.ite_throw_eq_ok_iff, Checked.pure_eq_ok_iff, validate_eq_ok_iff, ne_eq, not_not,
    and_true]
  constructor
  · rintro ⟨hcommit, rfl⟩
    exact ⟨rfl, hcommit⟩
  · rintro ⟨rfl, hcommit⟩
    exact ⟨hcommit, rfl⟩

/-- The data root in the header of a block is that of its availability header. -/
theorem ExtendedHeader.dataHash_of_validate {header : ExtendedHeader}
    (h : header.validate = .ok ()) :
    header.header.dataHash = some header.availability.hash := by
  simp only [validate, Checked.throw_bind, Checked.ite_throw_eq_ok_iff, ne_eq, not_not] at h
  exact h.2.1

namespace MultiClient

theorem knownVersion_eq_ok_iff {header : ExtendedHeader} {app : AppVersion} :
    knownVersion header = .ok app ↔
      AppVersion.ofNat? header.header.version.app.toNat = some app := by
  rw [knownVersion]
  split
  case h_1 found hfound => simp [hfound]
  case h_2 hnone => simp [hnone]

/-- **What is known of a header, a blob and a proof** that were accepted for a request. -/
structure Vouched (height : UInt64) (ns : Namespace) (commitment : Commitment)
    (header : ExtendedHeader) (blob : Blob) (proof : CommitmentProof) (app : AppVersion)
    (dataRoot : Digest) : Prop where
  /-- The parts of the header belong together. -/
  header_valid : header.validate = .ok ()
  /-- The header is that of the requested height. -/
  header_height : header.height = height.toNat
  /-- The rules are those of the block, and they are known. -/
  app_known : AppVersion.ofNat? header.header.version.app.toNat = some app
  /-- The data root is that of the block. -/
  dataHash_eq : header.header.dataHash = some dataRoot
  /-- The blob comes with the requested commitment. -/
  commitment_eq : blob.commitment = commitment
  /-- The requested commitment is that of the parts of the blob. -/
  commit_eq : commit blob.ns blob.data blob.version app.subtreeRootThreshold = .ok commitment
  /-- The proof is for the requested namespace. -/
  proof_ns : proof.ns = ns
  /-- The proof shows that the commitment is in the block. -/
  proof_verifies : proof.verify commitment dataRoot app.subtreeRootThreshold = .ok ()
  /-- The blob is of the requested namespace, unless two of the hashed strings collide. -/
  blob_ns :
    Collides (commitTexts blob.ns blob.data blob.version app.subtreeRootThreshold ++
      proof.texts app.subtreeRootThreshold) ∨ blob.ns = ns

/-- The checks that are made of the answers, in their order. -/
theorem getVerified_eq_ok_iff_checks {m : MultiClient} {node : Request → Reply} {height : UInt64}
    {ns : Namespace} {commitment : Commitment} {blob : Blob} :
    m.getVerified node height ns commitment = .ok blob ↔
      ∃ header : ExtendedHeader, m.call node .getHeader (height, ()) = .ok header ∧
        header.validate = .ok () ∧ header.height = height.toNat ∧
        ∃ app, AppVersion.ofNat? header.header.version.app.toNat = some app ∧
        ∃ sent : Blob, m.call node .getBlob (height, ns, commitment, ()) = .ok sent ∧
          sent.validateWith commitment app = .ok () ∧
        ∃ proof : CommitmentProof,
          m.call node .getCommitmentProof (height, ns, commitment, ()) = .ok proof ∧
          proof.ns = ns ∧
          proof.verify commitment header.availability.hash app.subtreeRootThreshold = .ok () ∧
          sent = blob := by
  rw [getVerified]
  -- simp does not look up the type of an answer in the table of methods: each call is a step
  refine Checked.bind_eq_ok_iff.trans (exists_congr fun header => and_congr_right fun _ => ?_)
  simp only [Checked.throw_bind, Checked.bind_eq_ok_iff, Checked.exists_unit_iff,
    Checked.ite_throw_eq_ok_iff, Checked.mapError_eq_ok_iff, knownVersion_eq_ok_iff, ne_eq, not_not]
  refine and_congr_right fun _ => and_congr_right fun _ => exists_congr fun app =>
    and_congr_right fun _ => ?_
  refine Checked.bind_eq_ok_iff.trans (exists_congr fun sent => and_congr_right fun _ => ?_)
  simp only [Checked.bind_eq_ok_iff, Checked.exists_unit_iff, Checked.mapError_eq_ok_iff]
  refine and_congr_right fun _ => ?_
  refine Checked.bind_eq_ok_iff.trans (exists_congr fun proof => and_congr_right fun _ => ?_)
  simp only [Checked.bind_eq_ok_iff, Checked.exists_unit_iff, Checked.ite_throw_eq_ok_iff,
    Checked.mapError_eq_ok_iff, Checked.pure_eq_ok_iff, not_not]

/-- **A blob is given back exactly when all answers of the node are vouched for.** Whatever the node
answers, the blob that is given back is the one that it sent, in the requested namespace, with the
requested commitment, and in the block of the requested height. -/
theorem getVerified_eq_ok_iff {m : MultiClient} {node : Request → Reply} {height : UInt64}
    {ns : Namespace} {commitment : Commitment} {blob : Blob} :
    m.getVerified node height ns commitment = .ok blob ↔
      ∃ header proof app dataRoot, m.call node .getHeader (height, ()) = .ok header ∧
        m.call node .getBlob (height, ns, commitment, ()) = .ok blob ∧
        m.call node .getCommitmentProof (height, ns, commitment, ()) = .ok proof ∧
        Vouched height ns commitment header blob proof app dataRoot := by
  rw [getVerified_eq_ok_iff_checks]
  constructor
  · rintro ⟨header, hheader, hvalid, hheight, app, happ, sent, hsent, hown, proof, hproof, hns,
      hverify, rfl⟩
    obtain ⟨hown, hcommit⟩ := Blob.validateWith_eq_ok_iff.mp hown
    exact ⟨header, proof, app, header.availability.hash, hheader, hsent, hproof,
      { header_valid := hvalid
        header_height := hheight
        app_known := happ
        dataHash_eq := ExtendedHeader.dataHash_of_validate hvalid
        commitment_eq := hown
        commit_eq := hcommit
        proof_ns := hns
        proof_verifies := hverify
        blob_ns := hns ▸ CommitmentProof.namespace_of_verify hcommit hverify }⟩
  · rintro ⟨header, proof, app, dataRoot, hheader, hblob, hproof, h⟩
    obtain rfl := Option.some.inj
      ((ExtendedHeader.dataHash_of_validate h.header_valid).symm.trans h.dataHash_eq)
    exact ⟨header, hheader, h.header_valid, h.header_height, app, h.app_known, blob, hblob,
      Blob.validateWith_eq_ok_iff.mpr ⟨h.commitment_eq, h.commit_eq⟩, proof, hproof, h.proof_ns,
      h.proof_verifies, rfl⟩

end MultiClient

end Availability
