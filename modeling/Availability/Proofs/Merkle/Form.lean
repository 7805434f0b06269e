import Availability.Merkle.Form
import Availability.Proofs.Json.Record
import Availability.Proofs.Merkle.Proof

/-!
# Merkle proofs are read back

The numbers of a proof are written with 64 bits and a sign, and a proof of no leaves is refused.
This leaves room for all proofs there are: one that was **made** counts the leaves of a list, and
one that was **read** had its numbers checked.

* `MerkleProof.Constructed` – the proofs there are;
* `MerkleProof.Fits` – the numbers of a proof can be written and are not refused;
* `MerkleProof.decoder_toJson` – a proof whose numbers fit is read back;
* `MerkleProof.constructed_iff` – so the proofs there are are exactly those whose numbers fit.
-/

namespace Availability.MerkleProof

/-! ### Numbers of a proof -/

/-- The numbers of the proof can be written, and are not refused. -/
structure Fits (proof : MerkleProof) : Prop where
  /-- There are leaves. -/
  total_pos : 0 < proof.total
  /-- The number of leaves can be written. -/
  total_lt : proof.total < 2 ^ 63
  /-- The position of the leaf can be written. -/
  index_lt : proof.index < 2 ^ 63

/-- The proofs there are: those that are made for a leaf of a list that fits into the memory, and
those that are read. There is no other way to a proof. -/
inductive Constructed : MerkleProof → Prop
  /-- The proof was made for a leaf of a list. -/
  | made {index : Nat} {leaves : List Bytes} {proof : MerkleProof} {root : Digest}
    (hsize : leaves.length < 2 ^ 63) (h : make index leaves = .ok (proof, root)) :
    Constructed proof
  /-- The proof was read. -/
  | read {json : Json} {proof : MerkleProof} (h : decoder json = .ok proof) : Constructed proof

theorem digest_bytes (d : Digest) : digest d.bytes = .ok d :=
  dif_pos d.length_bytes

theorem mapM_digest_bytes (digests : List Digest) :
    (digests.map Digest.bytes).mapM digest = .ok digests := by
  rw [Checked.mapM_eq_ok_iff, List.forall₂_map_left_iff, List.forall₂_same]
  exact fun d _ => digest_bytes d

theorem ofParts_eq {proof : MerkleProof} (h : proof.Fits) :
    ofParts proof.total proof.index proof.leafHash.bytes (proof.aunts.map Digest.bytes) =
      .ok proof := by
  have hindex : ¬(proof.index : Int) < 0 := by omega
  have htotal : ¬(proof.total : Int) ≤ 0 := by
    have := h.total_pos
    omega
  simp only [ofParts, if_neg hindex, if_neg htotal, digest_bytes, mapM_digest_bytes]
  rfl

/-- The numbers from which a proof is made are those of the proof. -/
theorem of_ofParts_eq_ok {total index : Int} {leafHash : Bytes} {aunts : List Bytes}
    {proof : MerkleProof} (h : ofParts total index leafHash aunts = .ok proof) :
    0 < total ∧ proof.total = total.toNat ∧ proof.index = index.toNat := by
  simp only [ofParts, Checked.throw_bind, Checked.ite_throw_eq_ok_iff, Checked.bind_eq_ok_iff,
    Checked.pure_eq_ok_iff] at h
  obtain ⟨-, htotal, _, -, _, -, rfl⟩ := h
  exact ⟨not_le.mp htotal, rfl, rfl⟩

/-- **The numbers of all proofs fit.** -/
theorem Constructed.fits {proof : MerkleProof} (h : Constructed proof) : proof.Fits := by
  cases h with
  | @made index leaves proof root hsize h =>
    rw [make] at h
    cases hleaf : leaves[index]? with
    | none => simp [hleaf] at h
    | some leaf =>
      obtain ⟨hindex, -⟩ := List.getElem?_eq_some_iff.mp hleaf
      simp only [hleaf, Except.ok.injEq, Prod.mk.injEq] at h
      obtain ⟨rfl, -⟩ := h
      exact ⟨Nat.zero_lt_of_lt hindex, hsize, hindex.trans hsize⟩
  | read h =>
    obtain ⟨parts, hparts, rfl⟩ : ∃ parts, fields.decoder _ = .ok parts ∧ parts = .ok proof := by
      simpa [decoder, Decoder.refined, Decoder.thenTry] using h
    obtain ⟨isObject, get, hbuild⟩ := Fields.exists_build_of_decoder hparts
    simp only [fields, Fields.build_seq_eq_ok_iff, Fields.build_map_eq_ok_iff] at hbuild
    obtain ⟨_, ⟨_, ⟨_, ⟨total, htotal, rfl⟩, index, hindex, rfl⟩, _, -, rfl⟩, _, -, h⟩ := hbuild
    obtain ⟨_, htotal⟩ := Fields.exists_of_build_required htotal
    obtain ⟨_, hindex⟩ := Fields.exists_of_build_required hindex
    obtain ⟨hpos, htotalEq, hindexEq⟩ := of_ofParts_eq_ok h
    have := Decoder.lt_of_int64_eq_ok htotal
    have := Decoder.lt_of_int64_eq_ok hindex
    exact ⟨by omega, by omega, by omega⟩

/-! ### Reading proofs -/

/-- **A proof whose numbers fit is read back.** -/
theorem decoder_toJson {proof : MerkleProof} (h : proof.Fits) :
    decoder proof.toJson = .ok proof := by
  have hreads : fields.Reads
      [("total", .ofNat proof.total), ("index", .ofNat proof.index),
        ("leaf_hash", .ofBytes proof.leafHash.bytes),
        ("aunts", .ofList (fun aunt => .ofBytes aunt.bytes) proof.aunts)] (.ok proof) := by
    have htotal := Fields.Reads.required "total" (Decoder.int64_ofNat h.total_lt)
    have hindex := Fields.Reads.required "index" (Decoder.int64_ofNat h.index_lt)
    have hleaf := Fields.Reads.required "leaf_hash" (Decoder.base64_ofBytes proof.leafHash.bytes)
    have haunts := Fields.Reads.withDefault "aunts" []
      (Decoder.base64List_ofList Digest.bytes proof.aunts)
    rw [← ofParts_eq h]
    exact (((htotal.map ofParts).seq hindex).seq hleaf).seq haunts
  have hkeys : ["total", "index", "leaf_hash", "aunts"].Nodup := by decide
  exact Decoder.refined_eq_ok (hreads.decoder_eq hkeys) rfl

/-- The proofs there are are **exactly** those whose numbers fit: each of these can be read. -/
theorem constructed_iff {proof : MerkleProof} : Constructed proof ↔ proof.Fits :=
  ⟨Constructed.fits, fun h => .read (decoder_toJson h)⟩

theorem plain_toJson {proof : MerkleProof} (h : proof.Fits) : proof.toJson.Plain := by
  have htotal := Json.plain_ofNat (h.total_lt.trans (by decide))
  have hindex := Json.plain_ofNat (h.index_lt.trans (by decide))
  have haunts := Json.plain_ofList fun aunt (_ : aunt ∈ proof.aunts) =>
    Json.plain_ofBytes aunt.bytes
  exact .cons htotal (.cons hindex (.cons (Json.plain_ofBytes proof.leafHash.bytes)
    (.cons haunts .nil)))

end Availability.MerkleProof
