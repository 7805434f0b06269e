import Availability.Proofs.Merkle.Proof
import Availability.Proofs.Nmt.Tree
import Availability.Square.Header

/-!
# Row proofs and the data root

The data root is the root of a plain tree, whose leaves are the roots of the rows and then those of
the columns. A row proof has one Merkle proof for each of its rows.

* `RowProof.verify_eq_ok_iff` – the rows are checked **one by one**, each for its own number;
* `RowProof.verify_eq_error_of_ne` – a row proof verifies for one data root only;
* `RowProof.mem_of_verify` – what it verifies are roots of rows or columns of the header;
* `AvailabilityHeader.rowProof_eq_ok` – consecutive rows of a header have a proof that verifies.
-/

namespace Availability

namespace RowProof

/-- The numbers of roots and proofs are those of the rows. -/
theorem validate_eq_ok_iff {proof : RowProof} :
    proof.validate = .ok () ↔ proof.first ≤ proof.last ∧
      proof.rowRoots.length = proof.last.toNat - proof.first.toNat + 1 ∧
      proof.proofs.length = proof.last.toNat - proof.first.toNat + 1 := by
  simp only [validate, Checked.throw_bind, Checked.ite_throw_eq_ok_iff, Checked.pure_eq_ok_iff,
    UInt32.not_lt, ne_eq, not_not, and_true]

/-- **Every row is checked**, for the number that it has. -/
theorem verifyRows_eq_ok_iff {root : Digest} {row : Nat} {rowRoots : List NamespacedHash}
    {proofs : List MerkleProof} :
    verifyRows root row rowRoots proofs = .ok () ↔
      ∀ i rowRoot proof, rowRoots[i]? = some rowRoot → proofs[i]? = some proof →
        proof.index = row + i ∧ proof.verify rowRoot.toBytes root = .ok () := by
  induction rowRoots generalizing row proofs with
  | nil => simp [verifyRows]
  | cons rowRoot rowRoots ih =>
    rcases proofs with _ | ⟨proof, proofs⟩
    · simp [verifyRows]
    · simp only [verifyRows, Checked.throw_bind, Checked.ite_throw_eq_ok_iff,
        Checked.bind_eq_ok_iff, Checked.exists_unit_iff, ih, ne_eq, not_not]
      constructor
      · rintro ⟨hindex, hverify, hrest⟩ (_ | i) rowRoot' proof' hroot hproof
        · obtain rfl := Option.some.inj hroot
          obtain rfl := Option.some.inj hproof
          exact ⟨hindex, hverify⟩
        · obtain ⟨hi, hv⟩ := hrest i rowRoot' proof' hroot hproof
          exact ⟨by omega, hv⟩
      · intro h
        obtain ⟨hindex, hverify⟩ := h 0 rowRoot proof rfl rfl
        refine ⟨hindex, hverify, fun i rowRoot' proof' hroot hproof => ?_⟩
        obtain ⟨hi, hv⟩ := h (i + 1) rowRoot' proof' hroot hproof
        exact ⟨by omega, hv⟩

/-- The first row that is refused ends the check. -/
theorem verifyRows_cons_eq_error {root : Digest} {row : Nat} {rowRoot : NamespacedHash}
    {rowRoots : List NamespacedHash} {proof : MerkleProof} {proofs : List MerkleProof} {e : Error}
    (hindex : proof.index = row) (h : proof.verify rowRoot.toBytes root = .error e) :
    verifyRows root row (rowRoot :: rowRoots) (proof :: proofs) = .error e := by
  rw [verifyRows, if_neg (not_not.mpr hindex), h]
  rfl

theorem verify_eq_ok_iff {proof : RowProof} {root : Digest} :
    proof.verify root = .ok () ↔ proof.validate = .ok () ∧
      ∀ i rowRoot merkleProof, proof.rowRoots[i]? = some rowRoot →
        proof.proofs[i]? = some merkleProof → merkleProof.index = proof.first.toNat + i ∧
          merkleProof.verify rowRoot.toBytes root = .ok () := by
  simp only [verify, Checked.bind_eq_ok_iff, Checked.exists_unit_iff, Checked.mapError_eq_ok_iff,
    verifyRows_eq_ok_iff]

/-- Every row root that verifies has a Merkle proof that does. -/
theorem exists_verify {proof : RowProof} {root : Digest} (h : proof.verify root = .ok ())
    {rowRoot : NamespacedHash} (hmem : rowRoot ∈ proof.rowRoots) :
    ∃ merkleProof, (rowRoot, merkleProof) ∈ proof.rowRoots.zip proof.proofs ∧
      merkleProof.verify rowRoot.toBytes root = .ok () := by
  obtain ⟨hvalid, hrows⟩ := verify_eq_ok_iff.mp h
  obtain ⟨-, hroots, hproofs⟩ := validate_eq_ok_iff.mp hvalid
  obtain ⟨i, hi⟩ := List.mem_iff_getElem?.mp hmem
  obtain ⟨hlt, -⟩ := List.getElem?_eq_some_iff.mp hi
  obtain ⟨merkleProof, hproof⟩ : ∃ merkleProof, proof.proofs[i]? = some merkleProof :=
    ⟨_, List.getElem?_eq_getElem (by omega)⟩
  refine ⟨merkleProof, List.mem_iff_getElem?.mpr ⟨i, ?_⟩, (hrows i _ _ hi hproof).2⟩
  exact List.getElem?_zip_eq_some.mpr ⟨hi, hproof⟩

/-- **A row proof that verifies for one data root** is refused for every other one, at its first
row. -/
theorem verify_eq_error_of_ne {proof : RowProof} {root root' : Digest}
    (h : proof.verify root = .ok ()) (hne : root' ≠ root) :
    proof.verify root' = .error .rootMismatch := by
  obtain ⟨hvalid, hrows⟩ := verify_eq_ok_iff.mp h
  obtain ⟨-, hroots, hproofs⟩ := validate_eq_ok_iff.mp hvalid
  rw [verify, hvalid]
  obtain ⟨rowRoots, merkleProofs, first, last⟩ := proof
  rcases rowRoots with _ | ⟨rowRoot, rowRoots⟩
  · simp at hroots
  rcases merkleProofs with _ | ⟨merkleProof, merkleProofs⟩
  · simp at hproofs
  obtain ⟨hindex, hverify⟩ := hrows 0 rowRoot merkleProof rfl rfl
  exact verifyRows_cons_eq_error hindex (MerkleProof.verify_eq_error_of_ne hverify hne)

/-- The strings that are hashed while a row proof is checked. -/
def texts (proof : RowProof) : List Bytes :=
  (proof.rowRoots.zip proof.proofs).flatMap fun row => row.2.texts row.1.toBytes

/-- **What verifies are roots of the header**, unless two of the hashed strings collide. -/
theorem mem_of_verify {proof : RowProof} {header : AvailabilityHeader} {all : List Bytes}
    (free : ¬Collides all) (hproof : proof.texts ⊆ all) (hheader : Merkle.texts header.leaves ⊆ all)
    (h : proof.verify header.hash = .ok ()) {rowRoot : NamespacedHash}
    (hmem : rowRoot ∈ proof.rowRoots) : rowRoot ∈ header.rowRoots ++ header.columnRoots := by
  obtain ⟨merkleProof, hzip, hverify⟩ := exists_verify h hmem
  have hsub : merkleProof.texts rowRoot.toBytes ⊆ all := fun text htext =>
    hproof (List.mem_flatMap.mpr ⟨_, hzip, htext⟩)
  have hleaf := MerkleProof.mem_of_verify free hsub hheader hverify
  obtain ⟨found, hfound, heq⟩ := List.mem_map.mp hleaf
  rwa [← NamespacedHash.toBytes_injective heq]

end RowProof

namespace AvailabilityHeader

/-- The leaf of a row in the tree of the data root. -/
theorem getElem?_leaves {header : AvailabilityHeader} {i : Nat} {rowRoot : NamespacedHash}
    (h : header.rowRoots[i]? = some rowRoot) : header.leaves[i]? = some rowRoot.toBytes := by
  have hi := (List.getElem?_eq_some_iff.mp h).1
  rw [leaves, List.getElem?_map, List.getElem?_append_left hi, h, Option.map_some]

/-- The proofs of some consecutive rows, each for its own place and its own root. -/
theorem exists_proofs {header : AvailabilityHeader} {first count : Nat}
    (hle : first + count ≤ header.rowRoots.length) :
    ∃ proofs, ((List.range count).mapM fun i =>
        Prod.fst <$> MerkleProof.make (first + i) header.leaves) = .ok proofs ∧
      proofs.length = count ∧
      ∀ i rowRoot proof, header.rowRoots[first + i]? = some rowRoot → proofs[i]? = some proof →
        proof.index = first + i ∧ proof.verify rowRoot.toBytes header.hash = .ok () := by
  have hmade : ∀ i ∈ List.range count, ∃ proof,
      Prod.fst <$> MerkleProof.make (first + i) header.leaves = .ok proof := by
    intro i hi
    have hlt := List.mem_range.mp hi
    obtain ⟨rowRoot, hrow⟩ : ∃ rowRoot, header.rowRoots[first + i]? = some rowRoot :=
      ⟨_, List.getElem?_eq_getElem (by omega)⟩
    obtain ⟨proof, hmake, -⟩ := MerkleProof.make_eq_ok (getElem?_leaves hrow)
    exact ⟨proof, Checked.map_eq_ok_iff.mpr ⟨_, hmake, rfl⟩⟩
  obtain ⟨proofs, hproofs⟩ := Checked.exists_mapM_eq_ok hmade
  refine ⟨proofs, hproofs, ?_, fun i rowRoot proof hrow hproof => ?_⟩
  · rw [Checked.length_of_mapM_eq_ok hproofs, List.length_range]
  · have hmake := Checked.of_mapM_range_eq_ok hproofs hproof
    obtain ⟨made, hmade, hindex, hverify⟩ := MerkleProof.make_eq_ok (getElem?_leaves hrow)
    rw [hmade] at hmake
    obtain rfl := Except.ok.inj hmake
    exact ⟨hindex, hverify⟩

/-- What is known of the proof of some rows: there are such rows, and it is for them. -/
theorem of_rowProof_eq_ok {header : AvailabilityHeader} {first last : Nat} {proof : RowProof}
    (h : header.rowProof first last = .ok proof) :
    first ≤ last ∧ last < header.rowRoots.length ∧ proof.validate = .ok () ∧
      proof.first = .ofNat first ∧ proof.last = .ofNat last := by
  simp only [rowProof, RowProof.make, Checked.throw_bind, Checked.ite_throw_eq_ok_iff,
    Checked.bind_eq_ok_iff, Checked.exists_unit_iff, Checked.mapError_eq_ok_iff,
    Checked.pure_eq_ok_iff] at h
  obtain ⟨hin, proofs, -, hvalid, rfl⟩ := h
  exact ⟨by omega, by omega, hvalid, rfl, rfl⟩

/-- **Rows of a header have a proof**: it is for their roots, and it verifies. -/
theorem rowProof_eq_ok {header : AvailabilityHeader} {first last : Nat} (hle : first ≤ last)
    (hlt : last < header.rowRoots.length) (hsize : header.rowRoots.length ≤ UInt32.size) :
    ∃ proof, header.rowProof first last = .ok proof ∧
      proof.rowRoots = (header.rowRoots.drop first).take (last - first + 1) ∧
      proof.verify header.hash = .ok () := by
  obtain ⟨proofs, hproofs, hcount, hverify⟩ :=
    exists_proofs (show first + (last - first + 1) ≤ header.rowRoots.length by omega)
  have hroots : ((header.rowRoots.drop first).take (last - first + 1)).length =
      last - first + 1 := by
    rw [List.length_take, List.length_drop]
    omega
  have hfirst : (UInt32.ofNat first).toNat = first := UInt32.toNat_ofNat_of_lt' (by omega)
  have hlast : (UInt32.ofNat last).toNat = last := UInt32.toNat_ofNat_of_lt' (by omega)
  let proof : RowProof :=
    { rowRoots := (header.rowRoots.drop first).take (last - first + 1), proofs
      first := .ofNat first, last := .ofNat last }
  have hvalid : proof.validate = .ok () := by
    refine RowProof.validate_eq_ok_iff.mpr ⟨?_, ?_, ?_⟩
    · rw [UInt32.le_iff_toNat_le, hfirst, hlast]
      exact hle
    · rw [hlast, hfirst, hroots]
    · rw [hlast, hfirst, hcount]
  refine ⟨proof, ?_, rfl, RowProof.verify_eq_ok_iff.mpr ⟨hvalid, ?_⟩⟩
  · simp only [rowProof, RowProof.make, Checked.throw_bind, Checked.ite_throw_eq_ok_iff,
      Checked.bind_eq_ok_iff, Checked.exists_unit_iff, Checked.mapError_eq_ok_iff,
      Checked.pure_eq_ok_iff]
    exact ⟨by omega, proofs, hproofs, hvalid, rfl⟩
  · intro i rowRoot merkleProof hroot hproof
    have hi : i < last - first + 1 := hcount ▸ (List.getElem?_eq_some_iff.mp hproof).1
    have hrow : header.rowRoots[first + i]? = some rowRoot := by
      rwa [List.getElem?_take_of_lt hi, List.getElem?_drop] at hroot
    rw [hfirst]
    exact hverify i rowRoot merkleProof hrow hproof

end AvailabilityHeader

end Availability
