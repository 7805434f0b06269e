import Availability.Proofs.Merkle.Place
import Availability.Proofs.Square.RowProof
import Mathlib.Data.List.Dedup

/-!
# Which rows a row proof shows

A row proof names the rows that it is for, and each of its Merkle proofs is checked to name the same
row. Two things are not checked. The number of leaves is left to the Merkle proofs, and a leaf may
have another number in a tree of another size, with the same way down to it. And nothing tells where
the rows of the header end and its columns begin.

* `RowProof.lines_of_verify` – when the Merkle proofs can not be for a tree of another size, the
  roots are **those of the header from the first row on**, rows and columns counted through;
* `RowProof.rowRoots_of_verify` – so they are the roots of the rows, when the last row is one;
* `AvailabilityHeader.exists_verify_of_turns` – every row and every column has a proof at its own
  number and at those with the same way in a tree of another size, and checking it hashes nothing
  new;
* `AvailabilityHeader.exists_verify_of_column` – so **every column passes for a row** behind the
  last one;
* `AvailabilityHeader.exists_verify_of_three` – and among three rows, a column passes for one of
  them, so that the number of leaves can not be left to the proof there, as
  `RowProof.exists_verify_other_total` shows.
-/

namespace Availability

namespace AvailabilityHeader

variable {header : AvailabilityHeader}

theorem length_leaves : header.leaves.length =
    header.rowRoots.length + header.columnRoots.length := by
  rw [leaves, List.length_map, List.length_append]

/-- A leaf of the data root is the root of a row or a column. -/
theorem getElem?_leaves_eq_some_iff {i : Nat} {root : NamespacedHash} :
    header.leaves[i]? = some root.toBytes ↔
      (header.rowRoots ++ header.columnRoots)[i]? = some root := by
  rw [leaves, List.getElem?_map, Option.map_eq_some_iff]
  constructor
  · rintro ⟨found, hfound, heq⟩
    rwa [← NamespacedHash.toBytes_injective heq]
  · exact fun h => ⟨root, h, rfl⟩

end AvailabilityHeader

namespace RowProof

variable {proof : RowProof} {header : AvailabilityHeader}

/-- **The roots that verify are those of the header, counted from the first row on**, unless two of
the hashed strings collide: either all Merkle proofs are for the number of leaves that there are, or
this is a power of two and the last row is one of them. -/
theorem lines_of_verify {all : List Bytes} (free : ¬Collides all) (hproof : proof.texts ⊆ all)
    (hheader : Merkle.texts header.leaves ⊆ all)
    (hplace : (∀ merkleProof ∈ proof.proofs, merkleProof.total = header.leaves.length) ∨
      (∃ k, header.leaves.length = 2 ^ k) ∧ proof.last.toNat < header.leaves.length)
    (h : proof.verify header.hash = .ok ()) :
    proof.rowRoots = ((header.rowRoots ++ header.columnRoots).drop proof.first.toNat).take
      (proof.last.toNat - proof.first.toNat + 1) := by
  obtain ⟨hvalid, hrows⟩ := verify_eq_ok_iff.mp h
  obtain ⟨hle, hroots, hproofs⟩ := validate_eq_ok_iff.mp hvalid
  rw [UInt32.le_iff_toNat_le] at hle
  refine List.ext_getElem? fun i => ?_
  rcases Nat.lt_or_ge i proof.rowRoots.length with hi | hi
  · -- each root stands at the place that its Merkle proof was checked to name
    obtain ⟨rowRoot, hrow⟩ : ∃ rowRoot, proof.rowRoots[i]? = some rowRoot :=
      ⟨_, List.getElem?_eq_getElem hi⟩
    obtain ⟨merkleProof, hmerkle⟩ : ∃ merkleProof, proof.proofs[i]? = some merkleProof :=
      ⟨_, List.getElem?_eq_getElem (by omega)⟩
    obtain ⟨hindex, hverify⟩ := hrows i rowRoot merkleProof hrow hmerkle
    have hzip : (rowRoot, merkleProof) ∈ proof.rowRoots.zip proof.proofs :=
      List.mem_of_getElem? (List.getElem?_zip_eq_some.mpr ⟨hrow, hmerkle⟩)
    have hsub : merkleProof.texts rowRoot.toBytes ⊆ all := fun text htext =>
      hproof (List.mem_flatMap.mpr ⟨_, hzip, htext⟩)
    have hleaf := MerkleProof.getElem?_of_verify free hsub hheader hverify
      (hplace.imp (fun htotal => htotal _ (List.mem_of_getElem? hmerkle)) fun hlast =>
        ⟨hlast.1, by omega⟩)
    rw [hindex, AvailabilityHeader.getElem?_leaves_eq_some_iff] at hleaf
    rw [hrow, List.getElem?_take_of_lt (by omega), List.getElem?_drop, hleaf]
  · rw [List.getElem?_eq_none hi, List.getElem?_eq_none]
    exact (List.length_take_le _ _).trans (by omega)

/-- **A row proof that verifies shows rows, at their own places**, as long as it is for rows of the
header, and its Merkle proofs can not be for a tree of another size. This holds unless two of the
hashed strings collide. -/
theorem rowRoots_of_verify (hlast : proof.last.toNat < header.rowRoots.length)
    (hsize : isPowerOfTwo header.leaves.length = true ∨
      ∀ merkleProof ∈ proof.proofs, merkleProof.total = header.leaves.length)
    (h : proof.verify header.hash = .ok ()) :
    Collides (proof.texts ++ Merkle.texts header.leaves) ∨
      proof.rowRoots = (header.rowRoots.drop proof.first.toNat).take
        (proof.last.toNat - proof.first.toNat + 1) := by
  rw [or_iff_not_imp_left]
  intro free
  have hle := (validate_eq_ok_iff.mp (verify_eq_ok_iff.mp h).1).1
  rw [UInt32.le_iff_toNat_le] at hle
  have hplace : proof.last.toNat < header.leaves.length := by
    rw [AvailabilityHeader.length_leaves]
    omega
  have hlines := lines_of_verify free (List.subset_append_left _ _) (List.subset_append_right _ _)
    (hsize.symm.imp_right fun hpow => ⟨isPowerOfTwo_iff.mp hpow, hplace⟩) h
  rw [hlines, List.drop_append_of_le_length (by omega), List.take_append_of_le_length]
  rw [List.length_drop]
  omega

/-- A header of two rows and two columns, and its own proof of both rows. -/
theorem rowRoots_of_verify_pair :
    ∃ (header : AvailabilityHeader) (proof : RowProof),
      (header.rowRoots.length = 2 ∧ proof.first.toNat = 0 ∧ proof.last.toNat = 1 ∧
        proof.last.toNat < header.rowRoots.length ∧ isPowerOfTwo header.leaves.length = true ∧
        proof.verify header.hash = .ok ()) ∧
      (Collides (proof.texts ++ Merkle.texts header.leaves) ∨
        proof.rowRoots = (header.rowRoots.drop proof.first.toNat).take
          (proof.last.toNat - proof.first.toNat + 1)) := by
  let parity : NamespacedHash := { NamespacedHash.empty with min := .parity, max := .parity }
  let header : AvailabilityHeader := ⟨[.empty, parity], [.empty, parity]⟩
  obtain ⟨proof, hproof, -, hverify⟩ :=
    AvailabilityHeader.rowProof_eq_ok (Nat.zero_le 1) (show 1 < header.rowRoots.length from
      Nat.one_lt_two) (show 2 ≤ UInt32.size by decide)
  obtain ⟨-, -, -, hfirst, hlast⟩ := AvailabilityHeader.of_rowProof_eq_ok hproof
  have hfirst : proof.first.toNat = 0 := congrArg UInt32.toNat hfirst
  have hlast : proof.last.toNat = 1 := congrArg UInt32.toNat hlast
  have hlt : proof.last.toNat < header.rowRoots.length := hlast ▸ Nat.one_lt_two
  have hpow : isPowerOfTwo header.leaves.length = true := by decide
  exact ⟨header, proof, ⟨rfl, hfirst, hlast, hlt, hpow, hverify⟩,
    rowRoots_of_verify hlt (Or.inl hpow) hverify⟩

end RowProof

/-! ### Rows and columns alike -/

namespace AvailabilityHeader

variable {header : AvailabilityHeader}

/-- **Every row and every column has a row proof** at its own number, rows and columns counted
through, and at each number that has the same way in a tree of another size. Checking it hashes
nothing that was not hashed for the data root. -/
theorem exists_verify_of_turns {i j total : Nat} {root : NamespacedHash}
    (hi : (header.rowRoots ++ header.columnRoots)[i]? = some root) (hj : j < total)
    (hturns : Merkle.turns j total = Merkle.turns i header.leaves.length)
    (hsize : j < UInt32.size) :
    ∃ proof : RowProof, proof.verify header.hash = .ok () ∧ proof.rowRoots = [root] ∧
      proof.first.toNat = j ∧ proof.last.toNat = j ∧
      (∀ merkleProof ∈ proof.proofs, merkleProof.total = total) ∧
      proof.texts ⊆ Merkle.texts header.leaves := by
  have hleaf := getElem?_leaves_eq_some_iff.mpr hi
  have hlt := (List.getElem?_eq_some_iff.mp hleaf).1
  obtain ⟨made, hmake, rfl, hmade⟩ := MerkleProof.make_eq_ok hleaf
  obtain ⟨htotal, htexts⟩ := MerkleProof.of_make_eq_ok hleaf hmake
  rw [← htotal] at hlt hturns
  obtain ⟨hverify, hsame⟩ := MerkleProof.verify_of_turns hj hlt hturns hmade
  have hfirst : (UInt32.ofNat j).toNat = j := UInt32.toNat_ofNat_of_lt' hsize
  let proof : RowProof :=
    { rowRoots := [root], proofs := [{ made with index := j, total }]
      first := .ofNat j, last := .ofNat j }
  refine ⟨proof, RowProof.verify_eq_ok_iff.mpr ⟨RowProof.validate_eq_ok_iff.mpr ?_, ?_⟩, rfl,
    hfirst, hfirst, ?_, ?_⟩
  · exact ⟨UInt32.le_refl _, by simp [proof], by simp [proof]⟩
  · rintro (_ | k) rowRoot merkleProof hrow hmerkle
    · obtain rfl := Option.some.inj hrow
      obtain rfl := Option.some.inj hmerkle
      exact ⟨hfirst.symm, hverify⟩
    · cases hrow
  · simp [proof]
  · rw [← hsame] at htexts
    simpa [RowProof.texts, proof] using htexts

/-- **Every column passes for a row**, behind the last one of the header. -/
theorem exists_verify_of_column {i : Nat} {columnRoot : NamespacedHash}
    (hi : header.columnRoots[i]? = some columnRoot) (hsize : header.leaves.length ≤ UInt32.size) :
    ∃ proof : RowProof, proof.verify header.hash = .ok () ∧ proof.rowRoots = [columnRoot] ∧
      proof.last.toNat = header.rowRoots.length + i ∧
      proof.texts ⊆ Merkle.texts header.leaves := by
  have hlt := (List.getElem?_eq_some_iff.mp hi).1
  rw [← Nat.add_lt_add_iff_left (k := header.rowRoots.length), ← length_leaves] at hlt
  obtain ⟨proof, hverify, hroots, -, hlast, -, htexts⟩ := exists_verify_of_turns
    (show (header.rowRoots ++ header.columnRoots)[header.rowRoots.length + i]? = some columnRoot by
      rw [List.getElem?_append_right (Nat.le_add_right _ _), Nat.add_sub_cancel_left, hi])
    hlt rfl (hlt.trans_le hsize)
  exact ⟨proof, hverify, hroots, hlast, htexts⟩

/-- **Among three rows, a column passes for the last one.** The left four of six leaves have a tree
of their own, and the fifth leaf comes right after it, as the third of four leaves would. -/
theorem exists_verify_of_three (hrows : header.rowRoots.length = 3)
    (hcolumns : header.columnRoots.length = 3) {columnRoot : NamespacedHash}
    (hi : header.columnRoots[1]? = some columnRoot) :
    ∃ proof : RowProof, proof.verify header.hash = .ok () ∧ proof.rowRoots = [columnRoot] ∧
      proof.first.toNat = 2 ∧ proof.last.toNat = 2 ∧
      (∀ merkleProof ∈ proof.proofs, merkleProof.total = 4) ∧
      proof.texts ⊆ Merkle.texts header.leaves := by
  have hleaves : header.leaves.length = 6 := by rw [length_leaves, hrows, hcolumns]
  have hturns : Merkle.turns 2 4 = Merkle.turns 4 6 := by
    have hfour : Merkle.splitPoint 4 = 2 := by decide
    have hsix : Merkle.splitPoint 6 = 4 := by decide
    rw [Merkle.turns_of_le (by decide) hfour.le, Merkle.turns_of_le (by decide) hsix.le, hfour,
      hsix]
  refine exists_verify_of_turns (i := 4) ?_ (show 2 < 4 by decide) (hleaves ▸ hturns) (by decide)
  rw [List.getElem?_append_right (by omega), hrows]
  exact hi

/-- A header of a single row and a single column. -/
def single : AvailabilityHeader :=
  ⟨[.empty], [{ NamespacedHash.empty with min := .parity, max := .parity }]⟩

/-- The strings that are hashed for this header do not collide. -/
theorem not_collides_single : ¬Collides (Merkle.texts single.leaves) :=
  not_collides_of_pairwise (by decide +kernel)

/-- A header of three rows that are alike, and three columns that are alike. -/
def triple : AvailabilityHeader :=
  ⟨List.replicate 3 .empty,
    List.replicate 3 { NamespacedHash.empty with min := .parity, max := .parity }⟩

/-- The strings that are hashed for this header do not collide, either. -/
theorem not_collides_triple : ¬Collides (Merkle.texts triple.leaves) := by
  intro h
  refine not_collides_of_pairwise ?_ (h.mono (List.subset_dedup _))
  decide +kernel

end AvailabilityHeader

namespace RowProof

/-- Without a condition on their number of leaves, Merkle proofs show another root than that of the
row, though no two of the strings that are hashed for it collide. -/
theorem exists_verify_other_total :
    ∃ proof : RowProof, AvailabilityHeader.triple.rowRoots.length = 3 ∧
      AvailabilityHeader.triple.columnRoots.length = 3 ∧
      proof.last.toNat < AvailabilityHeader.triple.rowRoots.length ∧
      proof.verify AvailabilityHeader.triple.hash = .ok () ∧
      ¬Collides (proof.texts ++ Merkle.texts AvailabilityHeader.triple.leaves) ∧
      proof.rowRoots ≠ (AvailabilityHeader.triple.rowRoots.drop proof.first.toNat).take
        (proof.last.toNat - proof.first.toNat + 1) := by
  obtain ⟨proof, hverify, hroots, hfirst, hlast, -, htexts⟩ :=
    AvailabilityHeader.exists_verify_of_three
      (show AvailabilityHeader.triple.rowRoots.length = 3 from rfl) rfl (show _ = some _ from rfl)
  refine ⟨proof, rfl, rfl, hlast ▸ Nat.lt_succ_self 2, hverify, fun h => ?_, ?_⟩
  · exact AvailabilityHeader.not_collides_triple
      (h.mono (List.append_subset.mpr ⟨htexts, List.Subset.refl _⟩))
  · rw [hroots, hfirst, hlast]
    decide

/-- The column of a single row passes for a second row, and no two of the strings that are hashed
for it collide. -/
theorem exists_verify_past_rows :
    ∃ proof : RowProof, AvailabilityHeader.single.rowRoots.length = 1 ∧
      AvailabilityHeader.single.columnRoots.length = 1 ∧
      proof.verify AvailabilityHeader.single.hash = .ok () ∧
      ¬Collides (proof.texts ++ Merkle.texts AvailabilityHeader.single.leaves) ∧
      ¬proof.last.toNat < AvailabilityHeader.single.rowRoots.length := by
  obtain ⟨proof, hverify, -, hlast, htexts⟩ :=
    AvailabilityHeader.exists_verify_of_column
      (show AvailabilityHeader.single.columnRoots[0]? = some _ from rfl) (by decide)
  refine ⟨proof, rfl, rfl, hverify, fun h => ?_, by rw [hlast]; exact lt_irrefl _⟩
  exact AvailabilityHeader.not_collides_single
    (h.mono (List.append_subset.mpr ⟨htexts, List.Subset.refl _⟩))

end RowProof

end Availability
