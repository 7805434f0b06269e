import Availability.Proofs.Json.Record
import Availability.Proofs.Square.RowProof
import Availability.Square.Form

/-!
# What a data root says about a header

The data root is hashed from the roots of the rows and then those of the columns, one list after the
other. Nothing that is hashed tells where the first list ends. It is the **number** of roots that
does: there is no header whose rows and columns are not equally many, whether it was made or read.

* `AvailabilityHeader.Constructed` – the headers there are, `AvailabilityHeader.constructed_iff`;
* `AvailabilityHeader.hash_binding` – so a data root binds both lists, as any root binds its leaves;
* `AvailabilityHeader.rowProof_proves_rows` – **which rows have a proof**, and that it verifies for
  the data root of its header and for no other one.
-/

namespace Availability.AvailabilityHeader

/-! ### Rows and columns under a data root -/

/-- The headers there are: those that are made of roots, and those that are read. -/
inductive Constructed : AvailabilityHeader → Prop
  /-- The header was made of roots. -/
  | made {rowRoots columnRoots : List NamespacedHash} {header : AvailabilityHeader}
    (h : make rowRoots columnRoots = .ok header) : Constructed header
  /-- The header was read. -/
  | read {json : Json} {header : AvailabilityHeader} (h : decoder json = .ok header) :
    Constructed header

theorem make_eq_ok_iff {rowRoots columnRoots : List NamespacedHash} {header : AvailabilityHeader} :
    make rowRoots columnRoots = .ok header ↔
      columnRoots.length = rowRoots.length ∧ header = ⟨rowRoots, columnRoots⟩ := by
  rw [make]
  split
  case isTrue h => simp only [Except.ok.injEq, h, true_and, eq_comm]
  case isFalse h => simp only [reduceCtorEq, Ne.symm h, false_and]

/-- **There is a header of all roots that are equally many**, and of no others. -/
theorem constructed_iff {header : AvailabilityHeader} :
    Constructed header ↔ header.columnRoots.length = header.rowRoots.length := by
  constructor
  · rintro (h | h)
    · obtain ⟨hcount, rfl⟩ := make_eq_ok_iff.mp h
      exact hcount
    · -- what is read is made of the two lists that were read
      obtain ⟨parts, hparts, hheader⟩ :
          ∃ parts, fields.decoder _ = .ok parts ∧ parts = .ok header := by
        simpa [decoder, Decoder.refined, Decoder.thenTry] using h
      obtain ⟨isObject, get, hbuild⟩ := Fields.exists_build_of_decoder hparts
      simp only [fields, Fields.build_seq_eq_ok_iff, Fields.build_map_eq_ok_iff] at hbuild
      obtain ⟨_, ⟨rowRoots, -, rfl⟩, columnRoots, -, rfl⟩ := hbuild
      obtain ⟨hcount, rfl⟩ := make_eq_ok_iff.mp hheader
      exact hcount
  · intro h
    exact .made (make_eq_ok_iff.mpr ⟨h, rfl⟩)

/-- Headers with as many columns as rows are told by their leaves. -/
theorem eq_of_leaves_eq {a b : AvailabilityHeader} (ha : a.columnRoots.length = a.rowRoots.length)
    (hb : b.columnRoots.length = b.rowRoots.length) (h : a.leaves = b.leaves) : a = b := by
  have hroots : a.rowRoots ++ a.columnRoots = b.rowRoots ++ b.columnRoots :=
    List.map_injective_iff.mpr NamespacedHash.toBytes_injective h
  have hlength := congrArg List.length hroots
  rw [List.length_append, List.length_append] at hlength
  obtain ⟨hrows, hcolumns⟩ := List.append_inj hroots (by omega)
  obtain ⟨rows, columns⟩ := a
  obtain rfl : rows = b.rowRoots := hrows
  obtain rfl : columns = b.columnRoots := hcolumns
  rfl

/-- **A root binds its leaves, and a data root its header**: byte strings of any number have the
same root only when they are the same, and headers have the same data root only when their rows and
columns are the same. This holds unless two of the strings collide that are hashed for both
roots. -/
theorem hash_binding :
    (∀ xs ys : List Bytes, Collides (Merkle.texts xs ++ Merkle.texts ys) ∨
      (Merkle.root xs = Merkle.root ys ↔ xs = ys)) ∧
    ∀ a b : AvailabilityHeader, Constructed a → Constructed b →
      Collides (Merkle.texts a.leaves ++ Merkle.texts b.leaves) ∨
        (a.hash = b.hash ↔ a.rowRoots = b.rowRoots ∧ a.columnRoots = b.columnRoots) := by
  have hroot (xs ys : List Bytes) : Collides (Merkle.texts xs ++ Merkle.texts ys) ∨
      (Merkle.root xs = Merkle.root ys ↔ xs = ys) := by
    rw [or_iff_not_imp_left]
    intro free
    refine ⟨fun h => ?_, congrArg Merkle.root⟩
    exact Merkle.leaves_eq_of_root_eq free (List.subset_append_left _ _)
      (List.subset_append_right _ _) h
  refine ⟨hroot, fun a b ha hb => (hroot a.leaves b.leaves).imp_right fun hleaves => ?_⟩
  rw [hash, hash, hleaves]
  constructor
  · intro h
    obtain rfl := eq_of_leaves_eq (constructed_iff.mp ha) (constructed_iff.mp hb) h
    exact ⟨rfl, rfl⟩
  · rintro ⟨hrows, hcolumns⟩
    rw [leaves, leaves, hrows, hcolumns]

/-- The same two roots with row and column exchanged: the leaves are the same but for their order,
and so would be the lists if nothing fixed where the first one ends. -/
theorem hash_binding_exchanged :
    ∃ a b : AvailabilityHeader, a.rowRoots = b.columnRoots ∧ a.columnRoots = b.rowRoots ∧
      a ≠ b ∧ (Constructed a ∧ Constructed b) ∧
      (Collides (Merkle.texts a.leaves ++ Merkle.texts b.leaves) ∨
        (a.hash = b.hash ↔ a.rowRoots = b.rowRoots ∧ a.columnRoots = b.columnRoots)) := by
  let first : NamespacedHash := .empty
  let other : NamespacedHash := { first with min := .parity, max := .parity }
  have hne : (⟨[first], [other]⟩ : AvailabilityHeader) ≠ ⟨[other], [first]⟩ := by
    intro h
    have hmin := congrArg (fun header => header.rowRoots.map NamespacedHash.min) h
    exact absurd hmin (by decide)
  have ha : Constructed ⟨[first], [other]⟩ := constructed_iff.mpr rfl
  have hb : Constructed ⟨[other], [first]⟩ := constructed_iff.mpr rfl
  exact ⟨_, _, rfl, rfl, hne, ⟨ha, hb⟩, hash_binding.2 _ _ ha hb⟩

/-! ### The rows that have a proof -/

/-- **Exactly the rows of a header have proofs**, one for each first and last row in this order. The
proof has the roots of these rows and their numbers, and it passes the checks. It verifies for the
data root of its header, and for no other one. -/
theorem rowProof_proves_rows {header : AvailabilityHeader}
    (hsize : header.rowRoots.length ≤ UInt32.size) (first last : Nat) :
    ((∃ proof, header.rowProof first last = .ok proof) ↔
      first ≤ last ∧ last < header.rowRoots.length) ∧
    ∀ proof, header.rowProof first last = .ok proof →
      proof.rowRoots = (header.rowRoots.drop first).take (last - first + 1) ∧
      proof.first.toNat = first ∧ proof.last.toNat = last ∧ proof.validate = .ok () ∧
      proof.verify header.hash = .ok () ∧
      ∀ root, root ≠ header.hash → proof.verify root = .error .rootMismatch := by
  constructor
  · constructor
    · rintro ⟨proof, h⟩
      obtain ⟨hle, hlt, -⟩ := of_rowProof_eq_ok h
      exact ⟨hle, hlt⟩
    · rintro ⟨hle, hlt⟩
      obtain ⟨proof, h, -⟩ := rowProof_eq_ok hle hlt hsize
      exact ⟨proof, h⟩
  · intro proof h
    obtain ⟨hle, hlt, hvalid, hfirst, hlast⟩ := of_rowProof_eq_ok h
    obtain ⟨made, hmade, hroots, hverify⟩ := rowProof_eq_ok hle hlt hsize
    obtain rfl := Except.ok.inj (hmade.symm.trans h)
    refine ⟨hroots, ?_, ?_, hvalid, hverify, fun root hne => ?_⟩
    · rw [hfirst, UInt32.toNat_ofNat_of_lt' (by omega)]
    · rw [hlast, UInt32.toNat_ofNat_of_lt' (by omega)]
    · exact RowProof.verify_eq_error_of_ne hverify hne

/-- Of three rows, the last two have a proof, and the last one has none together with the first
column. -/
theorem rowProof_proves_rows_three :
    ∃ (header : AvailabilityHeader) (a b c : NamespacedHash),
      a ≠ b ∧ header.rowRoots = [a, b, c] ∧ header.columnRoots = [c, b, a] ∧
      header.rowRoots.length ≤ UInt32.size ∧
      (∃ proof, header.rowProof 1 2 = .ok proof ∧ proof.rowRoots = [b, c] ∧
        proof.first.toNat = 1 ∧ proof.last.toNat = 2 ∧ proof.validate = .ok () ∧
        proof.verify header.hash = .ok () ∧
        ∀ root, root ≠ header.hash → proof.verify root = .error .rootMismatch) ∧
      ¬∃ proof, header.rowProof 2 3 = .ok proof := by
  let a : NamespacedHash := .ofLeaf (.ofSuffix [1, 0]) [7]
  let b : NamespacedHash := .ofLeaf (.ofSuffix [2, 0]) [7]
  let c : NamespacedHash := .ofLeaf .parity [7]
  have hne : a ≠ b := fun h => absurd (congrArg NamespacedHash.min h) (by decide)
  have hsize : (⟨[a, b, c], [c, b, a]⟩ : AvailabilityHeader).rowRoots.length ≤ UInt32.size := by
    decide
  obtain ⟨hiff, hproof⟩ := rowProof_proves_rows hsize 1 2
  obtain ⟨proof, h⟩ := hiff.mpr ⟨by decide, by decide⟩
  have hnone := (rowProof_proves_rows hsize 2 3).1.not.mpr (by decide)
  exact ⟨_, a, b, c, hne, rfl, rfl, hsize, ⟨proof, h, hproof proof h⟩, hnone⟩

end Availability.AvailabilityHeader
