import Availability.Proofs.Share.Split
import Availability.Proofs.Square.Range

/-!
# The square that begins with given rows

Squares are made of cells, and what is proved of them is about the shares that are found in these.
Here it is the other way round: the shares are given row by row, and there is a square that has them
in its data quadrant. What is outside of the quadrant is of parity whatever it holds, so it is
nothing but zeros.

* `ExtendedSquare.IsQuadrant` – the rows that can be a data quadrant, which are sorted along **both
  axes**;
* `ExtendedSquare.ofRows` – the square that begins with them;
* `ExtendedSquare.wellFormed_ofRows` – its cells are well-formed, so it has a header, as said by
  `ExtendedSquare.exists_header_ofRows`;
* `ExtendedSquare.rowShares_ofRows` – and its rows are those that were given;
* `ExtendedSquare.paddingRows` – two rows of padding, as an example.
-/

namespace Availability.ExtendedSquare

/-- Rows of shares that can be the data quadrant of a square. -/
structure IsQuadrant (rows : List (List Share)) : Prop where
  /-- The number of rows is a power of two. -/
  power : ∃ k, rows.length = 2 ^ k
  /-- The rows are as long as they are many. -/
  lengths : ∀ row ∈ rows, row.length = rows.length
  /-- All shares are of well-formed namespaces. -/
  valid : ∀ row ∈ rows, ∀ share ∈ row, share.ns.validate = .ok ()
  /-- The namespaces do not decrease along any row. -/
  sortedRows : ∀ row ∈ rows, row.Pairwise fun a b => a.ns ≤ b.ns
  /-- Nor do they from any row to one below it. -/
  sortedColumns : rows.Pairwise (List.Forall₂ fun a b => a.ns ≤ b.ns)

/-- The share at a place of some rows. -/
def shareAt? (rows : List (List Share)) (place : Nat × Nat) : Option Share :=
  rows[place.1]?.bind fun shares => shares[place.2]?

/-- The bytes of the share at a place, or zeros where there is none. -/
def cellAt (rows : List (List Share)) (place : Nat × Nat) : Bytes :=
  match shareAt? rows place with
  | some share => share.bytes
  | none => List.replicate Share.size 0

/-- The square with the given rows in its data quadrant, extended by zeros. -/
def ofRows (rows : List (List Share)) (codec : String) : ExtendedSquare where
  cells := Array.ofFn fun i : Fin (2 * rows.length * (2 * rows.length)) =>
    cellAt rows (i / (2 * rows.length), i % (2 * rows.length))
  codec
  width := 2 * rows.length

variable {rows : List (List Share)} (codec : String)

theorem dataWidth_ofRows : (ofRows rows codec).dataWidth = rows.length :=
  Nat.mul_div_cancel_left _ Nat.two_pos

variable {codec}

theorem shareAt?_eq_some_iff {row column : Nat} {share : Share} :
    shareAt? rows (row, column) = some share ↔
      ∃ shares, rows[row]? = some shares ∧ shares[column]? = some share :=
  Option.bind_eq_some_iff

/-- The cells of the square, by their places. -/
theorem getElem?_cells_ofRows {row column : Nat} (hrow : row < 2 * rows.length)
    (hcolumn : column < 2 * rows.length) :
    (ofRows rows codec).cells[row * (2 * rows.length) + column]? =
      some (cellAt rows (row, column)) := by
  have hlt : row * (2 * rows.length) + column < 2 * rows.length * (2 * rows.length) := by
    have := Nat.mul_le_mul_right (2 * rows.length) (Nat.succ_le_of_lt hrow)
    rw [Nat.succ_mul] at this
    omega
  have hpos : 0 < 2 * rows.length := Nat.zero_lt_of_lt hrow
  have hdiv : (row * (2 * rows.length) + column) / (2 * rows.length) = row := by
    rw [Nat.mul_comm, Nat.mul_add_div hpos, Nat.div_eq_of_lt hcolumn, Nat.add_zero]
  have hmod : (row * (2 * rows.length) + column) % (2 * rows.length) = column := by
    rw [Nat.mul_comm, Nat.mul_add_mod, Nat.mod_eq_of_lt hcolumn]
  rw [ofRows, Array.getElem?_ofFn, dif_pos hlt]
  simp only [hdiv, hmod]

section IsQuadrant

variable (h : IsQuadrant rows)
include h

/-- Every place of the quadrant has a share, and no other place has. -/
theorem IsQuadrant.exists_shareAt? {row column : Nat} (hrow : row < rows.length)
    (hcolumn : column < rows.length) : ∃ share, shareAt? rows (row, column) = some share := by
  have hlt : column < rows[row].length := (h.lengths _ (List.getElem_mem hrow)).symm ▸ hcolumn
  refine ⟨rows[row][column], shareAt?_eq_some_iff.mpr ⟨rows[row], ?_, ?_⟩⟩
  · exact List.getElem?_eq_getElem hrow
  · exact List.getElem?_eq_getElem hlt

theorem IsQuadrant.lt_of_shareAt? {row column : Nat} {share : Share}
    (hshare : shareAt? rows (row, column) = some share) :
    row < rows.length ∧ column < rows.length := by
  obtain ⟨line, hline, hat⟩ := shareAt?_eq_some_iff.mp hshare
  have hlength := h.lengths line (List.mem_of_getElem? hline)
  exact ⟨(List.getElem?_eq_some_iff.mp hline).1, hlength ▸ (List.getElem?_eq_some_iff.mp hat).1⟩

theorem IsQuadrant.validate_of_shareAt? {place : Nat × Nat} {share : Share}
    (hshare : shareAt? rows place = some share) : share.ns.validate = .ok () := by
  obtain ⟨line, hline, hat⟩ := shareAt?_eq_some_iff.mp hshare
  exact h.valid line (List.mem_of_getElem? hline) share (List.mem_of_getElem? hat)

/-- Shares of one line stand in order, whatever the axis. -/
theorem IsQuadrant.le_of_lt {axis : Axis} {index i j : Nat} (hij : i < j) {a b : Share}
    (ha : shareAt? rows (axis.cell index i) = some a)
    (hb : shareAt? rows (axis.cell index j) = some b) : a.ns ≤ b.ns := by
  obtain ⟨lineA, hlineA, hatA⟩ := shareAt?_eq_some_iff.mp ha
  obtain ⟨lineB, hlineB, hatB⟩ := shareAt?_eq_some_iff.mp hb
  cases axis with
  | row =>
    obtain rfl : lineA = lineB := Option.some.inj (hlineA.symm.trans hlineB)
    obtain ⟨hi, rfl⟩ := List.getElem?_eq_some_iff.mp hatA
    obtain ⟨hj, rfl⟩ := List.getElem?_eq_some_iff.mp hatB
    have hsorted := h.sortedRows lineA (List.mem_of_getElem? hlineA)
    exact List.pairwise_iff_getElem.mp hsorted i j hi hj hij
  | column =>
    obtain ⟨hi, rfl⟩ := List.getElem?_eq_some_iff.mp hlineA
    obtain ⟨hj, rfl⟩ := List.getElem?_eq_some_iff.mp hlineB
    obtain ⟨hindexA, rfl⟩ := List.getElem?_eq_some_iff.mp hatA
    obtain ⟨hindexB, rfl⟩ := List.getElem?_eq_some_iff.mp hatB
    exact (List.pairwise_iff_getElem.mp h.sortedColumns i j hi hj hij).get hindexA hindexB

/-- A cell of the quadrant begins with the namespace of its share. -/
theorem namespaceAt?_ofRows {place : Nat × Nat} {share : Share}
    (hshare : shareAt? rows place = some share) :
    namespaceAt? (ofRows rows codec).cells (2 * rows.length) place = some share.ns := by
  obtain ⟨hrow, hcolumn⟩ := h.lt_of_shareAt? hshare
  have hcell : (ofRows rows codec).cells[place.1 * (2 * rows.length) + place.2]? =
      some share.bytes := by
    rw [getElem?_cells_ofRows (by omega) (by omega), cellAt, hshare]
  exact namespaceAt?_eq_some_iff.mpr ⟨_, hcell, rfl, h.validate_of_shareAt? hshare⟩

variable (codec)

/-- **The cells of the square are well-formed.** -/
theorem wellFormed_ofRows : WellFormed (ofRows rows codec).cells (ofRows rows codec).width where
  power := by
    obtain ⟨k, hk⟩ := h.power
    refine ⟨k + 1, ?_⟩
    change 2 * rows.length = 2 ^ (k + 1)
    rw [hk, pow_succ, Nat.mul_comm]
  count := Array.size_ofFn
  sizes cell hcell := by
    obtain ⟨i, rfl⟩ := Array.mem_ofFn.mp hcell
    rw [cellAt]
    split
    case h_1 share _ => exact share.length_bytes
    case h_2 => exact List.length_replicate
  starts row hrow column hcolumn := by
    have hhalf : (ofRows rows codec).width / 2 = rows.length := dataWidth_ofRows codec
    rw [hhalf] at hrow hcolumn
    obtain ⟨share, hshare⟩ := h.exists_shareAt? hrow hcolumn
    exact ⟨share.ns, namespaceAt?_ofRows h hshare⟩
  sorted axis index hindex j hj i hij a ha b hb := by
    have hhalf : (ofRows rows codec).width / 2 = rows.length := dataWidth_ofRows codec
    rw [hhalf] at hindex hj
    have hexists (i : Nat) (hi : i < rows.length) :
        ∃ share, shareAt? rows (axis.cell index i) = some share := by
      cases axis with
      | row => exact h.exists_shareAt? hindex hi
      | column => exact h.exists_shareAt? hi hindex
    obtain ⟨first, hfirst⟩ := hexists i (hij.trans hj)
    obtain ⟨last, hlast⟩ := hexists j hj
    obtain rfl := Option.some.inj (ha.symm.trans (namespaceAt?_ofRows h hfirst))
    obtain rfl := Option.some.inj (hb.symm.trans (namespaceAt?_ofRows h hlast))
    exact h.le_of_lt hij hfirst hlast

/-- **The square has a header**, when it is not too large. -/
theorem exists_header_ofRows {app : AppVersion} (hsize : 2 * rows.length ≤ app.extendedBound) :
    ∃ header, (ofRows rows codec).header app = .ok header := by
  have hcells := wellFormed_ofRows codec h
  refine header_eq_ok (fun axis _ hindex => exists_tree hcells axis hindex) ?_ hsize
  obtain ⟨k, hk⟩ := h.power
  change 2 ≤ 2 * rows.length
  rw [hk]
  have := Nat.two_pow_pos k
  omega

/-- A share of the square is the one that was given. -/
theorem share_ofRows {row column : Nat} {share : Share}
    (hshare : shareAt? rows (row, column) = some share) :
    (ofRows rows codec).share row column = .ok share := by
  obtain ⟨hrow, hcolumn⟩ := h.lt_of_shareAt? hshare
  have hdata : (ofRows rows codec).isData row column = true := by
    simp only [isData, dataWidth_ofRows, hrow, hcolumn, decide_true, Bool.and_self]
  have hcell : (ofRows rows codec).cell row column = .ok share.bytes := by
    have hplace : (ofRows rows codec).position row column = row * (2 * rows.length) + column := rfl
    have hwidth : (ofRows rows codec).width = 2 * rows.length := rfl
    rw [cell, if_pos (by omega), Array.getD_eq_getD_getElem?, hplace,
      getElem?_cells_ofRows (by omega) (by omega), cellAt, hshare]
    rfl
  simp only [ExtendedSquare.share, hdata, hcell]
  exact Share.ofRaw_eq_ok_iff.mpr ⟨rfl, h.validate_of_shareAt? hshare⟩

/-- **The rows of the square are those that were given.** -/
theorem rowShares_ofRows {row : Nat} {line : List Share} (hline : rows[row]? = some line) :
    (ofRows rows codec).rowShares row = line := by
  have hlength := h.lengths line (List.mem_of_getElem? hline)
  have hshares : (List.range (ofRows rows codec).dataWidth).mapM ((ofRows rows codec).share row) =
      .ok line := by
    refine Checked.mapM_eq_ok_iff.mpr (List.forall₂_iff_get.mpr ⟨?_, fun column _ hcolumn => ?_⟩)
    · rw [List.length_range, dataWidth_ofRows, hlength]
    · rw [List.get_eq_getElem, List.getElem_range]
      refine share_ofRows codec h (shareAt?_eq_some_iff.mpr ⟨line, hline, ?_⟩)
      exact List.getElem?_eq_getElem hcolumn
  rw [rowShares, hshares]

theorem rowShares_ofRows_mem {row : Nat} (hrow : row < (ofRows rows codec).dataWidth) :
    (ofRows rows codec).rowShares row ∈ rows := by
  rw [dataWidth_ofRows] at hrow
  rw [rowShares_ofRows codec h (List.getElem?_eq_getElem hrow)]
  exact List.getElem_mem hrow

/-- Row by row, these are all of them. -/
theorem map_rowShares_ofRows : (List.range (ofRows rows codec).dataWidth).map
    (ofRows rows codec).rowShares = rows := by
  rw [dataWidth_ofRows]
  refine List.ext_getElem (by rw [List.length_map, List.length_range]) fun row _ hrow => ?_
  rw [List.getElem_map, List.getElem_range]
  exact rowShares_ofRows codec h (List.getElem?_eq_getElem hrow)

end IsQuadrant

/-! ### Two rows of padding -/

/-- Padding of four namespaces. The larger one of the upper row is between those of the lower. -/
def paddingRows : List (List Share) :=
  [[.padding default, .padding .maxPrimaryReserved],
    [.padding .intermediateStateRoots, .padding .tailPadding]]

/-- It is in the range of both rows, and nothing but zeros is in neither of them. -/
theorem exists_le_of_mem_paddingRows : ∀ row ∈ paddingRows, ∃ first ∈ row, ∃ last ∈ row,
    first.ns ≤ .maxPrimaryReserved ∧ .maxPrimaryReserved ≤ last.ns ∧ last.ns ≠ default ∧
      last.ns ≠ .parity := by
  simp only [paddingRows, List.forall_mem_cons, List.not_mem_nil, false_imp_iff, implies_true,
    and_true, List.exists_mem_cons_iff, false_and, exists_false, or_false, Share.ns_padding]
  decide

theorem isQuadrant_paddingRows : IsQuadrant paddingRows where
  power := ⟨1, rfl⟩
  lengths := by simp [paddingRows]
  valid := by
    simp only [paddingRows, List.forall_mem_cons, List.not_mem_nil, false_imp_iff, implies_true,
      and_true, Share.ns_padding]
    decide
  sortedRows := by
    simp only [paddingRows, List.forall_mem_cons, List.not_mem_nil, false_imp_iff, implies_true,
      and_true, List.pairwise_pair, Share.ns_padding]
    decide
  sortedColumns := by
    simp only [paddingRows, List.pairwise_pair, List.forall₂_cons, List.Forall₂.nil, and_true,
      Share.ns_padding]
    decide

end Availability.ExtendedSquare
