import Availability.Proofs.Square.Line

/-!
# The rows of the data quadrant

The left half of an upper row of a square is a row of the data quadrant. All other leaves are of
parity, so the data of any other namespace is found in the data quadrant alone, and only in the
rows whose root has the namespace in its range.

* `ExtendedSquare.rowShares`, `ExtendedSquare.rowRoot` – the shares and the root of a row;
* `ExtendedSquare.exists_lineLeaves_eq` – the leaves of an upper row are its shares **and parity**;
* `ExtendedSquare.shares_eq_ok` – the shares of a square are those of its rows;
* `ExtendedSquare.filter_rowRoots` – the roots that have a namespace in their range are those of
  some rows of the data quadrant, `ExtendedSquare.rowsOf`;
* `ExtendedSquare.flatMap_rowsOf` – and these rows have **all shares of the namespace**.
-/

namespace Availability

/-- The leaf that a share of the data quadrant is. -/
def Share.toLeaf (share : Share) : Nmt.Leaf :=
  ⟨share.ns, share.bytes⟩

namespace ExtendedSquare

variable {square : ExtendedSquare} {ns : Namespace}

/-- The shares of a row of the data quadrant. -/
def rowShares (square : ExtendedSquare) (row : Nat) : List Share :=
  match (List.range square.dataWidth).mapM (square.share row) with
  | .ok shares => shares
  | .error _ => []

/-- The root of a row. -/
def rowRoot (square : ExtendedSquare) (row : Nat) : NamespacedHash :=
  Nmt.rootOver (square.lineLeaves .row row)

theorem rowRoot_of_tree {row : Nat} {tree : Nmt} (h : square.tree .row row = .ok tree) :
    square.rowRoot row = tree.root := by
  rw [rowRoot, lineLeaves_of_tree h]
  rfl

/-- The rows of the data quadrant whose range contains a namespace. -/
def rowsOf (square : ExtendedSquare) (ns : Namespace) : List Nat :=
  (List.range square.dataWidth).filter fun row =>
    !ns.isOutside (square.rowRoot row) (square.rowRoot row)

theorem mem_rowsOf {row : Nat} : row ∈ square.rowsOf ns ↔
    row < square.dataWidth ∧ ns.isOutside (square.rowRoot row) (square.rowRoot row) = false := by
  rw [rowsOf, List.mem_filter, List.mem_range, Bool.not_eq_true']

theorem dataWidth_le (square : ExtendedSquare) : square.dataWidth ≤ square.width :=
  Nat.div_le_self _ _

/-! ### Leaves of a row -/

/-- A leaf of the data quadrant is that of its share. -/
theorem exists_share_of_isData {row column : Nat} {leaf : Nmt.Leaf}
    (hdata : square.isData row column = true) (h : square.leaf row column = .ok leaf) :
    ∃ share, square.share row column = .ok share ∧ share.toLeaf = leaf := by
  obtain ⟨data, hcell, h⟩ := Checked.bind_eq_ok_iff.mp h
  rw [if_pos hdata] at h
  obtain ⟨share, hraw, h⟩ := Checked.bind_eq_ok_iff.mp h
  refine ⟨share, ?_, ?_⟩
  · simp only [ExtendedSquare.share, hdata, hcell]
    exact hraw
  · rw [← Except.ok.inj h, Share.toLeaf, (Share.ofRaw_eq_ok_iff.mp hraw).1]

/-- A share of the data quadrant is a leaf. -/
theorem leaf_of_share {row column : Nat} {share : Share}
    (h : square.share row column = .ok share) : square.leaf row column = .ok share.toLeaf := by
  simp only [ExtendedSquare.share, Checked.throw_bind, Checked.ite_throw_eq_ok_iff,
    Checked.bind_eq_ok_iff, Bool.not_eq_true', Bool.not_eq_false] at h
  obtain ⟨hdata, data, hcell, hraw⟩ := h
  refine Checked.bind_eq_ok_iff.mpr ⟨data, hcell, ?_⟩
  rw [if_pos hdata, hraw, Share.toLeaf, (Share.ofRaw_eq_ok_iff.mp hraw).1]
  rfl

/-- A leaf outside of the data quadrant is of parity. -/
theorem ns_eq_parity_of_leaf {row column : Nat} {leaf : Nmt.Leaf}
    (hdata : square.isData row column = false) (h : square.leaf row column = .ok leaf) :
    leaf.ns = .parity := by
  obtain ⟨data, -, h⟩ := Checked.bind_eq_ok_iff.mp h
  rw [hdata] at h
  rw [← Except.ok.inj h]

/-- A cell of a line is in the data quadrant exactly if both the line and the cell come early. -/
theorem isData_cell_iff {axis : Axis} {index i : Nat} :
    square.isData (axis.cell index i).1 (axis.cell index i).2 = true ↔
      index < square.dataWidth ∧ i < square.dataWidth := by
  simp only [isData, Bool.and_eq_true, decide_eq_true_eq]
  cases axis with
  | row => exact Iff.rfl
  | column => exact and_comm

/-- The leaves of a late line are of parity. -/
theorem ns_eq_parity_of_mem_lineLeaves {axis : Axis} {index : Nat}
    (hindex : square.dataWidth ≤ index) {leaf : Nmt.Leaf}
    (h : leaf ∈ square.lineLeaves axis index) : leaf.ns = .parity := by
  obtain ⟨i, hi⟩ := List.mem_iff_getElem?.mp h
  refine ns_eq_parity_of_leaf (Bool.eq_false_iff.mpr fun hdata => ?_) (leaf_of_lineLeaves hi)
  exact absurd (isData_cell_iff.mp hdata).1 (not_lt.mpr hindex)

section Header

variable {app : AppVersion} {header : AvailabilityHeader}
  (hheader : square.header app = .ok header) {row : Nat}
include hheader

/-- **The leaves of an upper row are its shares**, followed by parity. -/
theorem exists_lineLeaves_eq (hrow : row < square.dataWidth) :
    (List.range square.dataWidth).mapM (square.share row) = .ok (square.rowShares row) ∧
      ∃ parity, square.lineLeaves .row row = (square.rowShares row).map Share.toLeaf ++ parity ∧
        ∀ leaf ∈ parity, leaf.ns = .parity := by
  obtain ⟨tree, htree, -⟩ :=
    exists_tree_of_header hheader .row (hrow.trans_le square.dataWidth_le)
  have hleaves := tree_eq_ok_iff.mp htree
  rw [← Nat.add_sub_cancel' square.dataWidth_le, List.range_add] at hleaves
  obtain ⟨left, parity, hleft, hright, hsplit⟩ := Checked.mapM_append_eq_ok_iff.mp hleaves
  obtain ⟨shares, hshares, rfl⟩ : ∃ shares,
      (List.range square.dataWidth).mapM (square.share row) = .ok shares ∧
        shares.map Share.toLeaf = left := by
    refine Checked.exists_mapM_of_mapM_eq_ok hleft fun column hcolumn leaf h => ?_
    exact exists_share_of_isData (by simpa [isData, hrow] using hcolumn) h
  have hrowShares : square.rowShares row = shares := by rw [rowShares, hshares]
  refine ⟨hrowShares ▸ hshares, parity, ?_, ?_⟩
  · rw [lineLeaves_of_tree htree, hsplit, hrowShares]
  · intro leaf hleaf
    obtain ⟨i, hi⟩ := List.mem_iff_getElem?.mp hleaf
    obtain ⟨column, hcolumn, h⟩ := Checked.exists_of_mapM_eq_ok hright hi
    obtain ⟨j, -, rfl⟩ := List.mem_map.mp (List.mem_of_getElem? hcolumn)
    exact ns_eq_parity_of_leaf (by simp [isData, Axis.cell]) h

/-- The shares of a square are those of the rows of the data quadrant. -/
theorem shares_eq_ok :
    square.shares = .ok ((List.range square.dataWidth).flatMap square.rowShares) := by
  refine Checked.mapM_flatMap_eq_ok fun row hrow => ?_
  rw [List.mapM_map]
  exact (exists_lineLeaves_eq hheader (List.mem_range.mp hrow)).1

/-- The shares of a row are in the order of their namespaces. -/
theorem pairwise_rowShares (hrow : row < square.dataWidth) :
    (square.rowShares row).Pairwise fun a b => a.ns ≤ b.ns := by
  obtain ⟨-, parity, hleaves, -⟩ := exists_lineLeaves_eq hheader hrow
  have hasc : (square.lineLeaves .row row).Pairwise _ :=
    pairwise_lineLeaves hheader (hrow.trans_le square.dataWidth_le)
  rw [hleaves, List.pairwise_append, List.pairwise_map] at hasc
  exact hasc.1

/-- The leaves of a namespace other than parity are shares. -/
theorem filter_lineLeaves (hns : ns ≠ .parity) (hrow : row < square.dataWidth) :
    ((square.lineLeaves .row row).filter fun leaf => leaf.ns = ns) =
      ((square.rowShares row).filter fun share => share.ns = ns).map Share.toLeaf := by
  obtain ⟨-, parity, hleaves, hparity⟩ := exists_lineLeaves_eq hheader hrow
  have hnone : (parity.filter fun leaf => leaf.ns = ns) = [] := by
    rw [List.filter_eq_nil_iff]
    intro leaf hleaf
    rw [decide_eq_true_eq, hparity leaf hleaf]
    exact hns.symm
  rw [hleaves, List.filter_append, hnone, List.append_nil, List.filter_map]
  rfl

/-! ### Rows of a namespace -/

/-- The roots of the rows in a header. -/
theorem rowRoots_eq : header.rowRoots = (List.range square.width).map square.rowRoot :=
  roots_eq hheader .row

/-- Only the rows of the data quadrant have a namespace other than parity in their range. -/
theorem isOutside_rowRoot (hns : ns ≠ .parity) (hlow : square.dataWidth ≤ row)
    (hrow : row < square.width) :
    ns.isOutside (square.rowRoot row) (square.rowRoot row) = true := by
  have hmin : Namespace.parity ≤ (square.rowRoot row).min :=
    Nmt.le_rootOver_min (lineLeaves_ne_nil hheader .row hrow)
      fun leaf hleaf => (ns_eq_parity_of_mem_lineLeaves hlow hleaf).ge
  have hbelow : ns.isBelow (square.rowRoot row) = true :=
    decide_eq_true ((lt_of_le_of_ne (Namespace.le_parity ns) hns).trans_le hmin)
  rw [Namespace.isOutside, hbelow, Bool.true_or]

/-- **The roots that have a namespace in their range** are those of the rows of the namespace. -/
theorem filter_rowRoots (hns : ns ≠ .parity) :
    (header.rowRoots.filter fun root => !ns.isOutside root root) =
      (square.rowsOf ns).map square.rowRoot := by
  have hlow : ((List.range (square.width - square.dataWidth)).map (square.dataWidth + ·)).filter
      (fun row => !ns.isOutside (square.rowRoot row) (square.rowRoot row)) = [] := by
    rw [List.filter_eq_nil_iff]
    intro row hrow
    obtain ⟨i, hi, rfl⟩ := List.mem_map.mp hrow
    rw [List.mem_range] at hi
    rw [isOutside_rowRoot hheader hns (Nat.le_add_right _ i) (by omega)]
    exact Bool.false_ne_true
  rw [rowRoots_eq hheader, ← Nat.add_sub_cancel' square.dataWidth_le, List.range_add,
    List.filter_map, List.filter_append]
  exact congrArg _ ((congrArg _ hlow).trans (List.append_nil _))

/-- The shares of a row are among its leaves. -/
theorem toLeaf_mem_lineLeaves (hrow : row < square.dataWidth) {share : Share}
    (h : share ∈ square.rowShares row) : share.toLeaf ∈ square.lineLeaves .row row := by
  obtain ⟨-, parity, hleaves, -⟩ := exists_lineLeaves_eq hheader hrow
  rw [hleaves]
  exact List.mem_append_left _ (List.mem_map_of_mem h)

/-- A row has each namespace in its range that lies between those of its shares. -/
theorem mem_rowsOf_of_le (hrow : row < square.dataWidth) {first last : Share}
    (hfirst : first ∈ square.rowShares row) (hlast : last ∈ square.rowShares row)
    (hlow : first.ns ≤ ns) (hhigh : ns ≤ last.ns) (hparity : last.ns ≠ .parity) :
    row ∈ square.rowsOf ns := by
  refine mem_rowsOf.mpr ⟨hrow, NamespacedHash.isOutside_eq_false_iff.mpr ⟨?_, ?_⟩⟩
  · exact (Nmt.rootOver_min_le (toLeaf_mem_lineLeaves hheader hrow hfirst)).trans hlow
  · exact hhigh.trans (Nmt.le_rootOver_max (toLeaf_mem_lineLeaves hheader hrow hlast) hparity)

/-- A row without the namespace in its range has no share of it. -/
theorem filter_rowShares_eq_nil (hns : ns ≠ .parity) (hrow : row < square.dataWidth)
    (hout : ns.isOutside (square.rowRoot row) (square.rowRoot row) = true) :
    ((square.rowShares row).filter fun share => share.ns = ns) = [] := by
  rw [List.filter_eq_nil_iff]
  intro share hshare
  rw [decide_eq_true_eq]
  rintro rfl
  have hmem := mem_rowsOf_of_le hheader hrow hshare hshare le_rfl le_rfl hns
  rw [(mem_rowsOf.mp hmem).2] at hout
  cases hout

/-- **The rows of a namespace have all shares of it.** -/
theorem flatMap_rowsOf (hns : ns ≠ .parity) :
    ((square.rowsOf ns).flatMap fun row =>
        (square.rowShares row).filter fun share => share.ns = ns) =
      ((List.range square.dataWidth).flatMap square.rowShares).filter fun share =>
        share.ns = ns := by
  rw [List.filter_flatMap, rowsOf]
  have hrows : ∀ row ∈ List.range square.dataWidth, row < square.dataWidth :=
    fun row hrow => List.mem_range.mp hrow
  generalize List.range square.dataWidth = rows at hrows ⊢
  induction rows with
  | nil => rfl
  | cons row rows ih =>
    obtain ⟨hrow, hrest⟩ := List.forall_mem_cons.mp hrows
    cases hout : ns.isOutside (square.rowRoot row) (square.rowRoot row) with
    | false =>
      rw [List.filter_cons_of_pos (by rw [hout]; rfl), List.flatMap_cons, List.flatMap_cons,
        ih hrest]
    | true =>
      rw [List.filter_cons_of_neg (by rw [hout]; exact Bool.false_ne_true), ih hrest,
        List.flatMap_cons, filter_rowShares_eq_nil hheader hns hrow hout, List.nil_append]

end Header

end ExtendedSquare

end Availability
