import Availability.Proofs.Nmt.Sorted
import Availability.Proofs.Square.Make

/-!
# Which namespaces the roots of a square show

A square is made only of cells whose namespaces are in order, but it is checked along the lines of
the data quadrant. The trees are over whole lines, and so they switch to parity in the middle. As
parity comes last of all, the order is kept there, and no line can fail to have a tree.

* `ExtendedSquare.exists_tree` – **every line of well-formed cells has a tree**;
* `ExtendedSquare.ownNamespaces_lineLeaves` – whose leaves have the namespaces of the data quadrant,
  but for parity;
* `ExtendedSquare.range_of_early_line`, `ExtendedSquare.range_of_late_line` – the ranges that the
  roots show;
* `ExtendedSquare.header_shows_ranges` – so a square that was made has a header with these ranges.
-/

namespace Availability.ExtendedSquare

open Nmt (rootOver ownNamespaces)

variable {square : ExtendedSquare}

/-- The namespaces that the cells of a line begin with in the data quadrant, but for that of
parity. -/
def lineNamespaces (cells : Array Bytes) (width : Nat) (axis : Axis) (index : Nat) :
    Set Namespace :=
  {ns | ns ≠ .parity ∧ ∃ i < width / 2, namespaceAt? cells width (axis.cell index i) = some ns}

section WellFormed

variable (hcells : WellFormed square.cells square.width)
include hcells

/-! ### Trees of well-formed cells -/

/-- A leaf of the data quadrant has the namespace that its cell begins with. -/
theorem namespaceAt?_of_leaf {row column : Nat} {leaf : Nmt.Leaf}
    (hdata : square.isData row column = true) (h : square.leaf row column = .ok leaf) :
    namespaceAt? square.cells square.width (row, column) = some leaf.ns := by
  obtain ⟨share, hshare, rfl⟩ := exists_share_of_isData hdata h
  exact (namespaceAt?_eq_some_iff_share hcells.sizes hdata).mpr ⟨share, hshare, rfl⟩

/-- Every cell is a leaf. -/
theorem exists_leaf {row column : Nat} (hrow : row < square.width)
    (hcolumn : column < square.width) : ∃ leaf, square.leaf row column = .ok leaf := by
  cases hdata : square.isData row column with
  | false =>
    refine ⟨⟨.parity, square.cells.getD (square.position row column) []⟩, ?_⟩
    rw [leaf, cell, if_pos ⟨hrow, hcolumn⟩, hdata]
    rfl
  | true =>
    obtain ⟨ns, hns⟩ : ∃ ns, namespaceAt? square.cells square.width (row, column) = some ns := by
      simp only [isData, Bool.and_eq_true, decide_eq_true_eq] at hdata
      exact hcells.starts row hdata.1 column hdata.2
    obtain ⟨share, hshare, -⟩ := (namespaceAt?_eq_some_iff_share hcells.sizes hdata).mp hns
    exact ⟨share.toLeaf, leaf_of_share hshare⟩

/-- **Every line has a tree**: its leaves are in order in the data quadrant, and all others are of
parity. -/
theorem exists_tree (axis : Axis) {index : Nat} (hindex : index < square.width) :
    ∃ tree, square.tree axis index = .ok tree := by
  obtain ⟨leaves, hleaves, hsorted⟩ : ∃ leaves, (List.range square.width).mapM (fun i =>
      square.leaf (axis.cell index i).1 (axis.cell index i).2) = .ok leaves ∧
        leaves.Pairwise fun a b => a.ns ≤ b.ns := by
    refine Checked.exists_mapM_range_pairwise_iff.mpr
      ⟨fun i hi => ?_, fun j _ i hij a b ha hb => ?_⟩
    · cases axis with
      | row => exact exists_leaf hcells hindex hi
      | column => exact exists_leaf hcells hi hindex
    · cases hdata : square.isData (axis.cell index j).1 (axis.cell index j).2 with
      | false => exact (Namespace.le_parity a.ns).trans_eq (ns_eq_parity_of_leaf hdata hb).symm
      | true =>
        -- what comes before a place of the data quadrant is in it
        obtain ⟨hline, hj⟩ := isData_cell_iff.mp hdata
        have hbefore : square.isData (axis.cell index i).1 (axis.cell index i).2 = true :=
          isData_cell_iff.mpr ⟨hline, hij.trans hj⟩
        exact hcells.sorted axis index hline j hj i hij a.ns
          (namespaceAt?_of_leaf hcells hbefore ha) b.ns (namespaceAt?_of_leaf hcells hdata hb)
  exact ⟨⟨leaves, Nmt.ascending_iff.mpr hsorted⟩, tree_eq_ok_iff.mpr hleaves⟩

/-! ### Ranges -/

section Header

variable {app : AppVersion} {header : AvailabilityHeader}
  (hheader : square.header app = .ok header) {axis : Axis} {index : Nat}
include hheader

/-- The leaf at a place of the data quadrant. -/
theorem getElem?_lineLeaves (hindex : index < square.dataWidth) {i : Nat}
    (hi : i < square.dataWidth) {ns : Namespace}
    (hns : namespaceAt? square.cells square.width (axis.cell index i) = some ns) :
    ∃ leaf, (square.lineLeaves axis index)[i]? = some leaf ∧ leaf.ns = ns := by
  have hlength := length_lineLeaves hheader axis (hindex.trans_le square.dataWidth_le)
  have hlt : i < (square.lineLeaves axis index).length :=
    hlength ▸ hi.trans_le square.dataWidth_le
  have hleaf := List.getElem?_eq_getElem hlt
  refine ⟨_, hleaf, Option.some.inj (Eq.trans ?_ hns)⟩
  exact (namespaceAt?_of_leaf hcells (isData_cell_iff.mpr ⟨hindex, hi⟩)
    (leaf_of_lineLeaves hleaf)).symm

/-- The leaves of an early line have the namespaces of its cells in the data quadrant, but for
parity. -/
theorem ownNamespaces_lineLeaves (hindex : index < square.dataWidth) :
    ownNamespaces (square.lineLeaves axis index) =
      lineNamespaces square.cells square.width axis index := by
  refine Set.ext fun ns => and_congr_right fun hns => ⟨?_, ?_⟩
  · rintro ⟨leaf, hmem, rfl⟩
    obtain ⟨i, hi⟩ := List.mem_iff_getElem?.mp hmem
    have hleaf := leaf_of_lineLeaves hi
    have hdata : square.isData (axis.cell index i).1 (axis.cell index i).2 = true :=
      Bool.of_not_eq_false fun hother => hns (ns_eq_parity_of_leaf hother hleaf)
    exact ⟨i, (isData_cell_iff.mp hdata).2, namespaceAt?_of_leaf hcells hdata hleaf⟩
  · rintro ⟨i, hi, hat⟩
    obtain ⟨leaf, hleaf, heq⟩ := getElem?_lineLeaves hcells hheader hindex hi hat
    exact ⟨leaf, List.mem_of_getElem? hleaf, heq⟩

/-- **The range of an early line** begins with the namespace of its first cell. It ends with the
largest one in the data quadrant but for parity, and with parity if there is no other. -/
theorem range_of_early_line (hindex : index < square.dataWidth) :
    namespaceAt? square.cells square.width (axis.cell index 0) =
        some (rootOver (square.lineLeaves axis index)).min ∧
      (IsGreatest (lineNamespaces square.cells square.width axis index)
          (rootOver (square.lineLeaves axis index)).max ∨
        lineNamespaces square.cells square.width axis index = ∅ ∧
          (rootOver (square.lineLeaves axis index)).max = .parity) := by
  have hwidth := hindex.trans_le square.dataWidth_le
  have hsorted : (square.lineLeaves axis index).Pairwise _ := pairwise_lineLeaves hheader hwidth
  rw [← ownNamespaces_lineLeaves hcells hheader hindex]
  cases hleaves : square.lineLeaves axis index with
  | nil => exact absurd hleaves (lineLeaves_ne_nil hheader axis hwidth)
  | cons first rest =>
    rw [hleaves] at hsorted
    refine ⟨?_, Nmt.isGreatest_rootOver_max (List.cons_ne_nil _ _) hsorted⟩
    rw [Nmt.rootOver_min_cons hsorted]
    refine namespaceAt?_of_leaf hcells
      (isData_cell_iff.mpr ⟨hindex, Nat.zero_lt_of_lt hindex⟩) (leaf_of_lineLeaves ?_)
    rw [hleaves, List.getElem?_cons_zero]

end Header

end WellFormed

/-- **The range of a late line** is nothing but parity. -/
theorem range_of_late_line {app : AppVersion} {header : AvailabilityHeader}
    (hheader : square.header app = .ok header) {axis : Axis} {index : Nat}
    (hindex : square.dataWidth ≤ index) (hwidth : index < square.width) :
    (rootOver (square.lineLeaves axis index)).min = .parity ∧
      (rootOver (square.lineLeaves axis index)).max = .parity := by
  exact Nmt.rootOver_eq_parity (lineLeaves_ne_nil hheader axis hwidth)
    fun leaf => ns_eq_parity_of_mem_lineLeaves hindex

/-! ### The header of a square that was made -/

/-- A square that was made can be halved. -/
theorem width_eq_two_mul (hcells : WellFormed square.cells square.width)
    (hleast : minExtendedWidth ≤ square.width) : square.width = 2 * square.dataWidth := by
  obtain ⟨k, hk⟩ := hcells.power
  rw [dataWidth, Nat.mul_div_cancel' ?_]
  rw [hk] at hleast ⊢
  refine dvd_pow_self 2 ?_
  rintro rfl
  exact absurd hleast (by decide)

/-- **A square that was made has a header**, whatever the version. There are as many roots along
both axes as the square is wide. The range of each one begins with the namespace of the first cell
of its line, and ends with the largest one in the data quadrant but for parity. Where there is no
other namespace than parity, it is nothing but parity. -/
theorem header_shows_ranges {cells : Array Bytes} {codec : String} {app : AppVersion}
    (h : make cells codec app = .ok square) (version : AppVersion) :
    ∃ header, square.header version = .ok header ∧ square.width = 2 * square.dataWidth ∧
      ∀ axis, (header.roots axis).length = square.width ∧
        ∀ index root, (header.roots axis)[index]? = some root →
          (index < square.dataWidth →
            namespaceAt? cells square.width (axis.cell index 0) = some root.min ∧
            (IsGreatest (lineNamespaces cells square.width axis index) root.max ∨
              lineNamespaces cells square.width axis index = ∅ ∧ root.max = .parity)) ∧
          (square.dataWidth ≤ index → root.min = .parity ∧ root.max = .parity) := by
  obtain ⟨rfl, -, hleast, hmost, hcells⟩ := make_eq_ok_iff_wellFormed.mp h
  have hbound : app.extendedBound = version.extendedBound := by cases app <;> cases version <;> rfl
  obtain ⟨header, hheader⟩ := header_eq_ok (fun axis _ => exists_tree hcells axis) hleast
    (hbound ▸ hmost)
  refine ⟨header, hheader, width_eq_two_mul hcells hleast, fun axis => ?_⟩
  rw [roots_eq hheader axis]
  refine ⟨by rw [List.length_map, List.length_range], fun index root hroot => ?_⟩
  obtain ⟨line, hline, rfl⟩ := Option.map_eq_some_iff.mp (List.getElem?_map ▸ hroot)
  obtain ⟨hindex, rfl⟩ := List.getElem?_eq_some_iff.mp hline
  rw [List.length_range] at hindex
  rw [List.getElem_range]
  exact ⟨range_of_early_line hcells hheader, fun hlate => range_of_late_line hheader hlate hindex⟩

/-- In the first column of the padded cells, parity follows another namespace within the data
quadrant. The root shows the other namespace alone. -/
theorem header_shows_ranges_padded :
    ∃ square header root, make paddedCells "Leopard" .v1 = .ok square ∧
      square.header .v2 = .ok header ∧ header.rowRoots.length = 4 ∧
      header.columnRoots.length = 4 ∧ header.columnRoots[0]? = some root ∧
      root.min = .ofSuffix [1, 0] ∧ root.max = .ofSuffix [1, 0] := by
  let square : ExtendedSquare := ⟨paddedCells, "Leopard", 4⟩
  have hmade : make paddedCells "Leopard" .v1 = .ok square :=
    make_eq_ok_iff_wellFormed.mpr ⟨rfl, rfl, by decide, by decide, wellFormed_paddedCells⟩
  obtain ⟨header, hheader, -, hroots⟩ := header_shows_ranges hmade .v2
  obtain ⟨hcount, hranges⟩ := hroots .column
  obtain ⟨root, hroot⟩ : ∃ root, (header.roots .column)[0]? = some root :=
    ⟨_, List.getElem?_eq_getElem (by rw [hcount]; decide)⟩
  obtain ⟨hmin, hmax⟩ := (hranges 0 root hroot).1 (by decide)
  have hfirst : namespaceAt? paddedCells 4 (0, 0) = some (.ofSuffix [1, 0]) := by decide +kernel
  have hnext : namespaceAt? paddedCells 4 (1, 0) = some .parity := by decide +kernel
  refine ⟨square, header, root, hmade, hheader, (hroots .row).1, hcount, hroot,
    Option.some.inj (hmin.symm.trans hfirst), ?_⟩
  rcases hmax with ⟨⟨hne, i, hi, hat⟩, -⟩ | ⟨hnone, -⟩
  · obtain rfl | rfl : i = 0 ∨ i = 1 := by
      have hlt : i < 4 / 2 := hi
      omega
    · exact Option.some.inj (hat.symm.trans hfirst)
    · exact absurd (Option.some.inj (hat.symm.trans hnext)) hne
  · have hown : .ofSuffix [1, 0] ∈ lineNamespaces paddedCells 4 .column 0 :=
      ⟨by decide, 0, by decide, hfirst⟩
    exact absurd (hnone ▸ hown) (Set.notMem_empty _)

end Availability.ExtendedSquare
