import Availability.Proofs.Namespace.Rules
import Availability.Proofs.Nmt.Tree
import Availability.Square

/-!
# The lines of a square

Every row and every column of a square has a namespaced tree, whose leaves are the cells of the
line. Only the cells of the data quadrant have a namespace of their own; all others are of parity.
So a leaf of another namespace tells that its cell is in the data quadrant, and which share is
there.

* `Share.ofRaw_eq_ok_iff` – which bytes are a share;
* `ExtendedSquare.lineLeaves` – the leaves of the tree of a line;
* `ExtendedSquare.share_of_leaf` – a leaf that is not of parity is **a share of the data quadrant**;
* `ExtendedSquare.sharesAt_of_leaves` – and consecutive leaves are consecutive shares of the line;
* `ExtendedSquare.header_eq_ok`, `ExtendedSquare.of_header` – when a square has a header, and what
  is in it;
* `ExtendedSquare.roots_eq` – the roots in the header of a square are those of its lines, in order.
-/

namespace Availability

/-- The roots of the rows or of the columns. -/
def AvailabilityHeader.roots (header : AvailabilityHeader) : Axis → List NamespacedHash
  | .row => header.rowRoots
  | .column => header.columnRoots

/-- **Bytes are a share** exactly if they have its size and begin with a well-formed namespace. -/
theorem Share.ofRaw_eq_ok_iff {bs : Bytes} {share : Share} :
    ofRaw bs = .ok share ↔ share.bytes = bs ∧ share.ns.validate = .ok () := by
  constructor
  · intro h
    rw [ofRaw] at h
    split at h
    case isTrue hlength =>
      obtain ⟨ns, hns, h⟩ := Checked.bind_eq_ok_iff.mp h
      obtain rfl := Except.ok.inj h
      obtain ⟨hbytes, hvalid⟩ := Namespace.ofRaw_eq_ok_iff.mp hns
      obtain rfl : ns = Share.ns ⟨bs, hlength⟩ := Namespace.ext hbytes
      exact ⟨rfl, hvalid⟩
    case isFalse => cases h
  · rintro ⟨rfl, hvalid⟩
    have hns : Namespace.ofRaw (share.bytes.take 29) = .ok share.ns :=
      Namespace.ofRaw_eq_ok_iff.mpr ⟨rfl, hvalid⟩
    rw [ofRaw, dif_pos share.length_bytes, hns]
    rfl

namespace ExtendedSquare

variable {square : ExtendedSquare}

/-- The leaves of the tree of a row or a column, if it has one. -/
def lineLeaves (square : ExtendedSquare) (axis : Axis) (index : Nat) : List Nmt.Leaf :=
  match square.tree axis index with
  | .ok tree => tree.leaves
  | .error _ => []

/-- The strings that are hashed for the roots of all lines. -/
def texts (square : ExtendedSquare) : List Bytes :=
  [Axis.row, Axis.column].flatMap fun axis =>
    (List.range square.width).flatMap fun index => Nmt.texts (square.lineLeaves axis index)

theorem texts_lineLeaves_subset (axis : Axis) {index : Nat} (h : index < square.width) :
    Nmt.texts (square.lineLeaves axis index) ⊆ square.texts := by
  intro text htext
  refine List.mem_flatMap.mpr ⟨axis, by cases axis <;> simp, ?_⟩
  exact List.mem_flatMap.mpr ⟨index, List.mem_range.mpr h, htext⟩

/-! ### Leaves and shares -/

/-- **A leaf that is not of parity is a share of the data quadrant.** -/
theorem share_of_leaf {row column : Nat} {leaf : Nmt.Leaf} (h : square.leaf row column = .ok leaf)
    (hne : leaf.ns ≠ .parity) :
    ∃ share, square.share row column = .ok share ∧ leaf = ⟨share.ns, share.bytes⟩ := by
  obtain ⟨data, hcell, h⟩ := Checked.bind_eq_ok_iff.mp h
  split at h
  case isTrue hdata =>
    obtain ⟨share, hraw, h⟩ := Checked.bind_eq_ok_iff.mp h
    refine ⟨share, ?_, ?_⟩
    · simp only [ExtendedSquare.share, hdata, hcell]
      exact hraw
    · rw [← Except.ok.inj h, (Share.ofRaw_eq_ok_iff.mp hraw).1]
  case isFalse =>
    rw [← Except.ok.inj h] at hne
    exact absurd rfl hne

/-- The tree of a line has the leaves of its cells. -/
theorem tree_eq_ok_iff {axis : Axis} {index : Nat} {tree : Nmt} :
    square.tree axis index = .ok tree ↔
      (List.range square.width).mapM (fun i =>
        square.leaf (axis.cell index i).1 (axis.cell index i).2) = .ok tree.leaves := by
  rw [ExtendedSquare.tree, Nmt.foldlM_push_eq_ok_iff]
  constructor
  · rintro ⟨leaves, hleaves, htree⟩
    obtain rfl : tree.leaves = leaves := htree
    exact hleaves
  · intro h
    exact ⟨tree.leaves, h, rfl⟩

/-- There are as many leaves in a line as the square is wide. -/
theorem length_leaves_of_tree {axis : Axis} {index : Nat} {tree : Nmt}
    (h : square.tree axis index = .ok tree) : tree.leaves.length = square.width := by
  rw [Checked.length_of_mapM_eq_ok (tree_eq_ok_iff.mp h), List.length_range]

theorem lineLeaves_of_tree {axis : Axis} {index : Nat} {tree : Nmt}
    (h : square.tree axis index = .ok tree) : square.lineLeaves axis index = tree.leaves := by
  rw [lineLeaves, h]

/-- The leaves of a line are those of its cells. -/
theorem leaf_of_lineLeaves {axis : Axis} {index i : Nat} {leaf : Nmt.Leaf}
    (h : (square.lineLeaves axis index)[i]? = some leaf) :
    square.leaf (axis.cell index i).1 (axis.cell index i).2 = .ok leaf := by
  rw [lineLeaves] at h
  split at h
  case h_1 tree htree =>
    exact Checked.of_mapM_range_eq_ok (tree_eq_ok_iff.mp htree) h
  case h_2 => simp at h

/-- **Consecutive leaves of a namespace are consecutive shares** of the data quadrant, in the same
order. -/
theorem sharesAt_of_leaves {axis : Axis} {index : Nat} {ns : Namespace} (hne : ns ≠ .parity)
    {before after : List Nmt.Leaf} {shares : List Share}
    (h : square.lineLeaves axis index =
      before ++ shares.map (fun share => ⟨ns, share.bytes⟩) ++ after) :
    square.sharesAt ((List.range' before.length shares.length).map (axis.cell index)) =
      .ok shares := by
  induction shares generalizing before with
  | nil => rfl
  | cons share shares ih =>
    have hleaf : (square.lineLeaves axis index)[before.length]? = some ⟨ns, share.bytes⟩ := by
      rw [h]
      simp
    obtain ⟨found, hfound, heq⟩ := share_of_leaf (leaf_of_lineLeaves hleaf) hne
    obtain rfl : share = found := by
      obtain ⟨bytes, _⟩ := share
      obtain rfl : bytes = found.bytes := (Nmt.Leaf.mk.inj heq).2
      rfl
    have hnext : square.lineLeaves axis index =
        (before ++ [⟨ns, share.bytes⟩]) ++ shares.map (fun share => ⟨ns, share.bytes⟩) ++
          after := by
      simpa using h
    have hrest := ih hnext
    rw [List.length_append, List.length_singleton] at hrest
    rw [List.length_cons, List.range'_succ, List.map_cons]
    exact Checked.mapM_eq_ok_iff.mpr (.cons hfound (Checked.mapM_eq_ok_iff.mp hrest))

/-- Shares at some places are shares of the data quadrant. -/
theorem exists_share_of_sharesAt {places : List (Nat × Nat)} {shares : List Share}
    (h : square.sharesAt places = .ok shares) {share : Share} (hmem : share ∈ shares) :
    ∃ row column, square.share row column = .ok share := by
  obtain ⟨i, hi⟩ := List.mem_iff_getElem?.mp hmem
  obtain ⟨place, -, hplace⟩ := Checked.exists_of_mapM_eq_ok h hi
  exact ⟨place.1, place.2, hplace⟩

/-! ### The header -/

/-- A square whose lines all have trees has a header, when it is neither too small nor too large. -/
theorem header_eq_ok {app : AppVersion}
    (htrees : ∀ axis, ∀ index < square.width, ∃ tree, square.tree axis index = .ok tree)
    (hmin : minExtendedWidth ≤ square.width) (hmax : square.width ≤ app.extendedBound) :
    ∃ header, square.header app = .ok header := by
  have hlines : ∀ index ∈ List.range square.width, ∃ pair, (do
      let row ← square.tree .row index
      let column ← square.tree .column index
      return (row.root, column.root)) = (.ok pair : Except Error _) := by
    intro index hindex
    obtain ⟨row, hrow⟩ := htrees .row index (List.mem_range.mp hindex)
    obtain ⟨column, hcolumn⟩ := htrees .column index (List.mem_range.mp hindex)
    exact ⟨(row.root, column.root), by rw [hrow, hcolumn]; rfl⟩
  obtain ⟨roots, hroots⟩ := Checked.exists_mapM_eq_ok hlines
  have hcount : roots.length = square.width := by
    rw [Checked.length_of_mapM_eq_ok hroots, List.length_range]
  refine ⟨_, Checked.bind_eq_ok_iff.mpr ⟨roots, hroots, Checked.bind_eq_ok_iff.mpr ⟨(), ?_, rfl⟩⟩⟩
  simp only [Checked.mapError_eq_ok_iff, AvailabilityHeader.validate, Checked.throw_bind,
    Checked.ite_throw_eq_ok_iff, Checked.pure_eq_ok_iff, List.length_map, hcount]
  exact ⟨not_not.mpr rfl, not_lt.mpr hmin, not_lt.mpr hmax, trivial⟩

/-- The places of a line can be written in 32 bits. -/
theorem extendedBound_lt (app : AppVersion) : app.extendedBound < UInt32.size := by
  cases app <;> decide

/-- **What is in a header**: the roots of the trees of all lines, at their places. -/
theorem of_header {app : AppVersion} {header : AvailabilityHeader}
    (h : square.header app = .ok header) :
    square.width ≤ app.extendedBound ∧ header.rowRoots.length = square.width ∧
      header.columnRoots.length = square.width ∧
      ∀ index < square.width, ∃ row column, square.tree .row index = .ok row ∧
        square.tree .column index = .ok column ∧ header.rowRoots[index]? = some row.root ∧
        header.columnRoots[index]? = some column.root := by
  obtain ⟨roots, hroots, h⟩ := Checked.bind_eq_ok_iff.mp h
  obtain ⟨_, hvalid, h⟩ := Checked.bind_eq_ok_iff.mp h
  obtain rfl := Except.ok.inj h
  have hcount : roots.length = square.width := by
    rw [Checked.length_of_mapM_eq_ok hroots, List.length_range]
  simp only [Checked.mapError_eq_ok_iff, AvailabilityHeader.validate, Checked.throw_bind,
    Checked.ite_throw_eq_ok_iff, not_lt, List.length_map, hcount] at hvalid
  refine ⟨hvalid.2.2.1, by rw [List.length_map, hcount], by rw [List.length_map, hcount], ?_⟩
  intro index hindex
  obtain ⟨pair, hpair⟩ : ∃ pair, roots[index]? = some pair :=
    ⟨_, List.getElem?_eq_getElem (by omega)⟩
  have hline := Checked.of_mapM_range_eq_ok hroots hpair
  obtain ⟨row, hrow, hline⟩ := Checked.bind_eq_ok_iff.mp hline
  obtain ⟨column, hcolumn, hline⟩ := Checked.bind_eq_ok_iff.mp hline
  obtain rfl := Except.ok.inj hline
  exact ⟨row, column, hrow, hcolumn, by rw [List.getElem?_map, hpair]; rfl,
    by rw [List.getElem?_map, hpair]; rfl⟩

section Header

variable {app : AppVersion} {header : AvailabilityHeader} (h : square.header app = .ok header)
include h

/-- All lines of a square with a header have trees. -/
theorem exists_tree_of_header (axis : Axis) {index : Nat} (hindex : index < square.width) :
    ∃ tree, square.tree axis index = .ok tree ∧ (header.roots axis)[index]? = some tree.root := by
  obtain ⟨-, -, -, hlines⟩ := of_header h
  obtain ⟨row, column, hrow, hcolumn, hrowRoot, hcolumnRoot⟩ := hlines index hindex
  cases axis with
  | row => exact ⟨row, hrow, hrowRoot⟩
  | column => exact ⟨column, hcolumn, hcolumnRoot⟩

/-- All lines of a square with a header are as long as it is wide. -/
theorem length_lineLeaves (axis : Axis) {index : Nat} (hindex : index < square.width) :
    (square.lineLeaves axis index).length = square.width := by
  obtain ⟨tree, htree, -⟩ := exists_tree_of_header h axis hindex
  rw [lineLeaves_of_tree htree, length_leaves_of_tree htree]

theorem lineLeaves_ne_nil (axis : Axis) {index : Nat} (hindex : index < square.width) :
    square.lineLeaves axis index ≠ [] := by
  refine List.ne_nil_of_length_pos ?_
  rw [length_lineLeaves h axis hindex]
  exact Nat.zero_lt_of_lt hindex

/-- The leaves of a line are in the order of their namespaces. -/
theorem pairwise_lineLeaves {axis : Axis} {index : Nat} (hindex : index < square.width) :
    (square.lineLeaves axis index).Pairwise fun a b => a.ns ≤ b.ns := by
  obtain ⟨tree, htree, -⟩ := exists_tree_of_header h axis hindex
  rw [lineLeaves_of_tree htree]
  exact Nmt.ascending_iff.mp tree.ascending_leaves

/-- **The roots along an axis are those of the lines**, in their order. -/
theorem roots_eq (axis : Axis) : header.roots axis =
    (List.range square.width).map fun index => Nmt.rootOver (square.lineLeaves axis index) := by
  obtain ⟨-, hrows, hcolumns, -⟩ := of_header h
  have hcount : (header.roots axis).length = square.width := by
    cases axis
    exacts [hrows, hcolumns]
  refine List.ext_getElem? fun index => ?_
  rcases Nat.lt_or_ge index square.width with hindex | hindex
  · obtain ⟨tree, htree, hroot⟩ := exists_tree_of_header h axis hindex
    rw [hroot, List.getElem?_map, List.getElem?_range hindex, Option.map_some,
      lineLeaves_of_tree htree]
    rfl
  · rw [List.getElem?_eq_none (hcount.trans_le hindex),
      List.getElem?_eq_none (by rwa [List.length_map, List.length_range])]

/-- So any root in the header is that of a line. -/
theorem exists_line {root : NamespacedHash} (hmem : root ∈ header.rowRoots ++ header.columnRoots) :
    ∃ axis, ∃ index < square.width, root = Nmt.rootOver (square.lineLeaves axis index) := by
  obtain ⟨axis, hroot⟩ : ∃ axis, root ∈ header.roots axis := by
    rcases List.mem_append.mp hmem with hrow | hcolumn
    exacts [⟨.row, hrow⟩, ⟨.column, hcolumn⟩]
  rw [roots_eq h axis] at hroot
  obtain ⟨index, hindex, rfl⟩ := List.mem_map.mp hroot
  exact ⟨axis, index, List.mem_range.mp hindex, rfl⟩

end Header

end ExtendedSquare

end Availability
