import Availability.Proofs.Square.Form
import Availability.Proofs.Square.Quadrant
import Availability.Proofs.Width

/-!
# Which cells are a square

A square is made of nothing but a list of cells. Its width has to be found from their number, and
the order of the namespaces is looked at cell by cell, once along the rows and once along the
columns, each time with nothing but the namespace of the cell before. What comes out is said here
without any of this.

* `ExtendedSquare.WellFormed` – the cells of a square of some width;
* `ExtendedSquare.checkSorted_eq_ok_iff` – one line is looked at to its end exactly if its shares
  are **sorted**, by induction on the places that are left;
* `ExtendedSquare.checkData_eq_ok_iff_namespaceAt?` – which is about the namespaces at the front of
  the cells;
* `ExtendedSquare.make_eq_ok_iff_wellFormed` – so a square is made **exactly of well-formed cells**;
* `ExtendedSquare.make_accepts_wellFormed` – there is one for any such cells, if they are neither
  too few nor too many, and it is read back from what is written of it.
-/

namespace Availability

namespace ExtendedSquare

variable {square : ExtendedSquare}

/-! ### Well-formed cells -/

/-- The namespace that the cell at a place of a square of some width begins with, if it is
well-formed. -/
def namespaceAt? (cells : Array Bytes) (width : Nat) (place : Nat × Nat) : Option Namespace :=
  cells[place.1 * width + place.2]?.bind fun cell =>
    (Namespace.ofRaw (cell.take Namespace.size)).toOption

/-- The cells of a square of some width, row by row. -/
structure WellFormed (cells : Array Bytes) (width : Nat) : Prop where
  /-- The width is a power of two. -/
  power : ∃ k, width = 2 ^ k
  /-- There are as many cells as in a square. -/
  count : cells.size = width * width
  /-- Every cell has the size of a share. -/
  sizes : ∀ cell ∈ cells, cell.length = Share.size
  /-- Every cell of the data quadrant begins with a well-formed namespace. -/
  starts : ∀ row < width / 2, ∀ column < width / 2,
    ∃ ns, namespaceAt? cells width (row, column) = some ns
  /-- These namespaces do not decrease along any row or column of the data quadrant. -/
  sorted : ∀ axis : Axis, ∀ index < width / 2, ∀ j < width / 2, ∀ i < j,
    ∀ a ∈ namespaceAt? cells width (axis.cell index i),
      ∀ b ∈ namespaceAt? cells width (axis.cell index j), a ≤ b

/-! ### Looking along a line -/

/-- The places of a line that are in the data quadrant. -/
def dataPlaces (square : ExtendedSquare) (axis : Axis) (index : Nat) : List (Nat × Nat) :=
  (List.range square.dataWidth).map (axis.cell index)

/-- **A line is looked at to its end** exactly if there are shares at all its places, whose
namespaces do not decrease, from the one before the first place on. -/
theorem checkSorted_eq_ok_iff {axis : Axis} {index : Nat} {previous : Option Namespace}
    {positions : List Nat} :
    square.checkSorted axis index previous positions = .ok () ↔
      ∃ shares, square.sharesAt (positions.map (axis.cell index)) = .ok shares ∧
        (previous.toList ++ shares.map Share.ns).IsChain (· ≤ ·) := by
  induction positions generalizing previous with
  | nil =>
    refine iff_of_true rfl ⟨[], rfl, ?_⟩
    cases previous <;> simp
  | cons i positions ih =>
    have hfirst (share : Share) (rest : List Namespace) :
        (previous.toList ++ share.ns :: rest).IsChain (· ≤ ·) ↔
          previous.any (share.ns < ·) = false ∧ (share.ns :: rest).IsChain (· ≤ ·) := by
      cases previous <;> simp
    simp only [checkSorted, Checked.bind_eq_ok_iff, Checked.throw_bind,
      Checked.ite_throw_eq_ok_iff, ih, Bool.not_eq_true]
    constructor
    · rintro ⟨share, hshare, hprevious, shares, hshares, hchain⟩
      refine ⟨share :: shares, ?_, (hfirst share _).mpr ⟨hprevious, hchain⟩⟩
      exact Checked.mapM_eq_ok_iff.mpr (.cons hshare (Checked.mapM_eq_ok_iff.mp hshares))
    · rintro ⟨all, hall, hchain⟩
      obtain ⟨share, shares, hshare, hshares, rfl⟩ :=
        List.forall₂_cons_left_iff.mp (Checked.mapM_eq_ok_iff.mp hall)
      obtain ⟨hprevious, hchain⟩ := (hfirst share _).mp hchain
      exact ⟨share, hshare, hprevious, shares, Checked.mapM_eq_ok_iff.mpr hshares, hchain⟩

/-- **All lines of the data quadrant are looked at**: their shares are sorted, along both axes. -/
theorem checkData_eq_ok_iff :
    square.checkData = .ok () ↔ ∀ axis, ∀ index < square.dataWidth,
      ∃ shares, square.sharesAt (square.dataPlaces axis index) = .ok shares ∧
        shares.Pairwise fun a b => a.ns ≤ b.ns := by
  have hline (axis : Axis) (index : Nat) :
      square.checkSorted axis index none (List.range square.dataWidth) = .ok () ↔
        ∃ shares, square.sharesAt (square.dataPlaces axis index) = .ok shares ∧
          shares.Pairwise fun a b => a.ns ≤ b.ns := by
    rw [checkSorted_eq_ok_iff]
    simp only [Option.toList_none, List.nil_append, List.isChain_iff_pairwise, List.pairwise_map]
    rfl
  simp only [checkData, Checked.forM_eq_ok_iff, List.mem_range, hline]
  constructor
  · intro h axis
    cases axis with
    | row => exact h .row (by simp)
    | column => exact h .column (by simp)
  · exact fun h axis _ => h axis

/-! ### The namespaces of a line -/

theorem namespaceAt?_eq_some_iff {cells : Array Bytes} {width : Nat} {place : Nat × Nat}
    {ns : Namespace} :
    namespaceAt? cells width place = some ns ↔
      ∃ cell, cells[place.1 * width + place.2]? = some cell ∧
        ns.bytes = cell.take Namespace.size ∧ ns.validate = .ok () := by
  simp only [namespaceAt?, Option.bind_eq_some_iff, Checked.toOption_eq_some_iff,
    Namespace.ofRaw_eq_ok_iff]

/-- The namespace at a place of the data quadrant is that of the share there. -/
theorem namespaceAt?_eq_some_iff_share {row column : Nat} {ns : Namespace}
    (hsizes : ∀ cell ∈ square.cells, cell.length = Share.size)
    (hdata : square.isData row column = true) :
    namespaceAt? square.cells square.width (row, column) = some ns ↔
      ∃ share, square.share row column = .ok share ∧ share.ns = ns := by
  have hcell : square.cell row column =
      .ok (square.cells[square.position row column]?.getD []) := by
    have := square.dataWidth_le
    simp only [isData, Bool.and_eq_true, decide_eq_true_eq] at hdata
    rw [cell, if_pos (by omega), Array.getD_eq_getD_getElem?]
  have hshare : square.share row column =
      Share.ofRaw (square.cells[square.position row column]?.getD []) := by
    simp only [ExtendedSquare.share, hdata, hcell]
    rfl
  simp only [namespaceAt?_eq_some_iff, hshare, Share.ofRaw_eq_ok_iff]
  rw [← position]
  cases hfound : square.cells[square.position row column]? with
  | none =>
    -- no share is empty
    refine iff_of_false (by simp) ?_
    rintro ⟨share, ⟨hbytes, -⟩, -⟩
    have hlength := share.length_bytes
    rw [hbytes] at hlength
    exact absurd hlength (by decide)
  | some cell =>
    have hlength := hsizes cell (Array.mem_of_getElem? hfound)
    constructor
    · rintro ⟨_, ⟨⟩, hbytes, hvalid⟩
      obtain rfl : ns = Share.ns ⟨cell, hlength⟩ := Namespace.ext hbytes
      exact ⟨⟨cell, hlength⟩, ⟨rfl, hvalid⟩, rfl⟩
    · rintro ⟨share, ⟨hbytes, hvalid⟩, rfl⟩
      exact ⟨share.bytes, congrArg some hbytes.symm, rfl, hvalid⟩

section Sizes

variable (hsizes : ∀ cell ∈ square.cells, cell.length = Share.size)
include hsizes

/-- A line has shares in order exactly if its cells begin with namespaces in order. -/
theorem exists_sharesAt_pairwise_iff {axis : Axis} {index : Nat}
    (hindex : index < square.dataWidth) :
    (∃ shares, square.sharesAt (square.dataPlaces axis index) = .ok shares ∧
        shares.Pairwise fun a b => a.ns ≤ b.ns) ↔
      (∀ i < square.dataWidth,
        ∃ ns, namespaceAt? square.cells square.width (axis.cell index i) = some ns) ∧
      ∀ j < square.dataWidth, ∀ i < j,
        ∀ a ∈ namespaceAt? square.cells square.width (axis.cell index i),
          ∀ b ∈ namespaceAt? square.cells square.width (axis.cell index j), a ≤ b := by
  have hat {i : Nat} (hi : i < square.dataWidth) {ns : Namespace} :
      namespaceAt? square.cells square.width (axis.cell index i) = some ns ↔
        ∃ share, square.share (axis.cell index i).1 (axis.cell index i).2 = .ok share ∧
          share.ns = ns :=
    namespaceAt?_eq_some_iff_share hsizes (isData_cell_iff.mpr ⟨hindex, hi⟩)
  rw [sharesAt, dataPlaces, List.mapM_map]
  refine Checked.exists_mapM_range_pairwise_iff.trans (and_congr ?_ ?_)
  · refine forall₂_congr fun i hi => ⟨fun ⟨share, h⟩ => ?_, fun ⟨ns, h⟩ => ?_⟩
    · exact ⟨share.ns, (hat hi).mpr ⟨share, h, rfl⟩⟩
    · obtain ⟨share, hshare, -⟩ := (hat hi).mp h
      exact ⟨share, hshare⟩
  · refine forall₂_congr fun j hj => forall₂_congr fun i hij => ⟨fun h a ha b hb => ?_, ?_⟩
    · obtain ⟨first, hfirst, rfl⟩ := (hat (hij.trans hj)).mp ha
      obtain ⟨last, hlast, rfl⟩ := (hat hj).mp hb
      exact h first last hfirst hlast
    · intro h first last hfirst hlast
      exact h first.ns ((hat (hij.trans hj)).mpr ⟨first, hfirst, rfl⟩) last.ns
        ((hat hj).mpr ⟨last, hlast, rfl⟩)

/-- **The lines are in order** exactly if all cells of the data quadrant begin with well-formed
namespaces, which do not decrease along any line. -/
theorem checkData_eq_ok_iff_namespaceAt? :
    square.checkData = .ok () ↔
      (∀ row < square.dataWidth, ∀ column < square.dataWidth,
        ∃ ns, namespaceAt? square.cells square.width (row, column) = some ns) ∧
      ∀ axis : Axis, ∀ index < square.dataWidth, ∀ j < square.dataWidth, ∀ i < j,
        ∀ a ∈ namespaceAt? square.cells square.width (axis.cell index i),
          ∀ b ∈ namespaceAt? square.cells square.width (axis.cell index j), a ≤ b := by
  rw [checkData_eq_ok_iff]
  constructor
  · intro h
    have hline (axis : Axis) (index : Nat) (hindex : index < square.dataWidth) :=
      (exists_sharesAt_pairwise_iff hsizes hindex).mp (h axis index hindex)
    exact ⟨fun row hrow => (hline .row row hrow).1, fun axis index hindex =>
      (hline axis index hindex).2⟩
  · rintro ⟨hstarts, hsorted⟩ axis index hindex
    refine (exists_sharesAt_pairwise_iff hsizes hindex).mpr ⟨fun i hi => ?_, ?_⟩
    · cases axis with
      | row => exact hstarts index hindex i hi
      | column => exact hstarts i hi index hindex
    · exact hsorted axis index hindex

end Sizes

/-! ### Making a square -/

/-- **A square is made** exactly if its cells pass all checks: it has these cells, and a width whose
square is their number. -/
theorem make_eq_ok_iff {cells : Array Bytes} {codec : String} {app : AppVersion} :
    make cells codec app = .ok square ↔
      square.cells = cells ∧ square.codec = codec ∧ cells.size = square.width * square.width ∧
        minExtendedWidth ≤ square.width ∧ square.width ≤ app.extendedBound ∧
        isPowerOfTwo square.width = true ∧ (∀ cell ∈ cells, cell.length = Share.size) ∧
        square.checkData = .ok () := by
  simp only [make, Checked.throw_bind, Checked.ite_throw_eq_ok_iff]
  constructor
  · rintro ⟨hleast, hmost, hcount, hpower, -, h⟩
    split at h
    case h_1 => cases h
    case h_2 hfound =>
      obtain ⟨_, hdata, h⟩ := Checked.bind_eq_ok_iff.mp h
      obtain rfl := Except.ok.inj h
      rw [← not_not.mp hcount] at hleast hmost
      refine ⟨rfl, rfl, (not_not.mp hcount).symm, ?_, ?_, by simpa using hpower, ?_, hdata⟩
      · exact Nat.mul_self_le_mul_self_iff.mp (not_lt.mp hleast)
      · exact Nat.mul_self_le_mul_self_iff.mp (not_lt.mp hmost)
      · have hnone := Array.find?_eq_none.mp (Option.eq_none_iff_forall_ne_some.mpr hfound)
        exact fun cell hcell => by simpa using hnone cell hcell
  · rintro ⟨rfl, rfl, hcount, hleast, hmost, hpower, hsizes, hdata⟩
    have hbound : app.extendedBound < UInt16.size := by cases app <;> decide
    have hnone : (square.cells.find? fun cell => cell.length ≠ Share.size) = none :=
      Array.find?_eq_none.mpr fun cell hcell => by simpa using hsizes cell hcell
    simp only [hcount, ceilSqrt_mul_self_succ, Nat.add_sub_cancel, hnone, hpower]
    refine ⟨not_lt.mpr (Nat.mul_self_le_mul_self hleast),
      not_lt.mpr (Nat.mul_self_le_mul_self hmost), not_not.mpr rfl, Bool.false_ne_true,
      not_le.mpr (hmost.trans_lt hbound), ?_⟩
    exact Checked.bind_eq_ok_iff.mpr ⟨(), hdata, rfl⟩

/-- **A square is made exactly of well-formed cells**, if it is neither too small nor too large. -/
theorem make_eq_ok_iff_wellFormed {cells : Array Bytes} {codec : String} {app : AppVersion} :
    make cells codec app = .ok square ↔
      square.cells = cells ∧ square.codec = codec ∧ minExtendedWidth ≤ square.width ∧
        square.width ≤ app.extendedBound ∧ WellFormed cells square.width := by
  rw [make_eq_ok_iff]
  constructor
  · rintro ⟨rfl, rfl, hcount, hleast, hmost, hpower, hsizes, hdata⟩
    obtain ⟨hstarts, hsorted⟩ := (checkData_eq_ok_iff_namespaceAt? hsizes).mp hdata
    exact ⟨rfl, rfl, hleast, hmost, isPowerOfTwo_iff.mp hpower, hcount, hsizes, hstarts, hsorted⟩
  · rintro ⟨rfl, rfl, hleast, hmost, hpower, hcount, hsizes, hstarts, hsorted⟩
    exact ⟨rfl, rfl, hcount, hleast, hmost, isPowerOfTwo_iff.mpr hpower, hsizes,
      (checkData_eq_ok_iff_namespaceAt? hsizes).mpr ⟨hstarts, hsorted⟩⟩

/-- Cells that are well-formed for some width are so for no other one. -/
theorem WellFormed.width_eq {cells : Array Bytes} {v w : Nat} (hv : WellFormed cells v)
    (hw : WellFormed cells w) : v = w :=
  Nat.mul_self_inj.mp (hv.count.symm.trans hw.count)

/-- **A square is accepted exactly if its cells are well-formed** for a width that is neither too
small nor too large. It has this width and the given cells, and what is written of it is read back
as the same square. -/
theorem make_accepts_wellFormed (cells : Array Bytes) (codec : String) (app : AppVersion) :
    ((∃ square, make cells codec app = .ok square) ↔
      ∃ width, minExtendedWidth ≤ width ∧ width ≤ app.extendedBound ∧ WellFormed cells width) ∧
    ∀ square, make cells codec app = .ok square →
      square.cells = cells ∧ square.codec = codec ∧
      (∀ width, WellFormed cells width ↔ width = square.width) ∧
      decoder square.toJson = .ok square ∧
      Decoder.ofText decoder square.toJson.render = .ok square := by
  constructor
  · constructor
    · rintro ⟨square, h⟩
      obtain ⟨-, -, hleast, hmost, hcells⟩ := make_eq_ok_iff_wellFormed.mp h
      exact ⟨square.width, hleast, hmost, hcells⟩
    · rintro ⟨width, hleast, hmost, hcells⟩
      exact ⟨⟨cells, codec, width⟩,
        make_eq_ok_iff_wellFormed.mpr ⟨rfl, rfl, hleast, hmost, hcells⟩⟩
  · intro square h
    obtain ⟨rfl, rfl, hleast, hmost, hcells⟩ := make_eq_ok_iff_wellFormed.mp h
    -- no version allows wider squares than another, so the square can be made anew
    have hbound : app.extendedBound = AppVersion.latest.extendedBound := by cases app <;> rfl
    have hanew : make square.cells square.codec .latest = .ok square :=
      make_eq_ok_iff_wellFormed.mpr ⟨rfl, rfl, hleast, hbound ▸ hmost, hcells⟩
    refine ⟨rfl, rfl, fun width => ⟨fun hwidth => hwidth.width_eq hcells, ?_⟩,
      decoder_toJson hanew, ofText_render hanew⟩
    rintro rfl
    exact hcells

/-- The cells of a square of width four: shares of the given namespaces in the data quadrant, and
nothing but zeros elsewhere. -/
def fourCells (upperLeft upperRight lowerLeft lowerRight : Namespace) : Array Bytes :=
  let share (ns : Namespace) : Bytes := ns.bytes ++ List.replicate 483 0
  let zeros : Bytes := List.replicate Share.size 0
  #[share upperLeft, share upperRight, zeros, zeros,
    share lowerLeft, share lowerRight, zeros, zeros,
    zeros, zeros, zeros, zeros,
    zeros, zeros, zeros, zeros]

theorem sizes_fourCells {a b c d : Namespace} :
    ∀ cell ∈ fourCells a b c d, cell.length = Share.size := by
  have hshare (ns : Namespace) :
      (ns.bytes ++ List.replicate 483 (0 : UInt8)).length = Share.size := by
    rw [List.length_append, ns.length_bytes, List.length_replicate]
    rfl
  have hzeros : (List.replicate Share.size (0 : UInt8)).length = Share.size :=
    List.length_replicate
  simp only [fourCells, List.mem_toArray, List.forall_mem_cons, hshare, hzeros, true_and]
  exact fun _ h => absurd h (List.not_mem_nil)

/-- Cells whose lower row is of parity although it is in the data quadrant. -/
def paddedCells : Array Bytes :=
  fourCells (.ofSuffix [1, 0]) (.ofSuffix [2, 0]) .parity .parity

theorem wellFormed_paddedCells : WellFormed paddedCells 4 where
  power := ⟨2, rfl⟩
  count := rfl
  sizes := sizes_fourCells
  starts := by
    have hsome : ∀ row < 2, ∀ column < 2, (namespaceAt? paddedCells 4 (row, column)).isSome := by
      decide +kernel
    exact fun row hrow column hcolumn => Option.isSome_iff_exists.mp (hsome row hrow column hcolumn)
  sorted axis := by cases axis <;> decide +kernel

/-- The padded cells are accepted, but not with the first two shares exchanged: then the first row
is not sorted any more. -/
theorem make_accepts_wellFormed_padded :
    (∃ square, make paddedCells "Leopard" .v1 = .ok square ∧
      square.cells = paddedCells ∧ square.codec = "Leopard" ∧
      (∀ width, WellFormed paddedCells width ↔ width = square.width) ∧
      decoder square.toJson = .ok square ∧
      Decoder.ofText decoder square.toJson.render = .ok square) ∧
    ¬∃ square, make (fourCells (.ofSuffix [2, 0]) (.ofSuffix [1, 0]) .parity .parity)
      "Leopard" .v1 = .ok square := by
  constructor
  · obtain ⟨hiff, hknown⟩ := make_accepts_wellFormed paddedCells "Leopard" .v1
    obtain ⟨square, h⟩ := hiff.mpr ⟨4, by decide, by decide, wellFormed_paddedCells⟩
    exact ⟨square, h, hknown square h⟩
  · rw [(make_accepts_wellFormed _ _ _).1]
    rintro ⟨width, -, -, h⟩
    obtain rfl : 4 = width := Nat.mul_self_inj.mp h.count
    have hfirst : namespaceAt? (fourCells (.ofSuffix [2, 0]) (.ofSuffix [1, 0]) .parity .parity) 4
        (0, 0) = some (.ofSuffix [2, 0]) := by decide +kernel
    have hnext : namespaceAt? (fourCells (.ofSuffix [2, 0]) (.ofSuffix [1, 0]) .parity .parity) 4
        (0, 1) = some (.ofSuffix [1, 0]) := by decide +kernel
    exact absurd (h.sorted .row 0 (by decide) 1 (by decide) 0 (by decide) _ hfirst _ hnext)
      (by decide)

end ExtendedSquare

end Availability
