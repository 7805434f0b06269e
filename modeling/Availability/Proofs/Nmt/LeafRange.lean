import Availability.Nmt.LeafRange
import Availability.Proofs.Checked
import Availability.Proofs.Width

/-!
# Leaf ranges and mountain ranges

The subtrees of a blob are found twice, and by two greedy algorithms that know different things.
Whoever makes the commitment knows only how many shares there are, and takes the widest subtree
that is left (`mountainRange`). Whoever checks it sees the leaf ranges of single rows, and takes the
widest subtree that is **aligned** at the leaf reached (`leafRanges`). This file compares the two.

* `nextWidth_spec` – what one step of the second algorithm chooses;
* `coverRange_map_width` – from a place that is aligned well enough, alignment never gets in the
  way, so that both algorithms choose the same widths;
* `rowRanges` – a run of shares, cut at the **ends of the rows** of a square;
* `leafRanges_rowRanges` – wherever the run starts, the subtrees of its rows are together those of
  the mountain range.

The last statement needs that no subtree reaches over the end of a row. This is what bounding the
subtree width by the smallest square is for (`subtreeWidth?_dvd`).
-/

namespace Availability

/-! ### One step -/

theorem alignment_le (start bound : Nat) : alignment start bound ≤ bound := by
  induction bound with
  | zero => rfl
  | succ e ih =>
    rw [alignment]
    split
    · exact le_rfl
    · exact ih.trans (Nat.le_succ e)

theorem two_pow_alignment_dvd (start bound : Nat) : 2 ^ alignment start bound ∣ start := by
  induction bound with
  | zero => simp [alignment]
  | succ e ih =>
    rw [alignment, Nat.one_shiftLeft]
    split
    case isTrue h => exact Nat.dvd_of_mod_eq_zero h
    case isFalse => exact ih

theorem le_alignment {start bound e : Nat} (hb : e ≤ bound) (hd : 2 ^ e ∣ start) :
    e ≤ alignment start bound := by
  induction bound with
  | zero => exact hb
  | succ b ih =>
    rw [alignment, Nat.one_shiftLeft]
    split
    case isTrue => exact hb
    case isFalse h =>
      refine ih (Nat.le_of_lt_succ (lt_of_le_of_ne hb ?_))
      rintro rfl
      exact h (Nat.mod_eq_zero_of_dvd hd)

/-- **What one step chooses**: the widest power of two that is allowed, that the first leaf is
aligned to, and that does not reach over the end. -/
theorem nextWidth_spec (k : Nat) {start stop : Nat} (h : start < stop) :
    ∃ e ≤ k, nextWidth start stop (2 ^ k) = 2 ^ e ∧ 2 ^ e ∣ start ∧ start + 2 ^ e ≤ stop ∧
      ∀ i ≤ k, 2 ^ i ∣ start → start + 2 ^ i ≤ stop → i ≤ e := by
  have hne : stop - start ≠ 0 := by omega
  set a := alignment start (stop - start).log2 with ha
  have hnext : nextWidth start stop (2 ^ k) = 2 ^ min a k := by
    rw [nextWidth, Nat.one_shiftLeft, ← ha]
    exact ((pow_right_mono₀ (by norm_num)).map_min).symm
  refine ⟨min a k, min_le_right a k, hnext, ?_, ?_, fun i hi hd hs => ?_⟩
  · exact (Nat.pow_dvd_pow 2 (min_le_left a k)).trans (two_pow_alignment_dvd start _)
  · have hlog : 2 ^ min a k ≤ 2 ^ (stop - start).log2 :=
      Nat.pow_le_pow_right (by norm_num) ((min_le_left a k).trans (alignment_le start _))
    have := hlog.trans (Nat.log2_self_le hne)
    omega
  · refine le_min (le_alignment ?_ hd) hi
    exact (Nat.le_log2 hne).mpr (by omega)

/-- One step from a place that is aligned to the widest subtree that fits takes that subtree. -/
theorem nextWidth_eq {k start n : Nat} (hn : n ≠ 0) (hd : 2 ^ min k n.log2 ∣ start) :
    nextWidth start (start + n) (2 ^ k) = 2 ^ min k n.log2 := by
  obtain ⟨e, he, hnext, -, hfit, hmax⟩ := nextWidth_spec k (show start < start + n by omega)
  have hle : min k n.log2 ≤ e :=
    hmax _ (min_le_left k _) hd (by have := two_pow_min_le k hn; omega)
  have hge : e ≤ min k n.log2 := le_min he ((Nat.le_log2 hn).mpr (by omega))
  rw [hnext, le_antisymm hge hle]

/-! ### Covering a range -/

@[simp] theorem coverRange_of_le {largest start stop : Nat} (h : stop ≤ start) :
    coverRange largest start stop = [] := by
  rw [coverRange, dif_neg (by omega)]

theorem coverRange_cons (k : Nat) {start stop : Nat} (h : start < stop) :
    coverRange (2 ^ k) start stop = (start, start + nextWidth start stop (2 ^ k)) ::
      coverRange (2 ^ k) (start + nextWidth start stop (2 ^ k)) stop := by
  rw [coverRange, dif_pos ⟨h, (Nat.two_pow_pos k).ne'⟩]

/-- The subtrees of a range lie within it, and none of them is empty. -/
theorem mem_coverRange {k start stop : Nat} {range : Nat × Nat}
    (h : range ∈ coverRange (2 ^ k) start stop) :
    start ≤ range.1 ∧ range.1 < range.2 ∧ range.2 ≤ stop := by
  induction start using coverRange.induct (2 ^ k) stop with
  | case1 start hlt next ih =>
    obtain ⟨e, -, hnext, -, hfit, -⟩ := nextWidth_spec k hlt.1
    have hpos := Nat.two_pow_pos e
    rw [coverRange_cons k hlt.1, List.mem_cons] at h
    rcases h with rfl | h
    · simp only
      omega
    · obtain ⟨hlow, hmiddle, hhigh⟩ := ih h
      exact ⟨by omega, hmiddle, hhigh⟩
  | case2 start hle =>
    rw [coverRange, dif_neg hle] at h
    simp at h

/-- The subtrees of a range have all of its leaves. -/
theorem sum_coverRange (k start stop : Nat) :
    ((coverRange (2 ^ k) start stop).map fun range => range.2 - range.1).sum = stop - start := by
  induction start using coverRange.induct (2 ^ k) stop with
  | case1 start hlt next ih =>
    obtain ⟨e, -, hnext, -, hfit, -⟩ := nextWidth_spec k hlt.1
    rw [coverRange_cons k hlt.1, List.map_cons, List.sum_cons, ih]
    simp only [next]
    omega
  | case2 start hle =>
    rw [coverRange, dif_neg hle, List.map_nil, List.sum_nil]
    have := Nat.two_pow_pos k
    omega

/-- **Alignment never gets in the way**: from a place that is aligned to the widest subtree that
fits, the subtrees are those of the mountain range. Each of them leaves a remainder that is below
its own width or a place that is still aligned to the largest one. -/
theorem coverRange_map_width {k start n : Nat} (h : n = 0 ∨ 2 ^ min k n.log2 ∣ start) :
    (coverRange (2 ^ k) start (start + n)).map (fun range => range.2 - range.1) =
      mountainRange (2 ^ k) n := by
  induction n using Nat.strong_induction_on generalizing start with
  | _ n ih =>
    rcases Nat.eq_zero_or_pos n with rfl | hn
    · simp
    · have hd := h.resolve_left hn.ne'
      have hle := two_pow_min_le k hn.ne'
      have hpos := Nat.two_pow_pos (min k n.log2)
      have hstop : start + n = start + 2 ^ min k n.log2 + (n - 2 ^ min k n.log2) := by omega
      rw [coverRange_cons k (by omega), nextWidth_eq hn.ne' hd, mountainRange_cons k hn.ne',
        List.map_cons, hstop, ih (n - 2 ^ min k n.log2) (by omega) (Or.inr ?_)]
      · simp
      · -- the place reached is a multiple of the width taken, and so of all smaller ones
        refine (Nat.pow_dvd_pow 2 (min_le_min_left k ?_)).trans (Nat.dvd_add hd (Nat.dvd_refl _))
        rcases Nat.eq_zero_or_pos (n - 2 ^ min k n.log2) with hz | hz
        · simp [hz]
        · exact (Nat.le_log2 hn.ne').mpr ((Nat.log2_self_le hz.ne').trans (Nat.sub_le n _))

/-- There are leaf ranges when the range is not empty and the width is a power of two. -/
theorem leafRanges_eq_ok_iff {start stop largest : Nat} {ranges : List (Nat × Nat)} :
    leafRanges start stop largest = .ok ranges ↔
      start < stop ∧ isPowerOfTwo largest = true ∧ coverRange largest start stop = ranges := by
  rw [leafRanges]
  split
  case isTrue h => simp [Nat.not_lt.mpr h]
  case isFalse h =>
    split
    case isTrue hp =>
      have hpow : isPowerOfTwo largest = false := by simpa using hp
      simp [hpow]
    case isFalse hp =>
      have hpow : isPowerOfTwo largest = true := by simpa using hp
      simp [hpow, Nat.lt_of_not_le h]

theorem leafRanges_eq_ok {k start stop : Nat} (h : start < stop) :
    leafRanges start stop (2 ^ k) = .ok (coverRange (2 ^ k) start stop) :=
  leafRanges_eq_ok_iff.mpr ⟨h, isPowerOfTwo_iff.mpr ⟨k, rfl⟩, rfl⟩

/-! ### Rows -/

/-- The number of the first share of the row after that of the given share. -/
def rowEnd (width start : Nat) : Nat :=
  (start / width + 1) * width

theorem lt_rowEnd {width : Nat} (h : width ≠ 0) (start : Nat) : start < rowEnd width start := by
  rw [rowEnd, Nat.mul_comm]
  exact Nat.lt_mul_div_succ start (Nat.pos_of_ne_zero h)

/-- The shares from `start` up to `stop`, counted row by row through a square, as one range of
leaves in each row that they touch. -/
def rowRanges (width start stop : Nat) : List (Nat × Nat) :=
  if _ : start < stop ∧ width ≠ 0 then
    let next := min stop (rowEnd width start)
    (start % width, start % width + (next - start)) :: rowRanges width next stop
  else []
termination_by stop - start
decreasing_by
  have := lt_rowEnd (show width ≠ 0 by omega) start
  omega

@[simp] theorem rowRanges_of_le {width start stop : Nat} (h : stop ≤ start) :
    rowRanges width start stop = [] := by
  rw [rowRanges, dif_neg (by omega)]

theorem rowRanges_cons {width start stop : Nat} (h : start < stop) (hw : width ≠ 0) :
    rowRanges width start stop =
      (start % width, start % width + (min stop (rowEnd width start) - start)) ::
        rowRanges width (min stop (rowEnd width start)) stop := by
  rw [rowRanges, dif_pos ⟨h, hw⟩]

/-- No range of a row is empty. -/
theorem lt_of_mem_rowRanges {width start stop : Nat} {range : Nat × Nat} (hw : width ≠ 0)
    (h : range ∈ rowRanges width start stop) : range.1 < range.2 := by
  induction start using rowRanges.induct width stop with
  | case1 start hlt next ih =>
    rw [rowRanges_cons hlt.1 hw, List.mem_cons] at h
    rcases h with rfl | h
    · have := lt_rowEnd hw start
      simp only
      omega
    · exact ih h
  | case2 start hle =>
    rw [rowRanges_of_le (by omega)] at h
    simp at h

/-- **The rows of a run have the subtrees of one mountain range**, when the run starts at a multiple
of the subtree width and a row has room for whole subtrees: each row but the last then ends at such
a multiple, and takes only subtrees of the full width. -/
theorem coverRange_rowRanges {k j start : Nat} (stop : Nat) (hkj : 2 ^ k ∣ 2 ^ j)
    (hd : 2 ^ k ∣ start) :
    ((rowRanges (2 ^ j) start stop).flatMap fun range =>
        (coverRange (2 ^ k) range.1 range.2).map fun leaves => leaves.2 - leaves.1) =
      mountainRange (2 ^ k) (stop - start) := by
  have hw : 2 ^ j ≠ 0 := (Nat.two_pow_pos j).ne'
  induction start using rowRanges.induct (2 ^ j) stop with
  | case1 start hlt next ih =>
    have hend := lt_rowEnd hw start
    have hnext : start < next := lt_min hlt.1 hend
    have hrow : 2 ^ k ∣ start % 2 ^ j := (Nat.dvd_mod_iff hkj).mpr hd
    have hhead := coverRange_map_width (k := k) (n := next - start)
      (Or.inr ((Nat.pow_dvd_pow 2 (min_le_left k _)).trans hrow))
    rw [rowRanges_cons hlt.1 hw, List.flatMap_cons, hhead]
    rcases le_total stop (rowEnd (2 ^ j) start) with hs | hs
    · have hstop : next = stop := min_eq_left hs
      rw [hstop, min_eq_left hs, rowRanges_of_le le_rfl, List.flatMap_nil, List.append_nil]
    · -- the row is full, so its shares are whole subtrees of the largest width
      have hrowEnd : next = rowEnd (2 ^ j) start := min_eq_right hs
      have hdn : 2 ^ k ∣ next := by
        rw [hrowEnd, rowEnd]
        exact hkj.trans (Nat.dvd_mul_left _ _)
      have hsum : stop - start = (next - start) + (stop - next) := by omega
      rw [hsum, mountainRange_add _ (Nat.dvd_sub hdn hd), ← ih hdn]
  | case2 start hle =>
    have : stop - start = 0 := by omega
    rw [rowRanges_of_le (by omega), this, mountainRange_zero, List.flatMap_nil]

/-- **Both ways to find the subtrees of a blob agree, wherever the blob is placed.** The shares have
a subtree width, and when they start at a multiple of it in a square with room for them, the
subtrees of the leaf ranges in the single rows are, row by row, those of the mountain range. -/
theorem leafRanges_rowRanges {square shares threshold start : Nat}
    (hpow : isPowerOfTwo square = true) (hsquare : square ≤ 2 ^ 16) (hthreshold : 1 ≤ threshold)
    (hroom : start + shares ≤ square * square) :
    ∃ width, subtreeWidth? shares threshold = some width ∧
      (width ∣ start → ∃ rows,
        ((rowRanges square start (start + shares)).mapM fun range =>
          leafRanges range.1 range.2 width) = .ok rows ∧
        mountainRange? shares width =
          some (rows.flatten.map fun leaves => leaves.2 - leaves.1)) := by
  obtain ⟨j, rfl⟩ := isPowerOfTwo_iff.mp hpow
  have hbound : shares ≤ 2 ^ 63 := by
    have : 2 ^ j * 2 ^ j ≤ 2 ^ 16 * 2 ^ 16 := Nat.mul_le_mul hsquare hsquare
    omega
  obtain ⟨k, hk, -⟩ := exists_subtreeWidth? hbound (show threshold ≠ 0 by omega)
  refine ⟨2 ^ k, hk, fun hd => ?_⟩
  have hkj : 2 ^ k ∣ 2 ^ j := subtreeWidth?_dvd hbound hk (by omega)
  refine ⟨_, Checked.mapM_eq_ok_map fun range hr =>
    leafRanges_eq_ok (lt_of_mem_rowRanges (Nat.two_pow_pos j).ne' hr), ?_⟩
  have h := coverRange_rowRanges (start + shares) hkj hd
  rw [Nat.add_sub_cancel_left] at h
  rw [mountainRange?, if_neg (Nat.two_pow_pos k).ne', ← h, List.map_flatten, List.map_map,
    List.flatMap_def]
  rfl

/-- Nine shares from the seventh cell of a square of width four, in subtrees of two: the rows are
cut after two and after six shares. -/
theorem leafRanges_rowRanges_four :
    (isPowerOfTwo 4 = true ∧ 4 ≤ 2 ^ 16 ∧ 1 ≤ 5 ∧ 6 + 9 ≤ 4 * 4) ∧
      ∃ width, subtreeWidth? 9 5 = some width ∧
        (width ∣ 6 → ∃ rows,
          ((rowRanges 4 6 (6 + 9)).mapM fun range => leafRanges range.1 range.2 width) = .ok rows ∧
          mountainRange? 9 width = some (rows.flatten.map fun leaves => leaves.2 - leaves.1)) :=
  ⟨by decide, leafRanges_rowRanges (by decide) (by decide) (by decide) (by decide)⟩

end Availability
