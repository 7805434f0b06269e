import Availability.Proofs.Blob.RootCount
import Availability.Proofs.Guarded.Commitment
import Mathlib.Order.Bounds.Basic

/-!
# Widths are exact in 64 bits

Two widths are found for some shares: that of the smallest square with room for them, and that of
the subtrees. Both are least powers of two, and both are found by a detour. The one goes by a square
root that is estimated in floating point, and the squares it is compared with do not fit into 64
bits near the top. The other goes by a division that leaves a remainder.

* `Guarded.correct_eq` – **any estimate is as good as another**: it is corrected without an
  overflow, to the same square root;
* `IsLeastWidth` – the least power of two that is wide enough for something;
* `roundUp?_isSome_iff`, `minSquare?_of_lt` – rounding up fails above the largest power of two there
  is, and the widths of squares never come near it;
* `widths_exact` – so the widths are what they are meant to be, for **all numbers of 64 bits**.
-/

namespace Availability

/-! ### Square roots from any estimate -/

/-- The estimate has no part in the result. -/
theorem CeilSqrt.correct_eq_ceilSqrt (n estimate : Nat) : correct n estimate = ceilSqrt n := by
  refine eq_of_forall_ge_iff ?_
  intro m
  rw [correct_le_iff, ceilSqrt_le_iff]

namespace Guarded

/-- Corrects any estimate to the rounded up square root. -/
def correct (n estimate : Nat) : Except Stop Nat := do
  lower n (← raise n estimate)

/-- The width of the smallest square for some shares, from an estimate of their square root. -/
def minSquare? (shares estimate : Nat) : Except Stop (Option Nat) :=
  roundUp? <$> correct shares estimate

/-- **Every estimate is corrected without breaking the run.** -/
theorem correct_eq {n : Nat} (h : n < UInt64.size) (estimate : Nat) :
    correct n estimate = .ok (Availability.ceilSqrt n) := by
  rw [correct, raise_eq h, Checked.ok_bind, lower_eq h, ← CeilSqrt.correct,
    CeilSqrt.correct_eq_ceilSqrt]

theorem minSquare?_eq {shares : Nat} (h : shares < UInt64.size) (estimate : Nat) :
    minSquare? shares estimate = .ok (Availability.minSquare? shares) := by
  rw [minSquare?, correct_eq h]
  rfl

end Guarded

/-! ### Least powers of two -/

/-- The least power of two that is wide enough for something. -/
def IsLeastWidth (isEnough : Nat → Prop) (width : Nat) : Prop :=
  IsLeast {w | (∃ k, w = 2 ^ k) ∧ isEnough w} width

/-- The ceiling logarithm belongs to the least power of two that is not below a number. -/
theorem isLeastWidth_two_pow_clog (n : Nat) : IsLeastWidth (n ≤ ·) (2 ^ Nat.clog 2 n) := by
  refine ⟨⟨⟨_, rfl⟩, Nat.le_pow_clog Nat.one_lt_two n⟩, ?_⟩
  rintro width ⟨⟨k, rfl⟩, hle⟩
  exact Nat.pow_le_pow_right Nat.two_pos ((Nat.clog_le_iff_le_pow Nat.one_lt_two).mpr hle)

/-- That of the square root belongs to the least power of two whose square is not below it. -/
theorem isLeastWidth_minSquare (shares : Nat) :
    IsLeastWidth (fun w => shares ≤ w * w) (2 ^ Nat.clog 2 (ceilSqrt shares)) := by
  refine ⟨⟨⟨_, rfl⟩, le_minSquare shares⟩, ?_⟩
  rintro width ⟨⟨k, rfl⟩, hle⟩
  exact minSquare_le hle

/-- Of two powers of two, the smaller one divides what either of them does not exceed. -/
theorem min_two_pow_dvd (i : Nat) {j m : Nat} (h : 2 ^ j ≤ 2 ^ m) : min (2 ^ i) (2 ^ j) ∣ 2 ^ m := by
  rcases min_choice (2 ^ i) (2 ^ j) with heq | heq
  · rw [heq]
    exact two_pow_dvd_of_le ((min_eq_left_iff.mp heq).trans h)
  · rw [heq]
    exact two_pow_dvd_of_le h

/-- Only what is above the largest power of two of 64 bits can not be rounded up. -/
theorem roundUp?_isSome_iff {n : Nat} : (roundUp? n).isSome = true ↔ n ≤ 2 ^ 63 := by
  constructor
  · intro h
    obtain ⟨width, hwidth⟩ := Option.isSome_iff_exists.mp h
    obtain ⟨-, hlt⟩ := roundUp?_eq_some_iff.mp hwidth
    have hclog : Nat.clog 2 n < 64 := (Nat.pow_lt_pow_iff_right Nat.one_lt_two).mp hlt
    exact (Nat.clog_le_iff_le_pow Nat.one_lt_two).mp (Nat.le_of_lt_succ hclog)
  · intro h
    rw [roundUp?_of_le h]
    rfl

/-- **There is a smallest square** for every number of shares: its width has 32 bits, or is the next
power of two after these. -/
theorem minSquare?_of_lt {shares : Nat} (h : shares < UInt64.size) :
    minSquare? shares = some (2 ^ Nat.clog 2 (ceilSqrt shares)) := by
  have hroot : ceilSqrt shares ≤ 2 ^ 32 := ceilSqrt_le_iff.mpr h.le
  exact roundUp?_of_le (hroot.trans (by norm_num))

/-- There is a width of subtrees exactly when there is one that the threshold asks for. -/
theorem subtreeWidth?_isSome_iff {shares threshold : Nat} (h : shares < UInt64.size) :
    (subtreeWidth? shares threshold).isSome = true ↔
      threshold ≠ 0 ∧ shares ⌈/⌉ threshold ≤ 2 ^ 63 := by
  rcases eq_or_ne threshold 0 with rfl | ht
  · simp [subtreeWidth?]
  · rw [← roundUp?_isSome_iff]
    cases hround : roundUp? (shares ⌈/⌉ threshold) with
    | none => simp [subtreeWidth?, ht, ceilDiv_eq shares ht, hround]
    | some width =>
      rw [subtreeWidth?_eq_min ht hround (minSquare?_of_lt h)]
      exact iff_of_true rfl ⟨ht, rfl⟩

/-! ### All numbers of 64 bits -/

/-- **The widths are exact.** For every number of shares, the width of the smallest square is the
least power of two whose square is not below it, from whatever estimate the square root is found.
For every threshold but zero there is a width of subtrees, unless the shares for each subtree are
more than the largest power of two. It is the smaller one of the width of the square and the least
power of two that is not below these shares, and so divides the width of every square with room for
all shares. No run breaks on the way. -/
theorem widths_exact (shares : UInt64) :
    ∃ square, minSquare? shares.toNat = some square ∧
      (∀ estimate : UInt64, Guarded.minSquare? shares.toNat estimate.toNat = .ok (some square)) ∧
      IsLeastWidth (fun w => shares.toNat ≤ w * w) square ∧
      ∀ threshold : UInt64,
        Guarded.subtreeWidth? shares.toNat threshold.toNat =
          .ok (subtreeWidth? shares.toNat threshold.toNat) ∧
        ((subtreeWidth? shares.toNat threshold.toNat).isSome = true ↔
          threshold ≠ 0 ∧ shares.toNat ⌈/⌉ threshold.toNat ≤ 2 ^ 63) ∧
        (threshold ≠ 0 → shares.toNat ⌈/⌉ threshold.toNat ≤ 2 ^ 63 →
          ∃ least, IsLeastWidth (shares.toNat ⌈/⌉ threshold.toNat ≤ ·) least ∧
            subtreeWidth? shares.toNat threshold.toNat = some (min least square) ∧
            ∀ k, shares.toNat ≤ 2 ^ k * 2 ^ k → min least square ∣ 2 ^ k) := by
  have hshares := shares.toNat_lt
  have hsquare := minSquare?_of_lt hshares
  refine ⟨_, hsquare, ?_, isLeastWidth_minSquare _, ?_⟩
  · intro estimate
    rw [Guarded.minSquare?_eq hshares, hsquare]
  · intro threshold
    have hzero : threshold ≠ 0 ↔ threshold.toNat ≠ 0 := UInt64.toNat_inj.symm.not
    rw [hzero]
    refine ⟨Guarded.subtreeWidth?_eq hshares _, subtreeWidth?_isSome_iff hshares, ?_⟩
    intro ht hleast
    refine ⟨_, isLeastWidth_two_pow_clog _,
      subtreeWidth?_eq_min ht (roundUp?_of_le hleast) hsquare, ?_⟩
    intro k hroom
    exact min_two_pow_dvd _ (minSquare_le hroom)

/-- The largest number of shares there is, and a threshold of two. The square of the width has one
cell more, which is past 64 bits, and half of the shares are just within the largest power of
two. -/
theorem widths_exact_largest :
    ((2 : UInt64) ≠ 0 ∧ (2 ^ 64 - 1) ⌈/⌉ 2 ≤ 2 ^ 63) ∧
      minSquare? (2 ^ 64 - 1) = some (2 ^ 32) ∧ subtreeWidth? (2 ^ 64 - 1) 2 = some (2 ^ 32) := by
  have hhalf : (2 ^ 64 - 1) ⌈/⌉ 2 = 2 ^ 63 := by decide +kernel
  have hshares : (UInt64.ofNat (2 ^ 64 - 1)).toNat = 2 ^ 64 - 1 := by decide
  have hthreshold : (2 : UInt64).toNat = 2 := rfl
  obtain ⟨square, hsquare, -, hexact, hwidths⟩ := widths_exact (.ofNat (2 ^ 64 - 1))
  obtain ⟨-, -, hwidth⟩ := hwidths 2
  rw [hshares] at hsquare hexact hwidth
  rw [hthreshold, hhalf] at hwidth
  obtain ⟨least, hleast, hsubtree, -⟩ := hwidth (by decide) le_rfl
  have hroom : IsLeastWidth (fun w => 2 ^ 64 - 1 ≤ w * w) (2 ^ 32) := by
    refine ⟨⟨⟨32, rfl⟩, by norm_num⟩, ?_⟩
    rintro width ⟨⟨k, rfl⟩, hle⟩
    refine Nat.pow_le_pow_right Nat.two_pos (Nat.le_of_not_lt fun hlt => ?_)
    have hsmall : 2 ^ k ≤ 2 ^ 31 := Nat.pow_le_pow_right Nat.two_pos (Nat.le_of_lt_succ hlt)
    exact absurd (hle.trans (Nat.mul_le_mul hsmall hsmall)) (by norm_num)
  obtain rfl : square = 2 ^ 32 := hexact.unique hroom
  have hlarge : 2 ^ 32 ≤ least := le_trans (by norm_num) hleast.1.2
  refine ⟨⟨by decide, hhalf.le⟩, hsquare, ?_⟩
  rw [hsubtree, min_eq_right hlarge]

end Availability
