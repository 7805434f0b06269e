import Availability.Width
import Mathlib.Algebra.Order.Ring.Nat
import Mathlib.Data.Nat.Log
import Mathlib.Tactic.Linarith
import Mathlib.Tactic.Ring

/-!
# The widths in closed form

What the functions of `Availability.Width` compute, said without the way in which they do it, and
from whatever estimate the square root starts:

* `ceilSqrt_le_iff` – the rounded up square root is the **least** number whose square is not below
  the given one;
* `roundUp?_eq_some_iff` – rounding up to a power of two is the ceiling logarithm;
* `exists_subtreeWidth?`, `subtreeWidth?_dvd` – there is a subtree width for every threshold but
  zero, and it **divides** the width of every square that has room for the shares;
* `mountainRange_cons`, `mountainRange_add` – a mountain range begins with the widest subtree that
  fits, and whole subtrees of the largest width can be taken off its front.
-/

namespace Availability

/-! ### Powers of two -/

theorem isPowerOfTwo_iff {n : Nat} : isPowerOfTwo n = true ↔ ∃ k, n = 2 ^ k := by
  simp only [isPowerOfTwo, Nat.one_shiftLeft, Bool.and_eq_true, decide_eq_true_eq]
  constructor
  · rintro ⟨-, h⟩
    exact ⟨n.log2, h.symm⟩
  · rintro ⟨k, rfl⟩
    exact ⟨(Nat.two_pow_pos k).ne', by rw [Nat.log2_two_pow]⟩

/-- The logarithm of a number between two neighbouring powers of two. -/
theorem log2_eq_of_bounds {n k : Nat} (h₁ : 2 ^ k ≤ n) (h₂ : n < 2 ^ (k + 1)) : n.log2 = k :=
  (Nat.log2_eq_iff (by have := Nat.two_pow_pos k; omega)).mpr ⟨h₁, h₂⟩

/-- Of two powers of two, the smaller one divides the larger. -/
theorem two_pow_dvd_of_le {i j : Nat} (h : 2 ^ i ≤ 2 ^ j) : 2 ^ i ∣ 2 ^ j :=
  Nat.pow_dvd_pow 2 ((Nat.pow_le_pow_iff_right (by norm_num)).mp h)

/-- The ceiling logarithm of a number above one, through the logarithm of the number below it. -/
theorem clog_eq_log2_succ {n : Nat} (h : 1 < n) : Nat.clog 2 n = (n - 1).log2 + 1 := by
  have hlow : 2 ^ (n - 1).log2 ≤ n - 1 := Nat.log2_self_le (by omega)
  have hhigh : n - 1 < 2 ^ ((n - 1).log2 + 1) := Nat.lt_log2_self
  refine le_antisymm ((Nat.clog_le_iff_le_pow (by norm_num)).mpr (by omega)) ?_
  exact (Nat.lt_clog_iff_pow_lt (by norm_num)).mpr (by omega)

/-- **Rounding up is the ceiling logarithm**, and fails when the result has more than 64 bits. -/
theorem roundUp?_eq_some_iff {n width : Nat} :
    roundUp? n = some width ↔ width = 2 ^ Nat.clog 2 n ∧ 2 ^ Nat.clog 2 n < UInt64.size := by
  have hp : (if n ≤ 1 then 1 else 1 <<< ((n - 1).log2 + 1)) = 2 ^ Nat.clog 2 n := by
    split
    case isTrue h1 => rw [Nat.clog_of_right_le_one h1, pow_zero]
    case isFalse h1 => rw [Nat.one_shiftLeft, clog_eq_log2_succ (by omega)]
  simp only [roundUp?, hp]
  split
  case isTrue h => simp [h, eq_comm]
  case isFalse h => simp [h]

/-- There is a power of two to round up to, as long as it has at most 64 bits. -/
theorem roundUp?_of_le {n : Nat} (h : n ≤ 2 ^ 63) : roundUp? n = some (2 ^ Nat.clog 2 n) := by
  refine roundUp?_eq_some_iff.mpr ⟨rfl, ?_⟩
  have hle : Nat.clog 2 n ≤ 63 := (Nat.clog_le_iff_le_pow (by norm_num)).mpr h
  calc 2 ^ Nat.clog 2 n ≤ 2 ^ 63 := Nat.pow_le_pow_right (by norm_num) hle
    _ < UInt64.size := by decide

/-! ### Square roots -/

namespace CeilSqrt

theorem le_mul_self_raise (n estimate : Nat) : n ≤ raise n estimate * raise n estimate := by
  induction estimate using raise.induct n with
  | case1 e h ih => rwa [raise, if_pos h]
  | case2 e h =>
    rw [raise, if_neg h]
    exact Nat.le_of_not_lt h

theorem le_mul_self_lower {n estimate : Nat} (h : n ≤ estimate * estimate) :
    n ≤ lower n estimate * lower n estimate := by
  induction estimate with
  | zero => exact h
  | succ r ih =>
    rw [lower]
    split
    case isTrue hr => exact ih hr
    case isFalse => exact h

/-- Counting down stops above every number whose square is too small. -/
theorem lower_le {n estimate m : Nat} (h : n ≤ m * m) : lower n estimate ≤ m := by
  induction estimate with
  | zero => exact Nat.zero_le m
  | succ r ih =>
    rw [lower]
    split
    case isTrue => exact ih
    case isFalse hr =>
      by_contra hm
      exact hr (h.trans (Nat.mul_self_le_mul_self (by omega)))

/-- **The estimate does not matter**: it is corrected to the least number whose square is not below
`n`. -/
theorem correct_le_iff {n estimate m : Nat} : correct n estimate ≤ m ↔ n ≤ m * m := by
  constructor
  · intro h
    calc n ≤ correct n estimate * correct n estimate :=
          le_mul_self_lower (le_mul_self_raise n estimate)
      _ ≤ m * m := Nat.mul_self_le_mul_self h
  · exact lower_le

end CeilSqrt

/-- **The rounded up square root** is not above `m` exactly when the square of `m` is large
enough. -/
theorem ceilSqrt_le_iff {n m : Nat} : ceilSqrt n ≤ m ↔ n ≤ m * m :=
  CeilSqrt.correct_le_iff

/-- The square root of a square is exact. -/
theorem ceilSqrt_mul_self (m : Nat) : ceilSqrt (m * m) = m :=
  le_antisymm (ceilSqrt_le_iff.mpr le_rfl)
    (Nat.mul_self_le_mul_self_iff.mp (ceilSqrt_le_iff.mp le_rfl))

/-- The square root of what comes after a square is rounded up to the next number. -/
theorem ceilSqrt_mul_self_succ (m : Nat) : ceilSqrt (m * m + 1) = m + 1 := by
  refine le_antisymm (ceilSqrt_le_iff.mpr (by nlinarith)) (Nat.lt_of_not_le fun h => ?_)
  have := ceilSqrt_le_iff.mp h
  omega

theorem ceilSqrt_le_self (n : Nat) : ceilSqrt n ≤ n :=
  ceilSqrt_le_iff.mpr (Nat.le_mul_self n)

/-- The smallest square for some shares. -/
theorem minSquare?_of_le {shares : Nat} (h : shares ≤ 2 ^ 63) :
    minSquare? shares = some (2 ^ Nat.clog 2 (ceilSqrt shares)) :=
  roundUp?_of_le ((ceilSqrt_le_self shares).trans h)

/-- The smallest square has room for the shares. -/
theorem le_minSquare (shares : Nat) :
    shares ≤ 2 ^ Nat.clog 2 (ceilSqrt shares) * 2 ^ Nat.clog 2 (ceilSqrt shares) :=
  ceilSqrt_le_iff.mp (Nat.le_pow_clog (by norm_num) _)

/-- No square that has room for the shares is smaller than the smallest one. -/
theorem minSquare_le {shares j : Nat} (h : shares ≤ 2 ^ j * 2 ^ j) :
    2 ^ Nat.clog 2 (ceilSqrt shares) ≤ 2 ^ j :=
  Nat.pow_le_pow_right (by norm_num)
    ((Nat.clog_le_iff_le_pow (by norm_num)).mpr (ceilSqrt_le_iff.mpr h))

/-! ### Widths of subtrees -/

/-- The number of shares for each of `threshold` subtrees, rounded up, is not above all of them. -/
theorem leastWidth_le (shares threshold : Nat) :
    (if shares % threshold = 0 then shares / threshold else shares / threshold + 1) ≤ shares := by
  split
  case isTrue => exact Nat.div_le_self shares threshold
  case isFalse h =>
    have hmod := Nat.div_add_mod shares threshold
    rcases Nat.eq_zero_or_pos threshold with rfl | hpos
    · simp only [Nat.mod_zero] at h
      simp only [Nat.div_zero]
      omega
    · have := Nat.le_mul_of_pos_left (shares / threshold) hpos
      omega

/-- **Every threshold but zero has a subtree width**, a power of two that is not wider than the
smallest square for the shares. -/
theorem exists_subtreeWidth? {shares threshold : Nat} (hs : shares ≤ 2 ^ 63) (ht : threshold ≠ 0) :
    ∃ k, subtreeWidth? shares threshold = some (2 ^ k) ∧
      2 ^ k ≤ 2 ^ Nat.clog 2 (ceilSqrt shares) := by
  have hleast := roundUp?_of_le ((leastWidth_le shares threshold).trans hs)
  set i := Nat.clog 2
    (if shares % threshold = 0 then shares / threshold else shares / threshold + 1) with hi
  set j := Nat.clog 2 (ceilSqrt shares) with hj
  have hw : subtreeWidth? shares threshold = some (min (2 ^ i) (2 ^ j)) := by
    simp [subtreeWidth?, ht, hleast, minSquare?_of_le hs, ← hj]
  rcases le_total i j with hij | hij
  · have h := Nat.pow_le_pow_right (show 0 < 2 by norm_num) hij
    exact ⟨i, by rw [hw, min_eq_left h], h⟩
  · have h := Nat.pow_le_pow_right (show 0 < 2 by norm_num) hij
    exact ⟨j, by rw [hw, min_eq_right h], le_rfl⟩

/-- A subtree width divides the width of every square with room for the shares, so that no subtree
reaches over the end of a row. -/
theorem subtreeWidth?_dvd {shares threshold width j : Nat} (hs : shares ≤ 2 ^ 63)
    (hw : subtreeWidth? shares threshold = some width) (hj : shares ≤ 2 ^ j * 2 ^ j) :
    width ∣ 2 ^ j := by
  have ht : threshold ≠ 0 := by
    rintro rfl
    simp [subtreeWidth?] at hw
  obtain ⟨k, hk, hle⟩ := exists_subtreeWidth? hs ht
  obtain rfl : width = 2 ^ k := Option.some.inj (hw.symm.trans hk)
  exact two_pow_dvd_of_le (hle.trans (minSquare_le hj))

/-! ### Mountain ranges -/

@[simp] theorem mountainRange_zero (largest : Nat) : mountainRange largest 0 = [] := by
  rw [mountainRange]
  simp

/-- The widest subtree that is allowed and fits. -/
theorem widest_eq_min (k : Nat) {n : Nat} (hn : n ≠ 0) :
    (if 2 ^ k ≤ n then 2 ^ k else 1 <<< n.log2) = 2 ^ min k n.log2 := by
  rw [Nat.one_shiftLeft]
  split
  case isTrue h => rw [min_eq_left ((Nat.le_log2 hn).mpr h)]
  case isFalse h => rw [min_eq_right (le_of_not_ge fun hk => h ((Nat.le_log2 hn).mp hk))]

/-- The widest subtree that fits is not wider than what it fits into. -/
theorem two_pow_min_le (k : Nat) {n : Nat} (hn : n ≠ 0) : 2 ^ min k n.log2 ≤ n :=
  (Nat.pow_le_pow_right (by norm_num) (min_le_right k n.log2)).trans (Nat.log2_self_le hn)

/-- **A mountain range begins with the widest subtree** that is allowed and fits. -/
theorem mountainRange_cons (k : Nat) {n : Nat} (hn : n ≠ 0) :
    mountainRange (2 ^ k) n =
      2 ^ min k n.log2 :: mountainRange (2 ^ k) (n - 2 ^ min k n.log2) := by
  rw [mountainRange, dif_neg (by simp [hn]), widest_eq_min k hn]

/-- **Whole subtrees of the largest width come off the front** of a mountain range. -/
theorem mountainRange_add {k a : Nat} (b : Nat) (ha : 2 ^ k ∣ a) :
    mountainRange (2 ^ k) (a + b) = mountainRange (2 ^ k) a ++ mountainRange (2 ^ k) b := by
  obtain ⟨m, rfl⟩ := ha
  induction m with
  | zero => simp
  | succ m ih =>
    have hpos := Nat.two_pow_pos k
    have hmin {c : Nat} : min k (2 ^ k * (m + 1) + c).log2 = k := by
      refine min_eq_left ((Nat.le_log2 (by positivity)).mpr ?_)
      nlinarith
    have hsub (c : Nat) : 2 ^ k * (m + 1) + c - 2 ^ k = 2 ^ k * m + c := by
      rw [Nat.mul_succ]
      omega
    rw [mountainRange_cons k (by positivity), mountainRange_cons k (n := 2 ^ k * (m + 1))
      (by positivity), hmin, hsub, ih]
    have h0 := hmin (c := 0)
    have h1 := hsub 0
    rw [Nat.add_zero] at h0 h1
    rw [h0, h1, Nat.add_zero, List.cons_append]

/-- The subtrees of a mountain range hold all leaves. -/
theorem sum_mountainRange (k n : Nat) : (mountainRange (2 ^ k) n).sum = n := by
  induction n using Nat.strong_induction_on with
  | _ n ih =>
    rcases Nat.eq_zero_or_pos n with rfl | hn
    · simp
    · have hle := two_pow_min_le k hn.ne'
      have hpos := Nat.two_pow_pos (min k n.log2)
      rw [mountainRange_cons k hn.ne', List.sum_cons, ih _ (by omega)]
      omega

/-- No subtree of a mountain range is empty. -/
theorem pos_of_mem_mountainRange {k n width : Nat} (h : width ∈ mountainRange (2 ^ k) n) :
    0 < width := by
  induction n using Nat.strong_induction_on with
  | _ n ih =>
    rcases Nat.eq_zero_or_pos n with rfl | hn
    · simp at h
    · have hpos := Nat.two_pow_pos (min k n.log2)
      rw [mountainRange_cons k hn.ne', List.mem_cons] at h
      rcases h with rfl | h
      · exact hpos
      · exact ih _ (by omega) h

end Availability
