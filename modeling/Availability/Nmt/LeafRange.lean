import Availability.Error
import Availability.Width

/-!
# Leaf ranges of subtrees

A run of leaves is covered by subtrees whose widths are powers of two, each starting at a multiple
of its width.

* `leafRanges` – the ranges of the subtrees, **each as wide as it can be**.
-/

namespace Availability

/-- The largest exponent, up to a bound, whose power of two divides `start`. -/
def alignment (start : Nat) : (bound : Nat) → Nat
  | 0 => 0
  | e + 1 => if start % (1 <<< (e + 1)) = 0 then e + 1 else alignment start e

/-- The width of the widest aligned subtree that begins at `start`, does not reach over `stop` and
is not wider than `largest`. -/
def nextWidth (start stop largest : Nat) : Nat :=
  min (1 <<< alignment start (stop - start).log2) largest

/-- Covers `[start, stop)` by subtrees, from left to right. -/
def coverRange (largest start stop : Nat) : List (Nat × Nat) :=
  if _ : start < stop ∧ largest ≠ 0 then
    let next := start + nextWidth start stop largest
    (start, next) :: coverRange largest next stop
  else []
termination_by stop - start
decreasing_by
  have : 0 < 1 <<< alignment start (stop - start).log2 := by
    rw [Nat.one_shiftLeft]; exact Nat.two_pow_pos _
  simp only [nextWidth]
  omega

/-- The ranges of the subtrees that cover the leaves from `start` up to `stop`. -/
def leafRanges (start stop largest : Nat) : Except Refutation (List (Nat × Nat)) :=
  if stop ≤ start then .error (.emptyRange start stop)
  else if !isPowerOfTwo largest then .error (.widthNotPowerOfTwo largest)
  else .ok (coverRange largest start stop)

end Availability
