/-!
# Widths of squares and of subtrees

The shares of a blob are committed to by subtrees whose widths are powers of two. How wide they
may be depends on the number of shares only, so that a blob has one commitment wherever it is
placed. All numbers are unsigned 64-bit numbers: what does not fit is `none`.

* `roundUp?`, `roundDown?` – the powers of two **next to** a number;
* `ceilSqrt` – the rounded up square root;
* `minSquare?` – the least width of a square of a power of two for some shares;
* `subtreeWidth?` – the largest width of a subtree for some shares;
* `mountainRange?` – the widths of the subtrees of some shares, in order.
-/

namespace Availability

/-- Whether the number is a power of two. -/
def isPowerOfTwo (n : Nat) : Bool :=
  n ≠ 0 && 1 <<< n.log2 = n

/-- The least power of two that is not below a number. -/
def roundUp? (n : Nat) : Option Nat :=
  let p := if n ≤ 1 then 1 else 1 <<< ((n - 1).log2 + 1)
  if p < UInt64.size then some p else none

/-- The largest power of two that is not above a number. -/
def roundDown? (n : Nat) : Option Nat :=
  if n = 0 then none else some (1 <<< n.log2)

namespace CeilSqrt

/-- Counts up from an estimate until its square is not below `n`. -/
def raise (n estimate : Nat) : Nat :=
  if estimate * estimate < n then raise n (estimate + 1) else estimate
termination_by n - estimate
decreasing_by
  have : estimate ≤ estimate * estimate := Nat.le_mul_self estimate
  omega

/-- Counts down from an estimate while the square of the number below it is not below `n`. -/
def lower (n : Nat) : (estimate : Nat) → Nat
  | 0 => 0
  | r + 1 => if n ≤ r * r then lower n r else r + 1

/-- Corrects any estimate to the rounded up square root. -/
def correct (n estimate : Nat) : Nat :=
  lower n (raise n estimate)

end CeilSqrt

/-- The least number whose square is not below `n`. The root of the nearest double is close enough
to start from. -/
def ceilSqrt (n : Nat) : Nat :=
  CeilSqrt.correct n (Float.sqrt (Float.ofNat n)).toUInt64.toNat

/-- The width of the smallest square with a power of two as its width that has room for the given
number of shares. -/
def minSquare? (shares : Nat) : Option Nat :=
  roundUp? (ceilSqrt shares)

/-- The largest width of a subtree for the given number of shares: wide enough that about
`threshold` subtrees suffice, but not wider than the smallest square for the shares. -/
def subtreeWidth? (shares threshold : Nat) : Option Nat := do
  guard (threshold ≠ 0)
  let least := if shares % threshold = 0 then shares / threshold else shares / threshold + 1
  let width ← roundUp? least
  let square ← minSquare? shares
  return min width square

/-- The widths of subtrees that hold `total` leaves: the largest allowed width as often as it fits,
then powers of two for the rest. -/
def mountainRange (largest total : Nat) : List Nat :=
  if _ : total = 0 ∨ largest = 0 then []
  else
    let width := if largest ≤ total then largest else 1 <<< total.log2
    width :: mountainRange largest (total - width)
termination_by total
decreasing_by
  have : 0 < 1 <<< total.log2 := by
    rw [Nat.one_shiftLeft]; exact Nat.two_pow_pos _
  split <;> omega

/-- The widths of subtrees that hold `total` leaves; there are none of width zero. -/
def mountainRange? (total largest : Nat) : Option (List Nat) :=
  if largest = 0 then none else some (mountainRange largest total)

end Availability
