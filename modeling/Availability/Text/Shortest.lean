/-!
# The shortest decimals of doubles

A double is written with as few digits as lead back to it: of all decimals that are rounded to the
double, one with the fewest digits is taken, and among those the nearest.

* `Shortest.decimal` – the digits and the power of ten of a positive double.

All numbers are compared as whole multiples of one tiny unit, so that nothing is rounded on the way.
-/

namespace Availability.Shortest

/-- The mantissa and the power of two of a finite double. -/
def parts (x : Float) : Nat × Nat :=
  let bits := x.toBits.toNat
  let fraction := bits % (1 <<< 52)
  let exponent := (bits >>> 52) % 2048
  if exponent = 0 then (fraction, 1) else (1 <<< 52 + fraction, exponent)

/-- How many units 10⁻³⁴² is. The exponents of `parts` are too large by 1075, and two more bits are
for the halves and quarters between doubles. -/
def tiny : Nat :=
  4 <<< 1075

/-- A multiple of `step` that lies between the two ends, the nearer one of the two next to `value`.
The ends themselves count when `closed`. -/
def multiple? (low value high : Nat) (closed : Bool) (step : Nat) : Option Nat :=
  let n := value / step
  let isInside (p : Nat) : Bool := (low < p && p < high) || (closed && (low = p || p = high))
  let below := value - n * step
  let above := (n + 1) * step - value
  match isInside (n * step), isInside ((n + 1) * step) with
  | true, true => some (if below < above || (below = above && n % 2 = 0) then n else n + 1)
  | true, false => some n
  | false, true => some (n + 1)
  | false, false => none

/-- The first multiple of a power of ten that lies between the ends, given the power to try first;
each further power is a tenth of the one before. -/
def search (low value high : Nat) (closed : Bool) : (tries : Nat) → (exponent : Int) → Nat × Int
  | 0, exponent => (0, exponent)
  | tries + 1, exponent =>
    match multiple? low value high closed (tiny * Nat.pow 10 (342 + exponent).toNat) with
    | some n => (n, exponent)
    | none => search low value high closed tries (exponent - 1)

/-- The whole number and the power of ten by which it has to be multiplied. -/
def decimal (x : Float) : Nat × Int :=
  let (mantissa, exponent) := parts x
  let half := (2 <<< exponent) * Nat.pow 10 342
  let value := mantissa * (2 * half)
  -- below a power of two, doubles are twice as dense
  let low := if mantissa = 1 <<< 52 ∧ 1 < exponent then value - half / 2 else value - half
  let leading : Int := (Nat.toDigits 10 (value / tiny)).length - 343
  -- with 17 digits, every double is told apart from its neighbours
  let (n, exponent) := search low value (value + half) (mantissa % 2 = 0) 17 leading
  if n = 10 then (1, exponent + 1) else (n, exponent)

end Availability.Shortest
