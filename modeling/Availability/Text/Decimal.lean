/-!
# Decimal text

Numbers are read from decimal digits in two settings: texts that hold a whole number, and numbers
in JSON.

* `Decimal.nat?`, `Decimal.int?` – a **whole number** with an optional sign, of bounded size;
* `Decimal.toFloat?` – the double of a decimal with a fraction and an exponent.

A decimal is turned into a double in two roundings: its first digits, as many as fit into 64 bits,
are rounded to a double, and then multiplied or divided by a rounded power of ten.
-/

namespace Availability.Decimal

/-- The value of a decimal digit. -/
def digitValue? (c : Char) : Option Nat :=
  if '0' ≤ c ∧ c ≤ '9' then some (c.toNat - 48) else none

/-- The number whose digits are given, the most significant one first. -/
def ofDigits (digits : List Nat) : Nat :=
  digits.foldl (fun n d => 10 * n + d) 0

/-- Reads one or more digits, and nothing else. -/
def digits? (cs : List Char) : Option Nat := do
  guard (!cs.isEmpty)
  return ofDigits (← cs.mapM digitValue?)

/-- Reads a number below `bound`, which may have a plus sign. -/
def nat? (bound : Nat) (s : String) : Option Nat := do
  let n ← match s.toList with
    | '+' :: cs => digits? cs
    | cs => digits? cs
  guard (n < bound)
  return n

/-- Reads a number from `-bound` up to `bound - 1`, which may have a sign. -/
def int? (bound : Nat) (s : String) : Option Int := do
  let n ← match s.toList with
    | '-' :: cs => (fun n : Nat => -(n : Int)) <$> digits? cs
    | '+' :: cs => (fun n : Nat => (n : Int)) <$> digits? cs
    | cs => (fun n : Nat => (n : Int)) <$> digits? cs
  guard (-bound ≤ n ∧ n < bound)
  return n

/-! ### Doubles -/

/-- Appends digits to a number as long as it fits into 64 bits, and gives the number of digits
that were appended. -/
def extend (n : Nat) : (digits : List Nat) → Nat × Nat
  | [] => (n, 0)
  | d :: digits =>
    if 10 * n + d < UInt64.size then
      let (m, count) := extend (10 * n + d) digits
      (m, count + 1)
    else (n, 0)

/-- Multiplies or divides by a power of ten. Powers that are no doubles are divided by in steps;
nothing but zero is multiplied by one. -/
def scale : (fuel : Nat) → Float → (exponent : Int) → Option Float
  | 0, _, _ => some 0
  | fuel + 1, x, exponent =>
    if exponent.natAbs ≤ 308 then
      let power := Float.ofScientific 1 false exponent.natAbs
      if exponent < 0 then some (x / power)
      else if (x * power).isInf then none
      else some (x * power)
    else if x == 0 then some x
    else if 0 ≤ exponent then none
    else scale fuel (x / Float.ofScientific 1 false 308) (exponent + 308)

/-- The double next to `whole.fraction` times ten to the power of `exponent`, up to the two
roundings; `none` beyond the doubles. -/
def toFloat? (negative : Bool) (whole fraction : List Nat) (exponent : Int) : Option Float :=
  let (n, count) := extend 0 whole
  let (n, places) := extend n fraction
  let dropped : Int := whole.length - count
  let x := (UInt64.ofNat n).toFloat
  -- three divisions by 10^308 turn every double into zero
  let scaled := scale 4 x (dropped - places + exponent)
  scaled.map fun x => if negative then -x else x

end Availability.Decimal
