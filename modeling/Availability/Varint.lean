import Availability.Bytes

/-!
# Numbers of variable length

A number is cut into groups of seven bits, the lowest one first. Every byte but the last has its
high bit set.

* `Varint.encode` – the **shortest** bytes of a number;
* `Varint.decode?` – reads a number of at most ten bytes, in 64 bits.
-/

namespace Availability.Varint

/-- The bytes of a number. -/
def encode (n : Nat) : Bytes :=
  if n < 128 then [UInt8.ofNat n] else UInt8.ofNat (n % 128 + 128) :: encode (n / 128)
termination_by n
decreasing_by omega

/-- Reads groups of a number, the first of which has the given value of a one. -/
def readGroups? : (count : Nat) → (unit : Nat) → Bytes → Option (Nat × Bytes)
  | 0, _, _ => none
  | _, _, [] => none
  | count + 1, unit, b :: rest =>
    if b.toNat < 128 then
      -- a zero at the end would not be needed
      if b = 0 ∧ unit ≠ 1 then none else some (b.toNat * unit, rest)
    else do
      let (n, rest) ← readGroups? count (unit * 128) rest
      return ((b.toNat - 128) * unit + n, rest)

/-- Reads a number of 64 bits, and what follows it. -/
def decode? (bs : Bytes) : Option (Nat × Bytes) := do
  let (n, rest) ← readGroups? 10 1 bs
  return (n % UInt64.size, rest)

end Availability.Varint
