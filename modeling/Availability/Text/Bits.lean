import Availability.Bytes

/-!
# Digits of a few bits

Bytes are written in digits of some other number of bits by cutting their bits anew, from the most
significant one on.

* `Bits.digits` – the digits of some bytes, the last of which is **filled up with zero bits**;
* `Bits.bytes` – the whole bytes of some digits, and the bits that are left over;
* `Bits.exactBytes?` – the bytes of which some digits are the digits.
-/

namespace Availability.Bits

/-- The bits of a number, the most significant one first. -/
def ofNat (width n : Nat) : List Bool :=
  (List.range width).map fun i => n.testBit (width - 1 - i)

/-- The number of the given bits. -/
def toNat (bs : List Bool) : Nat :=
  bs.foldl (fun n b => 2 * n + b.toNat) 0

/-- Cuts bits into numbers of `width` bits; what is left over is given back. -/
def regroup (width : Nat) (bs : List Bool) : List Nat × List Bool :=
  if _ : width = 0 ∨ bs.length < width then ([], bs)
  else
    let (groups, rest) := regroup width (bs.drop width)
    (toNat (bs.take width) :: groups, rest)
termination_by bs.length
decreasing_by
  simp only [List.length_drop]
  omega

/-- The digits of `width` bits of some bytes. -/
def digits (width : Nat) (bytes : Bytes) : List Nat :=
  let (groups, rest) := regroup width (bytes.flatMap fun b => ofNat 8 b.toNat)
  if rest.isEmpty then groups
  else groups ++ [toNat (rest ++ List.replicate (width - rest.length) false)]

/-- The whole bytes of some digits of `width` bits, and the bits that are left over. -/
def bytes (width : Nat) (digits : List Nat) : Bytes × List Bool :=
  let (groups, rest) := regroup 8 (digits.flatMap (ofNat width))
  (groups.map UInt8.ofNat, rest)

/-- The bytes of which some digits are the digits: no digit is left over as a whole, and the bits
that are left over are zero. -/
def exactBytes? (width : Nat) (digits : List Nat) : Option Bytes :=
  let (bytes, rest) := bytes width digits
  if rest.length < width && !rest.any id then some bytes else none

end Availability.Bits
