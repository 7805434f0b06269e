import Availability.Bytes

/-!
# Bytes as one number

The bytes are read as one number and written in some base, given by its digits. Zero bytes at the
front, which the number does not show, are written as one zero digit each.

* `Radix.encode`, `Radix.decode?` – every text of the digits stands for **one** byte string;
* `Radix.base58` – digits that leave out what looks alike.
-/

namespace Availability.Radix

/-- The digits of base 58, in the order of their values. -/
def base58 : List Char :=
  "123456789ABCDEFGHJKLMNPQRSTUVWXYZabcdefghijkmnopqrstuvwxyz".toList

/-- The digits of a number in a base of at least 2, the most significant one first. Zero has no
digits. -/
def digits (base : Nat) (n : Nat) : List Nat :=
  if _ : n = 0 ∨ base < 2 then [] else digits base (n / base) ++ [n % base]
termination_by n
decreasing_by
  exact Nat.div_lt_self (by omega) (by omega)

/-- The number of the given digits. -/
def ofDigits (base : Nat) (ds : List Nat) : Nat :=
  ds.foldl (fun n d => base * n + d) 0

/-- The text of some bytes. -/
def encode (alphabet : List Char) (bs : Bytes) : String :=
  let zeros := (bs.takeWhile (· = 0)).length
  let ds := List.replicate zeros 0 ++ digits alphabet.length (Bytes.toNat bs)
  String.ofList (ds.map fun d => alphabet.getD d '0')

/-- The bytes that the given digits stand for. -/
def decode? (alphabet : List Char) (cs : List Char) : Option Bytes := do
  let ds ← cs.mapM fun c => alphabet.idxOf? c
  let zeros := (ds.takeWhile (· = 0)).length
  return List.replicate zeros 0 ++ (digits 256 (ofDigits alphabet.length ds)).map UInt8.ofNat

end Availability.Radix
