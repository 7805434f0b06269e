import Availability.Bytes

/-!
# Hexadecimal text

Two digits for each byte, the high one first.

* `Hex.encode`, `Hex.encodeUpper` – written with lower or upper case letters;
* `Hex.decode?` – letters of **either case** are read, and nothing but pairs of digits;
* `Hex.decodeUpper?`, `Hex.decodeUniform?` – all letters have to be in upper case, or all of them in
  the same one.
-/

namespace Availability.Hex

/-- The digit of a number below sixteen. -/
def digit (n : Nat) : Char :=
  Nat.digitChar n

/-- The value of a digit. -/
def digitValue? (c : Char) : Option Nat :=
  if '0' ≤ c ∧ c ≤ '9' then some (c.toNat - '0'.toNat)
  else if 'a' ≤ c ∧ c ≤ 'f' then some (c.toNat - 'a'.toNat + 10)
  else if 'A' ≤ c ∧ c ≤ 'F' then some (c.toNat - 'A'.toNat + 10)
  else none

/-- The digits of the bytes, with letters in lower case. -/
def encodeChars (bs : Bytes) : List Char :=
  bs.flatMap fun b => [digit (b.toNat / 16), digit (b.toNat % 16)]

/-- The lower case text of the bytes. -/
def encode (bs : Bytes) : String :=
  String.ofList (encodeChars bs)

/-- The upper case text of the bytes. -/
def encodeUpper (bs : Bytes) : String :=
  String.ofList ((encodeChars bs).map Char.toUpper)

/-- Reads digits in pairs, appending the bytes in reverse to those read before. -/
def decodeOnto? : Bytes → List Char → Option Bytes
  | bs, [] => some bs.reverse
  | _, [_] => none
  | bs, hi :: lo :: rest =>
    match digitValue? hi, digitValue? lo with
    | some h, some l => decodeOnto? (UInt8.ofNat (16 * h + l) :: bs) rest
    | _, _ => none

/-- The bytes of which the text is the hexadecimal form. -/
def decode? (s : String) : Option Bytes :=
  decodeOnto? [] s.toList

/-- The bytes of which the text is the upper case form. -/
def decodeUpper? (s : String) : Option Bytes :=
  if s.toList.any Char.isLower then none else decode? s

/-- The bytes of which the text is the lower case or the upper case form. -/
def decodeUniform? (s : String) : Option Bytes :=
  if s.toList.any Char.isLower && s.toList.any Char.isUpper then none else decode? s

end Availability.Hex
