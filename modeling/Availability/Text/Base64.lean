import Availability.Bytes

/-!
# Base64 text

Three bytes are written as four digits of six bits. A last group of one or two bytes is written as
two or three digits, filled up to four characters with `=`.

* `Base64.encode` – the padded text of some bytes;
* `Base64.decode?` – reads **exactly** what `encode` writes;
* `Base64.decodeLoose?` – also reads a last group that is filled up only in part or not at all, and
  takes no notice of the bits in its last digit that no byte uses.
-/

namespace Availability.Base64

/-- The digit of a number below 64. -/
def digit (n : Nat) : Char :=
  if n < 26 then Char.ofNat (n + 65)
  else if n < 52 then Char.ofNat (n + 71)
  else if n < 62 then Char.ofNat (n - 4)
  else if n = 62 then '+' else '/'

/-- The value of a digit. -/
def digitValue? (c : Char) : Option Nat :=
  if 'A' ≤ c ∧ c ≤ 'Z' then some (c.toNat - 65)
  else if 'a' ≤ c ∧ c ≤ 'z' then some (c.toNat - 71)
  else if '0' ≤ c ∧ c ≤ '9' then some (c.toNat + 4)
  else if c = '+' then some 62
  else if c = '/' then some 63
  else none

/-- The characters of the padded text. -/
def encodeChars : Bytes → List Char
  | a :: b :: c :: rest =>
    digit (a.toNat / 4) :: digit (a.toNat % 4 * 16 + b.toNat / 16) ::
      digit (b.toNat % 16 * 4 + c.toNat / 64) :: digit (c.toNat % 64) :: encodeChars rest
  | [a, b] =>
    [digit (a.toNat / 4), digit (a.toNat % 4 * 16 + b.toNat / 16), digit (b.toNat % 16 * 4), '=']
  | [a] => [digit (a.toNat / 4), digit (a.toNat % 4 * 16), '=', '=']
  | [] => []

/-- The padded text of some bytes. -/
def encode (bs : Bytes) : String :=
  String.ofList (encodeChars bs)

/-- Reads digits without filling. The last group may have two or three; `strict` refuses it when
bits that no byte uses are set. -/
def decodeDigits? (strict : Bool) : List Nat → Option Bytes
  | a :: b :: c :: d :: rest =>
    (decodeDigits? strict rest).map
      ([UInt8.ofNat (a * 4 + b / 16), UInt8.ofNat (b % 16 * 16 + c / 4),
        UInt8.ofNat (c % 4 * 64 + d)] ++ ·)
  | [a, b, c] =>
    if strict && c % 4 ≠ 0 then none
    else some [UInt8.ofNat (a * 4 + b / 16), UInt8.ofNat (b % 16 * 16 + c / 4)]
  | [a, b] => if strict && b % 16 ≠ 0 then none else some [UInt8.ofNat (a * 4 + b / 16)]
  | [_] => none
  | [] => some []

/-- The text without the one or two `=` at its end. -/
def unfilled (cs : List Char) : List Char :=
  match cs.reverse with
  | '=' :: '=' :: rest => rest.reverse
  | '=' :: rest => rest.reverse
  | _ => cs

/-- The bytes of which the text is the padded form. -/
def decode? (s : String) : Option Bytes := do
  let cs := s.toList
  guard (cs.length % 4 = 0)
  decodeDigits? true (← (unfilled cs).mapM digitValue?)

/-- Whether some characters fill up a last group, in whole or in part, after the given number of
digits. There is no last group to fill up after whole groups. -/
def isFilling (digits : Nat) (filling : List Char) : Bool :=
  filling.all (· = '=') && (filling.isEmpty || (digits % 4 ≠ 0 && digits % 4 + filling.length ≤ 4))

/-- The bytes that the digits of the text stand for, padded or not. -/
def decodeLoose? (s : String) : Option Bytes := do
  let digits := s.toList.takeWhile (· ≠ '=')
  guard (isFilling digits.length (s.toList.drop digits.length))
  decodeDigits? false (← digits.mapM digitValue?)

end Availability.Base64
