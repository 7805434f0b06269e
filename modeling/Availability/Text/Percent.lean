import Availability.Text.Hex

/-!
# Percent signs in paths

A byte of a path that would be taken for something else is written as a percent sign and two
hexadecimal digits.

* `Percent.decodeBytes`, `Percent.decode?` – a percent sign **without** two digits stands for itself;
* `Percent.encode` – a path as one part of a longer path.
-/

namespace Availability.Percent

/-- The bytes that some bytes of text stand for. -/
def decodeBytes : Bytes → Bytes
  | [] => []
  | b :: hi :: lo :: rest =>
    match Hex.digitValue? (Char.ofNat hi.toNat), Hex.digitValue? (Char.ofNat lo.toNat) with
    | some h, some l =>
      if b = 37 then UInt8.ofNat (16 * h + l) :: decodeBytes rest
      else b :: decodeBytes (hi :: lo :: rest)
    | _, _ => b :: decodeBytes (hi :: lo :: rest)
  | b :: rest => b :: decodeBytes rest

/-- The path that a text stands for, unless it is no text. -/
def decode? (text : String) : Option String :=
  Bytes.toString? (decodeBytes (Bytes.ofString text))

/-- The characters of ASCII that have to be written with a percent sign, apart from control
characters. -/
def reserved : List Char :=
  "%/`?\x7b\x7d \"#<>".toList

/-- A byte of a path, as it is written. -/
def encodeByte (b : UInt8) : List Char :=
  let c := Char.ofNat b.toNat
  if b < 32 || 127 ≤ b || reserved.contains c then '%' :: (Hex.encodeUpper [b]).toList else [c]

/-- The text of a path. -/
def encode (path : String) : String :=
  String.ofList ((Bytes.ofString path).flatMap encodeByte)

end Availability.Percent
