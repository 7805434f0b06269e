import Availability.Varint

/-!
# Binary records

What is hashed into a block header is first written as a record: the fields one after the other,
each after a tag with its number and the way its value is written. **A field that has the value by
default is left out**, so that the empty record has no bytes.

* `Wire.number` – a field with a signed 64-bit number, left out when it is 0;
* `Wire.bytes` – a field with bytes, left out when there are none;
* `Wire.nested` – a field with a record, which is there even when the record is empty.
-/

namespace Availability.Wire

/-- The tag of a field: its number, and the way in which its value is written. -/
def tag (field way : Nat) : Bytes :=
  Varint.encode (8 * field + way)

/-- A field with a number. Negative numbers are written as what they are modulo 2⁶⁴. -/
def number (field : Nat) (n : Int) : Bytes :=
  if n = 0 then [] else tag field 0 ++ Varint.encode (n % UInt64.size).toNat

/-- A field with a record. -/
def nested (field : Nat) (content : Bytes) : Bytes :=
  tag field 2 ++ Varint.encode content.length ++ content

/-- A field with bytes. -/
def bytes (field : Nat) (content : Bytes) : Bytes :=
  if content.isEmpty then [] else nested field content

/-- A field with the bytes of a text. -/
def text (field : Nat) (content : String) : Bytes :=
  bytes field (Bytes.ofString content)

end Availability.Wire
