import Availability.Text.Bits
import Availability.Text.Radix

/-!
# Bytes in a base of one's choice

Bytes may be written in many bases when the first character says which one it is.

* `Multibase.Base`, `Multibase.bases` – the bases and their characters;
* `Multibase.decode?` – reads **any** of them;
* `Multibase.encodeUrl` – writes base 64 with the digits that an address may hold.
-/

namespace Availability.Multibase

/-! ### Bases -/

/-- How digits stand for bytes. -/
inductive Layout where
  /-- Each digit stands for some bits. -/
  | bits (width : Nat)
  /-- Each digit stands for some bits, and the last group of digits is filled up with `=`. -/
  | filled (width group : Nat)
  /-- The digits stand for one number. -/
  | number
deriving DecidableEq

/-- A base. -/
structure Base where
  /-- The character that says that the base is used. -/
  mark : Char
  /-- How digits stand for bytes. -/
  layout : Layout
  /-- The digits, in the order of their values. -/
  alphabet : List Char
  /-- Whether letters of the other case are read as well. -/
  foldsCase : Bool
deriving DecidableEq

/-- The digits and the letters of the alphabet, in lower case. -/
def alphanumeric : List Char :=
  "0123456789abcdefghijklmnopqrstuvwxyz".toList

/-- The digits of base 32. -/
def base32 : List Char :=
  "abcdefghijklmnopqrstuvwxyz234567".toList

/-- The digits of base 64, the last two of which differ. -/
def base64 (last : String) : List Char :=
  ("ABCDEFGHIJKLMNOPQRSTUVWXYZabcdefghijklmnopqrstuvwxyz0123456789" ++ last).toList

/-- The bases. -/
def bases : List Base :=
  let hex := alphanumeric.take 32
  [⟨'0', .bits 1, ['0', '1'], false⟩, ⟨'7', .bits 3, alphanumeric.take 8, false⟩,
    ⟨'9', .number, alphanumeric.take 10, false⟩,
    ⟨'f', .bits 4, alphanumeric.take 16, true⟩, ⟨'F', .bits 4, alphanumeric.take 16, true⟩,
    ⟨'b', .bits 5, base32, true⟩, ⟨'B', .bits 5, base32, true⟩,
    ⟨'c', .filled 5 8, base32, true⟩, ⟨'C', .filled 5 8, base32, true⟩,
    ⟨'v', .bits 5, hex, true⟩, ⟨'V', .bits 5, hex, true⟩,
    ⟨'t', .filled 5 8, hex, true⟩, ⟨'T', .filled 5 8, hex, true⟩,
    ⟨'h', .bits 5, "ybndrfg8ejkmcpqxot1uwisza345h769".toList, false⟩,
    ⟨'k', .number, alphanumeric, true⟩, ⟨'K', .number, alphanumeric, true⟩,
    ⟨'z', .number, Radix.base58, false⟩,
    ⟨'Z', .number, "123456789abcdefghijkmnopqrstuvwxyzABCDEFGHJKLMNPQRSTUVWXYZ".toList, false⟩,
    ⟨'m', .bits 6, base64 "+/", false⟩, ⟨'M', .filled 6 4, base64 "+/", false⟩,
    ⟨'u', .bits 6, base64 "-_", false⟩, ⟨'U', .filled 6 4, base64 "-_", false⟩]

/-! ### Reading and writing -/

namespace Base

/-- The values of digits. -/
def values? (base : Base) (cs : List Char) : Option (List Nat) :=
  cs.mapM fun c => base.alphabet.idxOf? (if base.foldsCase then c.toLower else c)

/-- Reads a whole group of digits, which may be filled up but not with fillings alone. -/
def decodeGroup? (base : Base) (width group : Nat) (cs : List Char) : Option Bytes := do
  let digits := cs.takeWhile (· ≠ '=')
  guard (cs.length = group ∧ digits ≠ [])
  guard ((cs.drop digits.length).all (· = '='))
  Bits.exactBytes? width (← base.values? digits)

/-- Reads groups of digits, one after the other. -/
def decodeGroups? (base : Base) (width group : Nat) (cs : List Char) : Option Bytes :=
  if _ : cs = [] ∨ group = 0 then some []
  else do
    let bytes ← base.decodeGroup? width group (cs.take group)
    return bytes ++ (← decodeGroups? base width group (cs.drop group))
termination_by cs.length
decreasing_by
  have : 0 < cs.length := List.length_pos_iff.2 fun h => by simp_all
  simp only [List.length_drop]
  omega

/-- The bytes that digits stand for. -/
def decode? (base : Base) (cs : List Char) : Option Bytes :=
  match base.layout with
  | .bits width => base.values? cs >>= Bits.exactBytes? width
  | .filled width group => base.decodeGroups? width group cs
  | .number =>
    Radix.decode? base.alphabet (if base.foldsCase then cs.map Char.toLower else cs)

end Base

/-- The bytes that a text stands for. After a character without a meaning come the bytes
themselves. -/
def decode? (text : String) : Option Bytes :=
  match text.toList with
  | [] => none
  | mark :: cs =>
    if mark.toNat = 0 then some (Bytes.ofString (String.ofList cs))
    else bases.find? (·.mark = mark) >>= (·.decode? cs)

/-- The digits of some bytes, in the given digits of some bits each. -/
def encodeBits (width : Nat) (alphabet : List Char) (bs : Bytes) : String :=
  String.ofList ((Bits.digits width bs).map fun d => alphabet.getD d '=')

/-- The text of some bytes in base 64. -/
def encodeUrl (bs : Bytes) : String :=
  "u" ++ encodeBits 6 (base64 "-_") bs

end Availability.Multibase
