import Availability.Text.Bits

/-!
# Bech32 text

Bytes are written in symbols of five bits after a word that says what they are, and are followed by
a checksum of six symbols over the word and the bytes. There are two checksums, which differ in one
constant.

* `Bech32.encode` – the text with the **first** checksum, in lower case;
* `Bech32.decode` – reads texts with **either** checksum, in lower or in upper case; bits left over
  after the last whole byte are dropped;
* `Bech32.Fault` – the text has the wrong form, or no valid checksum.
-/

namespace Availability.Bech32

/-- Why a text is not read. -/
inductive Fault where
  /-- The text is not made of a word, a separator and symbols. -/
  | form
  /-- Neither of the checksums is valid. -/
  | checksum
deriving DecidableEq

/-! ### Symbols -/

/-- The symbols, in the order of their values. -/
def alphabet : List Char :=
  "qpzry9x8gf2tvdw0s3jn54khce6mua7l".toList

/-- The value of a symbol of either case. -/
def value? (c : Char) : Option Nat :=
  alphabet.idxOf? c.toLower

/-- The symbols of some bytes; the last one is filled up with zero bits. -/
def symbolsOf (bytes : Bytes) : List Nat :=
  Bits.digits 5 bytes

/-- The whole bytes of some symbols. -/
def bytesOf (symbols : List Nat) : Bytes :=
  (Bits.bytes 5 symbols).1

/-! ### Checksums -/

/-- What the checksum is multiplied with when a symbol is taken in. -/
def generators : List Nat :=
  [0x3b6a57b2, 0x26508e6d, 0x1ea119fa, 0x3d4233dd, 0x2a1462b3]

/-- Takes a symbol into the checksum. -/
def step (sum symbol : Nat) : Nat :=
  let top := sum >>> 25
  let next := ((sum % (1 <<< 25)) <<< 5) ^^^ symbol
  ((List.range 5).zip generators).foldl
    (fun acc (i, g) => if top.testBit i then acc ^^^ g else acc) next

/-- The symbols of a word, in which each character counts twice: with its high and its low bits. -/
def expand (word : List Char) : List Nat :=
  let codes := word.map fun c => c.toLower.toNat
  codes.map (· / 32) ++ 0 :: codes.map (· % 32)

/-- The checksum of a word and symbols. -/
def checksum (word : List Char) (symbols : List Nat) : Nat :=
  (expand word ++ symbols).foldl step 1

/-- What the checksum of a whole text has to be, in either of its forms. -/
def first : Nat := 1
/-- What the checksum of a whole text has to be in the second form. -/
def second : Nat := 0x2bc830a3

/-! ### Texts -/

/-- The text of some bytes under a word. -/
def encode (word : String) (bytes : Bytes) : String :=
  let symbols := symbolsOf bytes
  let sum := checksum word.toList (symbols ++ List.replicate 6 0) ^^^ first
  let tail := (List.range 6).map fun i => (sum >>> (5 * (5 - i))) % 32
  String.ofList (word.toList ++ '1' :: (symbols ++ tail).map fun v => alphabet.getD v 'q')

/-- Whether the characters make a word: 1 to 83 characters of ASCII that are neither blanks nor
control characters. -/
def isWord (cs : List Char) : Bool :=
  1 ≤ cs.length && cs.length ≤ 83 && cs.all fun c => 33 ≤ c.toNat && c.toNat ≤ 126

/-- Splits a text at the last separator. -/
def splitWord (cs : List Char) : Option (List Char × List Char) :=
  let symbols := (cs.reverse.takeWhile (· ≠ '1')).reverse
  if symbols.length = cs.length then none
  else some (cs.take (cs.length - symbols.length - 1), symbols)

/-- Reads a text: the word as it is written, and the bytes. -/
def decode (text : String) : Except Fault (String × Bytes) := do
  let cs := text.toList
  if cs.any Char.isUpper && cs.any Char.isLower then throw .form
  let some (word, symbols) := splitWord cs | throw .form
  let some values := symbols.mapM value? | throw .form
  if !isWord word then throw .form
  -- longer texts have no checksum
  if 1023 < cs.length || values.length < 6 then throw .checksum
  let sum := checksum word values
  if sum ≠ first ∧ sum ≠ second then throw .checksum
  return (String.ofList word, bytesOf (values.take (values.length - 6)))

end Availability.Bech32
