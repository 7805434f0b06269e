import Availability.Error
import Availability.Text.Decimal

/-!
# Coins

* `Denomination` – the name of a kind of coin;
* `Balance` – an amount of one kind of coin.
-/

namespace Availability

/-- The name of a kind of coin. -/
structure Denomination where
  /-- The text of the name. -/
  text : String
deriving DecidableEq

namespace Denomination

/-- Whether a character is a letter of ASCII. -/
def isLetter (c : Char) : Bool :=
  ('a' ≤ c && c ≤ 'z') || ('A' ≤ c && c ≤ 'Z')

/-- Whether a character may stand in a name after the first one. -/
def isInner (c : Char) : Bool :=
  isLetter c || ('0' ≤ c && c ≤ '9') || c ∈ ['/', ':', '.', '_', '-']

/-- A name has 3 to 128 characters, of which the first is a letter. -/
def isValid (text : String) : Bool :=
  3 ≤ text.utf8ByteSize && text.utf8ByteSize ≤ 128 &&
    match text.toList with
    | first :: rest => isLetter first && rest.all isInner
    | [] => false

/-- The name of a text, if it is one. -/
def parse (text : String) : Except Error Denomination :=
  if isValid text then .ok ⟨text⟩ else .error (.denomination text)

/-- The coin that fees are paid in. -/
def bond : Denomination := ⟨"utia"⟩

end Denomination

/-- An amount of one kind of coin. -/
structure Balance where
  /-- The kind of coin. -/
  denomination : Denomination
  /-- The amount. -/
  amount : UInt64
deriving DecidableEq

namespace Balance

/-- Makes a balance. -/
def make (denomination : String) (amount : UInt64) : Except Error Balance := do
  return { denomination := ← Denomination.parse denomination, amount }

/-- A balance of the coin that fees are paid in. -/
def ofBond (amount : UInt64) : Balance :=
  { denomination := .bond, amount }

/-- Reads a balance from the two texts that it is written in. -/
def parse (denomination amount : String) : Except Error Balance := do
  let denomination ← Denomination.parse denomination
  match Decimal.nat? UInt64.size amount with
  | some n => return { denomination, amount := .ofNat n }
  | none => throw (.amount amount)

/-- The amount, followed by the name of the coin. -/
def toText (balance : Balance) : String :=
  toString balance.amount ++ balance.denomination.text

end Balance

end Availability
