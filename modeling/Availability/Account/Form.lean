import Availability.Account.Address
import Availability.Account.Balance
import Availability.Json.Form

/-!
# Addresses and coins in JSON

Addresses are texts; so are amounts of coins, whose JSON numbers would not be exact.

* `Amount` – an amount of the coin that is known from the context.
-/

namespace Availability

instance : JsonForm Address := .total (.refined .string Address.parse) fun a => .str a.toText

instance {role : AccountRole} : JsonForm (AddressAs role) :=
  .total (.refined .string (AddressAs.parse role)) fun a => .str a.toText

namespace Balance

/-- The fields of a balance. -/
def fields : Fields (Except Error Balance) :=
  parse <$> .required "denom" .string <*> .required "amount" .string

/-- Writes a balance. -/
def toJson (balance : Balance) : Json :=
  .obj [("denom", .str balance.denomination.text), ("amount", .str (toString balance.amount))]

instance : JsonForm Balance := .total (.refined fields.decoder id) toJson

end Balance

/-- An amount of a coin that is known from the context. -/
structure Amount where
  /-- The number of coins. -/
  value : UInt64
deriving DecidableEq

instance : JsonForm Amount where
  read json := (fun n => ⟨.ofNat n⟩) <$> Decoder.natText 64 json
  write amount := some (.str (toString amount.value))

end Availability
