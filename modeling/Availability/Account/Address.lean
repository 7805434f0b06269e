import Availability.Error
import Availability.Text.Bech32

/-!
# Addresses of accounts

An account is known by an id of 20 bytes. In an address, the id stands after a word that says in
which role the account is meant.

* `AccountRole` – the three roles and their words;
* `Address` – an id in some role, and its text;
* `AddressAs` – an id in **one given** role.
-/

namespace Availability

/-! ### Roles and ids -/

/-- What an address is the address of. -/
inductive AccountRole where
  /-- An account that holds coins. -/
  | account
  /-- The operator of a validator. -/
  | validator
  /-- The key with which a validator takes part in consensus. -/
  | consensus
deriving DecidableEq

namespace AccountRole

/-- The word that addresses of the role start with. -/
def word : AccountRole → String
  | account => "celestia"
  | validator => "celestiavaloper"
  | consensus => "celestiavalcons"

/-- The role of a word. -/
def ofWord (text : String) : Except Error AccountRole :=
  if text = account.word then .ok account
  else if text = validator.word then .ok validator
  else if text = consensus.word then .ok consensus
  else .error (.addressPrefix text)

end AccountRole

/-- The 20 bytes that an account is known by. -/
structure AccountId where
  /-- The bytes. -/
  bytes : Bytes
  /-- An id has 20 bytes. -/
  length_bytes : bytes.length = 20
deriving DecidableEq

namespace AccountId

/-- The id of some bytes. -/
def ofBytes (bs : Bytes) : Except Error AccountId :=
  if h : bs.length = 20 then .ok ⟨bs, h⟩ else .error (.address (.idSize bs.length))

/-- The id as upper case hexadecimal digits. -/
def toHexUpper (id : AccountId) : String :=
  Hex.encodeUpper id.bytes

end AccountId

/-! ### Addresses -/

/-- An id in some role. -/
structure Address where
  /-- The role. -/
  role : AccountRole
  /-- The id. -/
  id : AccountId
deriving DecidableEq

namespace Address

/-- The text of an address. -/
def toText (address : Address) : String :=
  Bech32.encode address.role.word address.id.bytes

/-- Reads an address of any role. -/
def parse (text : String) : Except Error Address := do
  let (word, bytes) ← (Bech32.decode text).mapError fun
    | .form => .address .notBech32
    | .checksum => .address .checksum
  let role ← AccountRole.ofWord word
  let id ← AccountId.ofBytes bytes
  return { role, id }

/-- The address, if it is of the given role. -/
def inRole (address : Address) (role : AccountRole) : Except Error Address :=
  if address.role = role then .ok address else .error (.addressPrefix address.role.word)

end Address

/-- An id in the given role. -/
structure AddressAs (role : AccountRole) where
  /-- The id. -/
  id : AccountId
deriving DecidableEq

namespace AddressAs

variable {role : AccountRole}

/-- The address without its role being fixed. -/
def address (a : AddressAs role) : Address :=
  { role, id := a.id }

/-- The text of an address. -/
def toText (a : AddressAs role) : String :=
  a.address.toText

/-- Reads an address of the role. -/
def parse (role : AccountRole) (text : String) : Except Error (AddressAs role) := do
  let address ← Address.parse text
  let address ← address.inRole role
  return ⟨address.id⟩

end AddressAs

/-- The address of an account. -/
abbrev AccountAddress := AddressAs .account

/-- The address of the operator of a validator. -/
abbrev ValidatorAddress := AddressAs .validator

end Availability
