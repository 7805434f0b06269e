import Availability.Account.Form
import Availability.Chain.ExtendedHeader
import Availability.Square.Form

/-!
# Headers of a chain in JSON

Heights, versions and powers are texts, and hashes are hexadecimal digits, all letters in one case
when read and in **upper case** when written. Missing bytes may be `null`.

* `BlockHeader`, `Commit`, `ValidatorSet`, `ExtendedHeader` – the forms;
* `Chain.pointInTime?` – the second at which the year 1970 begins stands for **no time**.
-/

namespace Availability

namespace Chain

/-! ### Parts -/

/-- Reads bytes in hexadecimal digits, with `null` for none. -/
def hex : Decoder Bytes :=
  .orNull [] (.narrowed .string Hex.decodeUniform?)

/-- Writes bytes in hexadecimal digits. -/
def hexJson (bs : Bytes) : Json :=
  .str (Hex.encodeUpper bs)

/-- The hash of some bytes, of which the empty hash has none. -/
def hash? (bs : Bytes) : Option HeaderHash :=
  if h : bs.length = 32 then some (some ⟨bs, h⟩) else if bs.isEmpty then some none else none

/-- A member with a hash. -/
def hash {ρ : Type} (key : String) (get : ρ → HeaderHash) : Members ρ HeaderHash :=
  .one key (.required key (.narrowed hex hash?)) fun r => some (hexJson (get r).bytes)

/-- A member with a height, as a text. -/
def height {ρ : Type} (key : String) (get : ρ → Height) : Members ρ Height :=
  .one key (.required key (.narrowed (.intText 64) Height.ofInt?)) fun r =>
    some (.str (toString (get r).val))

/-- A member with the id of an account. -/
def account {ρ : Type} (key : String) (get : ρ → AccountId) : Members ρ AccountId :=
  .one key (.required key (.refined hex AccountId.ofBytes)) fun r => some (hexJson (get r).bytes)

/-- The point in time, unless it stands for none. -/
def pointInTime? (t : Time) : Option Time :=
  if t.unixSeconds = 0 ∧ t.nanos = 0 then none else some t

end Chain

/-! ### References to blocks -/

namespace PartSet

/-- Reads a number of parts, as a number or as a text. -/
def totalDecoder : Decoder UInt32
  | .str s => Decoder.ofOption (UInt32.ofNat <$> Decimal.nat? UInt32.size s)
  | json => Decoder.uint32 json

instance : JsonForm PartSet := Members.form <|
  PartSet.mk <$> .one "total" (.required "total" totalDecoder) (fun p => some (.ofNat p.total.toNat))
    <*> Chain.hash "hash" PartSet.hash

end PartSet

instance : JsonForm BlockId := Members.form <|
  BlockId.mk <$> Chain.hash "hash" BlockId.hash
    <*> .one "parts" (.general ["parts", "part_set_header"] JsonForm.read none none)
      fun b => JsonForm.write b.parts

/-! ### Headers -/

namespace BlockVersion

/-- The form of a version. -/
abbrev version : JsonForm UInt64 :=
  .ofText (fun s => UInt64.ofNat <$> Decimal.nat? UInt64.size s) fun n => toString n

instance : JsonForm BlockVersion := Members.form <|
  BlockVersion.mk
    <$> .one "block" (.required "block" version.read) (fun v => version.write v.block)
    <*> .one "app" (.withDefault "app" 0 version.read) (fun v => version.write v.app)

end BlockVersion

namespace BlockHeader

/-- A reference to no block is the same as none. -/
def lastBlockMember : Members BlockHeader (Option BlockId) :=
  .one "last_block_id" ((·.filter (· ≠ .empty)) <$> .nullable "last_block_id" JsonForm.read)
    fun h => JsonForm.write h.lastBlock

/-- The members of a header. -/
def members : Members BlockHeader BlockHeader :=
  BlockHeader.mk <$> .need "version" BlockHeader.version
    <*> .one "chain_id" (.required "chain_id" (.narrowed .string ChainId.parse?))
      (fun h => some (.str h.chain.text))
    <*> Chain.height "height" BlockHeader.height
    <*> .one "time" (.required "time" (.narrowed .time Chain.pointInTime?))
      (fun h => JsonForm.write h.time)
    <*> lastBlockMember
    <*> Chain.hash "last_commit_hash" BlockHeader.lastCommitHash
    <*> Chain.hash "data_hash" BlockHeader.dataHash
    <*> Chain.hash "validators_hash" BlockHeader.validatorsHash
    <*> Chain.hash "next_validators_hash" BlockHeader.nextValidatorsHash
    <*> Chain.hash "consensus_hash" BlockHeader.consensusHash
    <*> .one "app_hash" (.required "app_hash" Chain.hex) (fun h => some (Chain.hexJson h.appHash))
    <*> Chain.hash "last_results_hash" BlockHeader.lastResultsHash
    <*> Chain.hash "evidence_hash" BlockHeader.evidenceHash
    <*> Chain.account "proposer_address" BlockHeader.proposer

/-- Headers are read only if nothing comes before the first block. -/
instance : JsonForm BlockHeader where
  read := .narrowed members.fields.decoder fun h => if h.hasBlockBeforeFirst then none else some h
  write h := Json.obj <$> members.write h

end BlockHeader

/-! ### Validators -/

namespace PublicKey

/-- The word for the only kind of keys. -/
def kind : String := "tendermint/PubKeyEd25519"

/-- The fields of a key. -/
def fields : Fields PublicKey :=
  (fun _ key => key) <$> .required "type" (.word [(kind, ())])
    <*> .required "value" (.narrowed .base64 ofBytes?)

instance : JsonForm PublicKey :=
  .total fields.decoder fun key => .obj [("type", .str kind), ("value", .ofBytes key.bytes)]

end PublicKey

namespace Validator

/-- The validator of some parts, if the address is that of the key. -/
def ofParts (address : AccountId) (key : PublicKey) (power : Nat) : Option Validator :=
  if h : address = key.account then
    some { address, key, power := .ofNat power, address_eq := h }
  else none

/-- The fields of a validator. How soon it is to propose a block is read, but not kept. -/
def fields : Fields (Option Validator) :=
  (fun address key power _ => ofParts address key power)
    <$> .required "address" (.refined Chain.hex AccountId.ofBytes)
    <*> .required "pub_key" JsonForm.read
    <*> .general ["voting_power", "power"] (.narrowed (.intText 64) Int.toNat?) none none
    <*> .withDefault "proposer_priority" 0 (.orNull 0 (.intText 64))

/-- Writes a validator. Validators of a block have no name. -/
def toJson (v : Validator) : Json :=
  .record
    [("address", some (Chain.hexJson v.address.bytes)), ("pub_key", JsonForm.write v.key),
      ("power", some (.str (toString v.power))), ("name", some .null)]

instance : JsonForm Validator := .total (.narrowed fields.decoder id) toJson

end Validator

namespace ValidatorSet

/-- The set of some parts, if it has the power that was declared for it. -/
def ofParts (validators : List Validator) (proposer : Option Validator) (declared : Int) :
    Option ValidatorSet :=
  (make? validators proposer).filter (·.hasDeclared declared)

/-- The fields of a set. -/
def fields : Fields (Option ValidatorSet) :=
  ofParts <$> .required "validators" JsonForm.read <*> .nullable "proposer" JsonForm.read
    <*> .withDefault "total_voting_power" 0 (.intText 64)

/-- Writes a set, together with its power. -/
def toJson (set : ValidatorSet) : Json :=
  .obj
    [("validators", .ofList Validator.toJson set.validators),
      ("proposer", .ofOption Validator.toJson set.proposer),
      ("total_voting_power", .str (toString set.totalPower))]

instance : JsonForm ValidatorSet := .total (.narrowed fields.decoder id) toJson

end ValidatorSet

/-! ### Commits -/

namespace CommitSignature

/-- The time that stands where nobody has voted. -/
def noTime : Time :=
  default

/-- The signature with a number that says what it is for. Where nobody has voted, there must be
nothing else. -/
def ofParts (flag : Int) (validator : Bytes) (time : Option Time) (signature : Bytes) :
    Option CommitSignature :=
  if flag = 1 then
    if time.getD noTime = noTime ∧ signature.isEmpty then some absent else none
  else do
    guard (flag = 2 ∨ flag = 3)
    let validator ← (AccountId.ofBytes validator).toOption
    let vote : Vote := { validator, time := ← time, signature := ← Signature.ofBytes? signature }
    return if flag = 2 then forBlock vote else forNone vote

/-- The fields of a signature. -/
def fields : Fields (Option CommitSignature) :=
  ofParts <$> .required "block_id_flag" (.intIn Int32.minValue.toInt Int32.maxValue.toInt)
    <*> .required "validator_address" Chain.hex
    <*> .required "timestamp" (.thenTry (.option .time) fun t => .ok (t.bind Chain.pointInTime?))
    <*> .required "signature" .base64

/-- Writes the parts of a signature. -/
def partsToJson (flag : Nat) (validator : Bytes) (time : Time) (signature : Bytes) : Json :=
  .record
    [("block_id_flag", some (.ofNat flag)), ("validator_address", some (Chain.hexJson validator)),
      ("timestamp", JsonForm.write time), ("signature", some (.ofBytes signature))]

/-- Writes a signature. -/
def toJson : CommitSignature → Json
  | absent => partsToJson 1 [] noTime []
  | forBlock vote => partsToJson 2 vote.validator.bytes vote.time vote.signature.bytes
  | forNone vote => partsToJson 3 vote.validator.bytes vote.time vote.signature.bytes

instance : JsonForm CommitSignature := .total (.narrowed fields.decoder id) toJson

end CommitSignature

/-- No signatures at all are `null`. -/
instance : JsonForm Commit := Members.form <|
  Commit.mk <$> Chain.height "height" Commit.height
    <*> .one "round" (.required "round" (.narrowed (.intIn Int32.minValue.toInt Int32.maxValue.toInt) fun n =>
        UInt32.ofNat <$> n.toNat?)) (fun c => some (.ofNat c.round.toNat))
    <*> .one "block_id" (.required "block_id" JsonForm.read) (fun c => JsonForm.write c.block)
    <*> .one "signatures" (.required "signatures" (.orNull [] JsonForm.read)) fun c =>
      if c.signatures.isEmpty then some .null else JsonForm.write c.signatures

/-! ### Extended headers -/

instance : JsonForm ExtendedHeader := Members.form <|
  ExtendedHeader.mk <$> .need "header" ExtendedHeader.header
    <*> .need "commit" ExtendedHeader.commit
    <*> .need "validator_set" ExtendedHeader.validators
    <*> .need "dah" ExtendedHeader.availability

end Availability
