import Availability.Account.Form

/-!
# Transactions

* `TxResult` – what became of a transaction, as the node reports it; whatever the report leaves
  out is empty;
* `TxConfig` – how a transaction is to be paid for and signed.
-/

namespace Availability

/-! ### Results -/

/-- One attribute of an event. -/
structure EventAttribute where
  /-- What the attribute is about. -/
  key : String
  /-- Its value. -/
  value : String
  /-- Whether nodes find the event by it. -/
  index : Bool
deriving DecidableEq

instance : JsonForm EventAttribute := Members.form <|
  EventAttribute.mk <$> .orElse "key" "" EventAttribute.key
    <*> .orElse "value" "" EventAttribute.value <*> .mark "index" EventAttribute.index

/-- Something that happened while a transaction was run. -/
structure Event where
  /-- What happened. -/
  kind : String
  /-- Its details. -/
  attributes : List EventAttribute
deriving DecidableEq

instance : JsonForm Event := Members.form <|
  Event.mk <$> .orElse "type" "" Event.kind <*> .list "attributes" Event.attributes

/-- What happened while one message of a transaction was run. -/
structure MessageLog where
  /-- The number of the message. -/
  message : UInt32
  /-- What was noted. -/
  log : String
  /-- What happened. -/
  events : List Event
deriving DecidableEq

instance : JsonForm MessageLog := Members.form <|
  MessageLog.mk <$> .orElse "msg_index" 0 MessageLog.message <*> .orElse "log" "" MessageLog.log
    <*> .list "events" MessageLog.events

/-- What became of a transaction. -/
structure TxResult where
  /-- The height of the block that the transaction is in. -/
  height : UInt64
  /-- The hash of the transaction. -/
  hash : String
  /-- Whose codes the code is one of. -/
  codespace : String
  /-- Zero, or why the transaction failed. -/
  code : UInt32
  /-- What the messages answered. -/
  data : String
  /-- What was noted. -/
  rawLog : String
  /-- What happened in each message. -/
  logs : List MessageLog
  /-- What else is known. -/
  info : String
  /-- The gas that was asked for. -/
  gasWanted : Int64
  /-- The gas that was used. -/
  gasUsed : Int64
  /-- When the transaction was run. -/
  timestamp : String
  /-- What happened in the transaction. -/
  events : List Event
deriving DecidableEq

namespace TxResult

/-- Whether the transaction took effect. -/
def isSuccess (result : TxResult) : Bool :=
  result.code = 0

instance : JsonForm TxResult := Members.form <|
  TxResult.mk <$> .orElse "height" 0 TxResult.height <*> .orElse "txhash" "" TxResult.hash
    <*> .orElse "codespace" "" TxResult.codespace <*> .orElse "code" 0 TxResult.code
    <*> .orElse "data" "" TxResult.data <*> .orElse "raw_log" "" TxResult.rawLog
    <*> .list "logs" TxResult.logs <*> .orElse "info" "" TxResult.info
    <*> .orElse "gas_wanted" 0 TxResult.gasWanted <*> .orElse "gas_used" 0 TxResult.gasUsed
    <*> .orElse "timestamp" "" TxResult.timestamp <*> .list "events" TxResult.events

end TxResult

/-! ### Configuration -/

/-- How a transaction is to be paid for and signed. What is not given is left to the node. -/
structure TxConfig where
  /-- The account that signs. -/
  signer : Option AccountAddress
  /-- The name of the key that signs. -/
  keyName : Option String
  /-- The largest amount of gas. -/
  gas : Option UInt64
  /-- The account that pays the fee. -/
  feeGranter : Option AccountAddress
  /-- The price of gas. It is negative when the node is to choose it. -/
  gasPrice : Float
  /-- Whether a price was given. -/
  isGasPriceSet : Bool

namespace TxConfig

/-- Everything is left to the node. -/
def default : TxConfig :=
  { signer := none, keyName := none, gas := none, feeGranter := none, gasPrice := -1,
    isGasPriceSet := false }

/-- The configuration with a price of gas. What is no price is passed over. -/
def withGasPrice (config : TxConfig) (price : Float) : TxConfig :=
  if price ≥ 0 then { config with gasPrice := price, isGasPriceSet := true } else config

/-- Whether two configurations agree. -/
def beq (a b : TxConfig) : Bool :=
  a.signer = b.signer && a.keyName = b.keyName && a.gas = b.gas && a.feeGranter = b.feeGranter &&
    a.gasPrice == b.gasPrice && a.isGasPriceSet == b.isGasPriceSet

instance : BEq TxConfig := ⟨beq⟩

/-- Makes a configuration of what a node sends. It sends an empty name and no gas for what is left
to it. -/
def ofParts (gasPrice : Float) (isGasPriceSet : Bool) (gas : Option UInt64)
    (keyName : Option String) (signer feeGranter : Option AccountAddress) : TxConfig :=
  { signer, keyName := keyName.filter (· ≠ ""), gas := gas.filter (· ≠ 0), feeGranter, gasPrice,
    isGasPriceSet }

instance : JsonForm TxConfig := Members.form <|
  ofParts <$> .orElse "gas_price" (-1) TxConfig.gasPrice
    <*> .mark "is_gas_price_set" TxConfig.isGasPriceSet <*> .optional "gas" TxConfig.gas
    <*> .optional "key_name" TxConfig.keyName <*> .optional "signer_address" TxConfig.signer
    <*> .optional "fee_granter_address" TxConfig.feeGranter

end TxConfig

end Availability
