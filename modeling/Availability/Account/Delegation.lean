import Availability.Account.Form

/-!
# Delegations

What a node answers about the coins that an account has delegated to validators: those that are
delegated, those that are being given back, and those that are being moved to another validator.

* `DelegationAnswer`, `UnbondingAnswer`, `RedelegationAnswer` – the answers, with their JSON forms;
* `Page` – where a long answer goes on.
-/

namespace Availability

/-! ### Delegated coins -/

/-- The part that an account has in what is delegated to a validator. -/
structure Delegation where
  /-- The account. -/
  delegator : AccountAddress
  /-- The validator. -/
  validator : ValidatorAddress
  /-- The size of the part, as a decimal. -/
  shares : String
deriving DecidableEq

instance : JsonForm Delegation := Members.form <|
  Delegation.mk <$> .need "delegator_address" Delegation.delegator
    <*> .need "validator_address" Delegation.validator <*> .need "shares" Delegation.shares

/-- A part, and the coins that it is worth. -/
structure ValuedDelegation where
  /-- The part. -/
  delegation : Delegation
  /-- The coins. -/
  balance : Balance
deriving DecidableEq

instance : JsonForm ValuedDelegation := Members.form <|
  ValuedDelegation.mk <$> .need "delegation" ValuedDelegation.delegation
    <*> .need "balance" ValuedDelegation.balance

/-- The answer about coins that are delegated. -/
structure DelegationAnswer where
  /-- What is delegated. -/
  delegation : ValuedDelegation
deriving DecidableEq

instance : JsonForm DelegationAnswer := Members.form <|
  DelegationAnswer.mk <$> .need "delegation_response" DelegationAnswer.delegation

/-! ### Coins that are being given back -/

/-- Coins that are being given back. -/
structure Unbonding where
  /-- The height at which this began. -/
  height : UInt64
  /-- When the coins are free. -/
  completion : Time
  /-- The coins at first. -/
  initialBalance : Amount
  /-- The coins now. -/
  balance : Amount
deriving DecidableEq

instance : JsonForm Unbonding := Members.form <|
  Unbonding.mk <$> .orElse "creation_height" 0 Unbonding.height
    <*> .need "completion_time" Unbonding.completion
    <*> .need "initial_balance" Unbonding.initialBalance <*> .need "balance" Unbonding.balance

/-- The coins that an account gets back from a validator. -/
structure UnbondingDelegation where
  /-- The account. -/
  delegator : AccountAddress
  /-- The validator. -/
  validator : ValidatorAddress
  /-- The coins. -/
  entries : List Unbonding
deriving DecidableEq

instance : JsonForm UnbondingDelegation := Members.form <|
  UnbondingDelegation.mk <$> .need "delegator_address" UnbondingDelegation.delegator
    <*> .need "validator_address" UnbondingDelegation.validator
    <*> .list "entries" UnbondingDelegation.entries

/-- The answer about coins that are being given back. -/
structure UnbondingAnswer where
  /-- What is being given back. -/
  unbonding : UnbondingDelegation
deriving DecidableEq

instance : JsonForm UnbondingAnswer := Members.form <|
  UnbondingAnswer.mk <$> .need "unbond" UnbondingAnswer.unbonding

/-! ### Coins that are being moved -/

/-- Coins that are being moved to another validator. -/
structure Moving where
  /-- The height at which this began. -/
  height : UInt64
  /-- When the coins have been moved. -/
  completion : Time
  /-- The coins at first. -/
  initialBalance : Amount
  /-- The size of the part that the coins give, as a decimal. -/
  shares : String
deriving DecidableEq

instance : JsonForm Moving := Members.form <|
  Moving.mk <$> .orElse "creation_height" 0 Moving.height
    <*> .need "completion_time" Moving.completion
    <*> .need "initial_balance" Moving.initialBalance <*> .need "shares_dst" Moving.shares

/-- Coins that are being moved, and what they are worth now. -/
structure ValuedMoving where
  /-- The coins that are being moved. -/
  moving : Moving
  /-- What they are worth. -/
  balance : Amount
deriving DecidableEq

instance : JsonForm ValuedMoving := Members.form <|
  ValuedMoving.mk <$> .need "redelegation_entry" ValuedMoving.moving
    <*> .need "balance" ValuedMoving.balance

/-- What an account moves from one validator to another. -/
structure Redelegation where
  /-- The account. -/
  delegator : AccountAddress
  /-- The validator that the coins come from. -/
  source : ValidatorAddress
  /-- The validator that the coins go to. -/
  destination : ValidatorAddress
  /-- The coins. -/
  entries : List Moving
deriving DecidableEq

instance : JsonForm Redelegation := Members.form <|
  Redelegation.mk <$> .need "delegator_address" Redelegation.delegator
    <*> .need "validator_src_address" Redelegation.source
    <*> .need "validator_dst_address" Redelegation.destination
    <*> .list "entries" Redelegation.entries

/-- What an account moves from one validator to another, and what it is worth now. -/
structure ValuedRedelegation where
  /-- What is moved. -/
  redelegation : Redelegation
  /-- The coins with what they are worth. -/
  entries : List ValuedMoving
deriving DecidableEq

instance : JsonForm ValuedRedelegation := Members.form <|
  ValuedRedelegation.mk <$> .need "redelegation" ValuedRedelegation.redelegation
    <*> .list "entries" ValuedRedelegation.entries

/-- Where a long answer goes on. -/
structure Page where
  /-- The key with which the next page is asked for. -/
  nextKey : Bytes
  /-- The number of all items. -/
  total : UInt64
deriving DecidableEq

instance : JsonForm Page := Members.form <|
  Page.mk <$> .one "next_key" (.withDefault "next_key" [] .base64) (fun p => some (.ofBytes p.nextKey))
    <*> .orElse "total" 0 Page.total

/-- The answer about coins that are being moved. -/
structure RedelegationAnswer where
  /-- What is moved. -/
  redelegations : List ValuedRedelegation
  /-- Where the answer goes on, if it does. -/
  page : Option Page
deriving DecidableEq

instance : JsonForm RedelegationAnswer := Members.form <|
  RedelegationAnswer.mk <$> .list "redelegation_responses" RedelegationAnswer.redelegations
    <*> .optional "pagination" RedelegationAnswer.page

end Availability
