import Availability.Chain.Header

/-!
# Commits

A block is final once enough validators have signed it. Their votes are its commit, one for each
validator of the block.

* `Signature`, `Vote` – what a validator has signed;
* `CommitSignature` – a validator votes for the block, for no block, or not at all;
* `Commit` – the votes on one block.
-/

namespace Availability

/-- The signature of a vote. -/
structure Signature where
  /-- The bytes of the signature. -/
  bytes : Bytes
  /-- A signature has 64 bytes. -/
  length_bytes : bytes.length = 64
deriving DecidableEq

/-- The signature of some bytes, if they are one. -/
def Signature.ofBytes? (bs : Bytes) : Option Signature :=
  if h : bs.length = 64 then some ⟨bs, h⟩ else none

/-- A vote of a validator. -/
structure Vote where
  /-- The validator. -/
  validator : AccountId
  /-- When it voted. -/
  time : Time
  /-- The signature. -/
  signature : Signature
deriving DecidableEq

/-- What one validator has contributed to a commit. -/
inductive CommitSignature where
  /-- It did not vote. -/
  | absent
  /-- It voted for the block. -/
  | forBlock (vote : Vote)
  /-- It voted for no block. -/
  | forNone (vote : Vote)
deriving DecidableEq

/-- The votes on a block. -/
structure Commit where
  /-- The height of the block. -/
  height : Height
  /-- The round of voting in which the block was accepted. -/
  round : UInt32
  /-- The block. -/
  block : BlockId
  /-- The votes. -/
  signatures : List CommitSignature
deriving DecidableEq

end Availability
