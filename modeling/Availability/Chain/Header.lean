import Availability.Account.Address
import Availability.Merkle.Tree
import Availability.Wire

/-!
# Block headers

Consensus agrees on blocks by their headers. A header names its chain and height, the block before
it, and the hashes of everything that belongs to the block.

* `ChainId` – the name of a chain;
* `Height` – the place of a block in its chain, as a signed 64-bit number that is **not negative**;
* `BlockId` – how one block refers to another one;
* `BlockHeader`, with `BlockHeader.hash` – **the root of the Merkle tree over its fields**, each of
  them written as a record of its own.
-/

namespace Availability

/-- The name of a chain. -/
structure ChainId where
  /-- The name. -/
  text : String
  /-- A name has 1 to 50 letters, digits, `-`, `_` and `.`. -/
  isName : 1 ≤ text.length ∧ text.length ≤ 50 ∧
    text.toList.all fun c => c.isAlphanum || c = '-' || c = '_' || c = '.'
deriving DecidableEq

/-- The chain of a name, if it is one. -/
def ChainId.parse? (text : String) : Option ChainId :=
  if h : _ then some ⟨text, h⟩ else none

/-- The place of a block in its chain. -/
abbrev Height := Fin 0x8000000000000000

/-- The height of a number, if it is one. -/
def Height.ofInt? (n : Int) : Option Height :=
  if h : 0 ≤ n ∧ n.toNat < 0x8000000000000000 then some ⟨n.toNat, h.2⟩ else none

/-! ### References to blocks -/

/-- The parts that a block is sent in. -/
structure PartSet where
  /-- The number of parts. -/
  total : UInt32
  /-- The root of the Merkle tree over the parts. -/
  hash : HeaderHash
deriving DecidableEq

/-- How one block refers to another one. -/
structure BlockId where
  /-- The hash of the header. -/
  hash : HeaderHash
  /-- The parts of the block. -/
  parts : PartSet
deriving DecidableEq

namespace HeaderHash

/-- The bytes of a hash. The empty hash has none. -/
def bytes : HeaderHash → Bytes
  | some d => d.bytes
  | none => []

end HeaderHash

namespace BlockId

/-- The reference to no block. -/
def empty : BlockId :=
  { hash := none, parts := { total := 0, hash := none } }

/-- The record of a reference. -/
def toRecord (block : BlockId) : Bytes :=
  Wire.bytes 1 block.hash.bytes ++
    Wire.nested 2 (Wire.number 1 block.parts.total.toNat ++ Wire.bytes 2 block.parts.hash.bytes)

end BlockId

/-! ### Headers -/

/-- The versions of the rules that a block follows. -/
structure BlockVersion where
  /-- The version of the rules of consensus. -/
  block : UInt64
  /-- The version of the application. -/
  app : UInt64
deriving DecidableEq

/-- The header of a block. -/
structure BlockHeader where
  /-- The rules that the block follows. -/
  version : BlockVersion
  /-- The chain. -/
  chain : ChainId
  /-- The height in the chain. -/
  height : Height
  /-- When the block was made. -/
  time : Time
  /-- The block before this one, unless this is the first. -/
  lastBlock : Option BlockId
  /-- The hash of the commit of the block before. -/
  lastCommitHash : HeaderHash
  /-- The data root. -/
  dataHash : HeaderHash
  /-- The hash of the validators of this block. -/
  validatorsHash : HeaderHash
  /-- The hash of the validators of the next block. -/
  nextValidatorsHash : HeaderHash
  /-- The hash of the parameters of consensus. -/
  consensusHash : HeaderHash
  /-- The hash of the state of the application. -/
  appHash : Bytes
  /-- The hash of the results of the block before. -/
  lastResultsHash : HeaderHash
  /-- The hash of the evidence of misbehaviour. -/
  evidenceHash : HeaderHash
  /-- The validator that proposed the block. -/
  proposer : AccountId
deriving DecidableEq

namespace BlockHeader

/-- The records of the fields, in order. -/
def leaves (header : BlockHeader) : List Bytes :=
  [Wire.number 1 header.version.block.toNat ++ Wire.number 2 header.version.app.toNat,
    Wire.text 1 header.chain.text,
    Wire.number 1 header.height.val,
    Wire.number 1 header.time.unixSeconds ++ Wire.number 2 header.time.nanos,
    (header.lastBlock.getD .empty).toRecord,
    Wire.bytes 1 header.lastCommitHash.bytes,
    Wire.bytes 1 header.dataHash.bytes,
    Wire.bytes 1 header.validatorsHash.bytes,
    Wire.bytes 1 header.nextValidatorsHash.bytes,
    Wire.bytes 1 header.consensusHash.bytes,
    Wire.bytes 1 header.appHash,
    Wire.bytes 1 header.lastResultsHash.bytes,
    Wire.bytes 1 header.evidenceHash.bytes,
    Wire.bytes 1 header.proposer.bytes]

/-- The hash that other blocks and commits refer to the header by. It is the library of consensus
that defines it, and what is relied on is that it tells what is in the header. -/
def hash (header : BlockHeader) : Digest :=
  Merkle.root header.leaves

/-- Whether the first header of a chain refers to a block before it, which can not be. -/
def hasBlockBeforeFirst (header : BlockHeader) : Bool :=
  header.height.val = 1 && header.lastBlock.isSome

/-- The hash of the header before this one. -/
def lastHash (header : BlockHeader) : HeaderHash :=
  header.lastBlock.bind BlockId.hash

end BlockHeader

end Availability
