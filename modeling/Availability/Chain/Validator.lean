import Availability.Account.Address
import Availability.Merkle.Tree
import Availability.Wire

/-!
# Validators

The validators of a block vote on it with the weight of their power. A header commits to them by
the root of a Merkle tree over their keys and powers.

* `Validator` – a key and its power; the **address follows from the key**;
* `ValidatorSet` – a set lists **the most powerful validators first**, and those of equal power by
  address;
* `ValidatorSet.make?` – a set has a bounded power;
* `ValidatorSet.hash` – the root.
-/

namespace Availability

/-- The key with which the signatures of a validator are checked. -/
structure PublicKey where
  /-- The bytes of the key. -/
  bytes : Bytes
  /-- A key has 32 bytes. -/
  length_bytes : bytes.length = 32

theorem PublicKey.ext {a b : PublicKey} (h : a.bytes = b.bytes) : a = b := by
  cases a; cases b; simp_all

instance : DecidableEq PublicKey := fun a b =>
  decidable_of_iff (a.bytes = b.bytes) ⟨PublicKey.ext, fun h => h ▸ rfl⟩

/-- The key of some bytes, if they are one. -/
def PublicKey.ofBytes? (bs : Bytes) : Option PublicKey :=
  if h : bs.length = 32 then some ⟨bs, h⟩ else none

/-- The account of a key: the first bytes of its hash. -/
def PublicKey.account (key : PublicKey) : AccountId :=
  ⟨(sha256 key.bytes).bytes.take 20, by simp [(sha256 key.bytes).length_bytes]⟩

/-- A validator. -/
structure Validator where
  /-- The account. -/
  address : AccountId
  /-- The key. -/
  key : PublicKey
  /-- The weight of the vote. -/
  power : UInt64
  /-- The account is that of the key. -/
  address_eq : address = key.account
deriving DecidableEq

namespace Validator

/-- Whether a validator comes before another one, or is level with it. -/
def precedes (a b : Validator) : Bool :=
  b.power < a.power || (a.power == b.power && a.address.bytes ≤ b.address.bytes)

/-- The record of a validator. It does not have the address, which follows from the key. -/
def toRecord (v : Validator) : Bytes :=
  Wire.nested 1 (Wire.bytes 1 v.key.bytes) ++ Wire.number 2 v.power.toNat

end Validator

/-- The validators of a block. -/
structure ValidatorSet where
  /-- The validators, in order. -/
  validators : List Validator
  /-- The validator that proposed the block, where it is named. -/
  proposer : Option Validator
deriving DecidableEq

namespace ValidatorSet

/-- The power of all validators together. -/
def totalPower (set : ValidatorSet) : Nat :=
  (set.validators.map fun v => v.power.toNat).foldr (· + ·) 0

/-- The largest power that validators may have together: an eighth of the largest signed 64-bit
number, so that sums and differences of powers stay far from the ends. -/
def maxTotalPower : Nat := 0xfffffffffffffff

/-- The set of the given validators, unless they are too powerful together. -/
def make? (validators : List Validator) (proposer : Option Validator) : Option ValidatorSet :=
  let set : ValidatorSet := { validators := validators.mergeSort Validator.precedes, proposer }
  if set.totalPower ≤ maxTotalPower then some set else none

/-- Whether the set has the power that was declared for it. A declared power of zero says
nothing. -/
def hasDeclared (set : ValidatorSet) (power : Int) : Bool :=
  power = 0 || power = set.totalPower

/-- The hash by which a header commits to the set. It is the library of consensus that defines it,
and what is relied on is that it tells who the validators are. -/
def hash (set : ValidatorSet) : Digest :=
  Merkle.root (set.validators.map Validator.toRecord)

end ValidatorSet

end Availability
