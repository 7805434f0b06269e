import Availability.Chain.Commit
import Availability.Chain.Validator
import Availability.Square.Header

/-!
# Extended headers

A node serves the header of a block together with the commit, the validators and the availability
header that belong to it.

* `ExtendedHeader.validate` – the parts **belong together**, as far as that shows in hashes and
  heights. Signatures are not checked;
* `ExtendedHeader.verifyAdjacent`, `ExtendedHeader.verifyRange` – headers **follow on each other**:
  each one refers to the hash of the one before.
-/

namespace Availability

/-- A header with the parts of the block that it commits to. -/
structure ExtendedHeader where
  /-- The header of the block. -/
  header : BlockHeader
  /-- The commit of the block. -/
  commit : Commit
  /-- The validators of the block. -/
  validators : ValidatorSet
  /-- The availability header of the block. -/
  availability : AvailabilityHeader
deriving DecidableEq

namespace ExtendedHeader

/-! ### Parts -/

/-- The height of the block. -/
def height (h : ExtendedHeader) : Nat :=
  h.header.height.val

/-- The hash that the commit gives the block. -/
def hash (h : ExtendedHeader) : HeaderHash :=
  h.commit.block.hash

/-- The version of the application of the block, or the newest one where it is not known. -/
def appVersion (h : ExtendedHeader) : AppVersion :=
  (AppVersion.ofNat? h.header.version.app.toNat).getD .latest

/-- The words that describe the header. -/
def describe (h : ExtendedHeader) : String :=
  s!"hash: {h.hash.toText}; height: {h.height}"

/-! ### One header -/

/-- Checks that the parts belong together. -/
def validate (h : ExtendedHeader) : Except Malformation Unit := do
  if h.header.validatorsHash ≠ some h.validators.hash then
    throw (.validators (some h.validators.hash) h.header.validatorsHash)
  if h.header.dataHash ≠ some h.availability.hash then
    throw (.dataHash h.availability.hash h.header.dataHash)
  if h.commit.height.val ≠ h.height then throw (.commitHeight h.commit.height.val h.height)
  if h.hash ≠ some h.header.hash then throw (.commitHash h.hash (some h.header.hash))
  h.availability.validate h.appVersion

/-- Checks that the parts of each header belong together. -/
def validateAll (hs : List ExtendedHeader) : Except Malformation Unit :=
  hs.forM validate

/-! ### Chains of headers -/

/-- Checks that a header comes right after a trusted one. -/
def verifyAdjacent (trusted next : ExtendedHeader) : Except Refutation Unit := do
  if next.height ≠ trusted.height + 1 then throw (.height next.height trusted.height)
  if next.header.chain ≠ trusted.header.chain then
    throw (.chain next.header.chain.text trusted.header.chain.text)
  if ¬trusted.header.time < next.header.time then
    throw (.time next.header.time trusted.header.time)
  if next.header.validatorsHash ≠ trusted.header.nextValidatorsHash then
    throw (.nextValidators trusted.header.nextValidatorsHash next.header.validatorsHash)
  if next.header.lastHash ≠ trusted.hash then throw (.lastHeader trusted.hash next.header.lastHash)

/-- Checks that headers come one after the other, right after a trusted one. -/
def verifyRange : (trusted : ExtendedHeader) → List ExtendedHeader → Except Refutation Unit
  | _, [] => .ok ()
  | trusted, next :: rest => do
    verifyAdjacent trusted next
    verifyRange next rest

end ExtendedHeader

end Availability
