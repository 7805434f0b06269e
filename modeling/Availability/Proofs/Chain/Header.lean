import Availability.Chain.Header
import Availability.Chain.Validator
import Availability.Proofs.Wire

/-!
# What the records of a header tell

A header is hashed field by field, each written as a record that leaves out what has the value by
default. So a record does not tell its field by itself: zero seconds are not written, nor is the
reference to no block. It is the kind of each field that leaves no doubt, as no two values of it are
written alike.

* `BlockHeader.Matches`, `BlockHeader.matches_of_leaves_eq` – what two headers with the same records
  have **in common**;
* `Validator.toRecord_injective` – a record of a validator is that of **no other one**, though its
  account is left out.
-/

namespace Availability

/-! ### Points in time -/

namespace Time

/-- Different points in time have different seconds or nanoseconds since 1970, too. -/
theorem eq_of_unixSeconds_eq {a b : Time} (hseconds : a.unixSeconds = b.unixSeconds)
    (hnanos : a.nanos = b.nanos) : a = b := by
  unfold unixSeconds at hseconds
  exact ext (by omega) hnanos

theorem isInt64_unixSeconds (t : Time) : Wire.IsInt64 t.unixSeconds := by
  have := t.seconds_lt
  unfold Wire.IsInt64 unixSeconds
  omega

theorem isInt64_nanos (t : Time) : Wire.IsInt64 t.nanos := by
  have := t.nanos_lt
  unfold Wire.IsInt64
  omega

end Time

theorem Height.isInt64 (height : Height) : Wire.IsInt64 height.val := by
  have : height.val < 2 ^ 63 := height.isLt
  unfold Wire.IsInt64
  omega

/-! ### References and names -/

theorem ChainId.ext {a b : ChainId} (h : a.text = b.text) : a = b := by
  cases a; cases b; simp_all

theorem HeaderHash.bytes_injective : Function.Injective HeaderHash.bytes := by
  have hne (d : Digest) : d.bytes ≠ [] :=
    List.ne_nil_of_length_pos (by rw [d.length_bytes]; decide)
  rintro (_ | d) (_ | d') h
  · rfl
  · exact absurd h.symm (hne d')
  · exact absurd h (hne d)
  · exact congrArg some (Digest.ext h)

/-- The record of a reference tells the hash that it refers to. -/
theorem BlockId.hash_eq_of_toRecord_eq {a b : BlockId} (h : a.toRecord = b.toRecord) :
    a.hash = b.hash := by
  have hparts (content : Bytes) : ¬Wire.Tagged 1 2 (Wire.nested 2 content) :=
    Wire.not_tagged_nested (by decide) content
  exact HeaderHash.bytes_injective (Wire.bytes_append_inj (hparts _) (hparts _) h).1

/-! ### Headers -/

namespace BlockHeader

/-- The hash of the header before this one, by the reference that is hashed. -/
theorem lastHash_eq (header : BlockHeader) :
    header.lastHash = (header.lastBlock.getD .empty).hash := by
  rw [lastHash]
  cases header.lastBlock <;> rfl

/-- Two headers are at the same place of the same chain, with the same data and validators. -/
structure Matches (a b : BlockHeader) : Prop where
  /-- They are of one chain. -/
  chain_eq : a.chain = b.chain
  /-- They are at the same height. -/
  height_eq : a.height = b.height
  /-- They were made at the same time. -/
  time_eq : a.time = b.time
  /-- They name the same data root. -/
  dataHash_eq : a.dataHash = b.dataHash
  /-- They name the same validators. -/
  validatorsHash_eq : a.validatorsHash = b.validatorsHash
  /-- They come after the same header. -/
  lastHash_eq : a.lastHash = b.lastHash

/-- **Headers with the same records match.** -/
theorem matches_of_leaves_eq {a b : BlockHeader} (h : a.leaves = b.leaves) : Matches a b := by
  have hleaf (i : Nat) := congrArg (·[i]?) h
  have hchain := Option.some.inj (hleaf 1)
  have hheight := Option.some.inj (hleaf 2)
  have htime := Option.some.inj (hleaf 3)
  have hlast := Option.some.inj (hleaf 4)
  have hdata := Option.some.inj (hleaf 6)
  have hvalidators := Option.some.inj (hleaf 7)
  constructor
  case chain_eq => exact ChainId.ext (Wire.text_injective 1 hchain)
  case height_eq =>
    have heq := Wire.number_injective
      (Wire.eq_of_toNat_emod_eq a.height.isInt64 b.height.isInt64) hheight
    exact Fin.ext (Int.ofNat.inj heq)
  case time_eq =>
    have hnanos (t : Time) : ¬Wire.Tagged 1 0 (Wire.number 2 t.nanos) :=
      Wire.not_tagged_number (by decide) _
    obtain ⟨hseconds, hrest⟩ := Wire.number_append_inj
      (Wire.eq_of_toNat_emod_eq a.time.isInt64_unixSeconds b.time.isInt64_unixSeconds)
      (hnanos a.time) (hnanos b.time) htime
    have heq := Wire.number_injective
      (Wire.eq_of_toNat_emod_eq a.time.isInt64_nanos b.time.isInt64_nanos) hrest
    exact Time.eq_of_unixSeconds_eq hseconds (Int.ofNat.inj heq)
  case dataHash_eq => exact HeaderHash.bytes_injective (Wire.bytes_injective 1 hdata)
  case validatorsHash_eq => exact HeaderHash.bytes_injective (Wire.bytes_injective 1 hvalidators)
  case lastHash_eq =>
    rw [BlockHeader.lastHash_eq, BlockHeader.lastHash_eq]
    exact BlockId.hash_eq_of_toRecord_eq hlast

end BlockHeader

/-! ### Validators -/

/-- **A record is that of one validator**: it has the key and the power, and the account follows
from the key. -/
theorem Validator.toRecord_injective : Function.Injective Validator.toRecord := by
  intro a b h
  obtain ⟨hkey, hpower⟩ := Wire.nested_append_inj h
  have hkey : a.key = b.key := PublicKey.ext (Wire.bytes_injective 1 hkey)
  have hpower : a.power = b.power :=
    UInt64.toNat_inj.mp (Int.ofNat.inj
      (Wire.number_injective Wire.toNat_eq_of_toNat_emod_eq hpower))
  have haddress : a.address = b.address := by rw [a.address_eq, b.address_eq, hkey]
  cases a
  cases b
  simp_all

end Availability
