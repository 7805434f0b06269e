import Availability.Varint

/-!
# Digests that name their function

A digest is often written after a number that says how it was made, and after its size.

* `Multihash` – the number and the digest;
* `Multihash.ofBytes?`, `Multihash.toBytes` – the bytes, in which **nothing may follow** the digest.
-/

namespace Availability

/-- A digest that says how it was made. -/
structure Multihash where
  /-- How the digest was made: 18 for SHA-256 and 0 for what is its own digest. -/
  code : Nat
  /-- The digest. -/
  digest : Bytes
deriving DecidableEq

namespace Multihash

/-- The largest number of bytes of a digest. -/
def maxSize : Nat := 64

/-- The digest of some bytes. -/
def ofBytes? (bs : Bytes) : Option Multihash := do
  let (code, rest) ← Varint.decode? bs
  let (size, digest) ← Varint.decode? rest
  guard (digest.length = size ∧ size ≤ maxSize)
  return { code, digest }

/-- The number, the size of the digest, and the digest. -/
def toBytes (hash : Multihash) : Bytes :=
  Varint.encode hash.code ++ Varint.encode hash.digest.length ++ hash.digest

end Multihash

end Availability
