import Availability.Json.Form
import Availability.Network.Multihash
import Availability.Text.Radix

/-!
# Peers

A peer is known by a digest of its public key, or by the key itself if it is short.

* `PeerId` – the digest or the key;
* `PeerId.parse?`, `PeerId.toText` – the text form, in base 58.
-/

namespace Availability

/-- What a peer is known by. -/
structure PeerId where
  /-- The digest of the key, or the key. -/
  hash : Multihash
deriving DecidableEq

namespace PeerId

/-- Whether a digest may be that of a peer: it is made by SHA-256, or is a short key. -/
def isAllowed (hash : Multihash) : Bool :=
  hash.code = 18 || (hash.code = 0 && hash.digest.length ≤ 42)

/-- The peer of some bytes. -/
def ofBytes? (bs : Bytes) : Option PeerId := do
  let hash ← Multihash.ofBytes? bs
  guard (isAllowed hash)
  return ⟨hash⟩

/-- Reads a peer. -/
def parse? (text : String) : Option PeerId :=
  Radix.decode? Radix.base58 text.toList >>= ofBytes?

/-- The text of a peer. -/
def toText (peer : PeerId) : String :=
  Radix.encode Radix.base58 peer.hash.toBytes

instance : JsonForm PeerId := .ofText parse? toText

end PeerId

end Availability
