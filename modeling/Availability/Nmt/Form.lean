import Availability.Json.Form
import Availability.Nmt.Proof

/-!
# Proofs of namespaced trees in JSON

Every field may be missing. What the proof is meant to show is told by the hash of the leaf: it is
empty in a proof of presence.

* `NamespaceProof.ofParts` – the proof of signed numbers and of bytes **that should be hashes**;
* `NamespaceProof.decoder`, `NamespaceProof.toJson` – the form of proofs.
-/

namespace Availability

namespace NamespacedHash

/-- Reads a list of hashes in base64, or `null` for none. -/
def listDecoder : Decoder (List NamespacedHash) :=
  .refined .base64List fun hashes => hashes.mapM ofBytes

/-- Writes a hash in base64. -/
def toJson (hash : NamespacedHash) : Json :=
  .ofBytes hash.toBytes

end NamespacedHash

namespace NamespaceProof

/-- A number of a leaf, if it has at most 32 bits. -/
def leafNumber (fault : Int → Malformation) (n : Int) : Except Error UInt32 :=
  if 0 ≤ n ∧ n < UInt32.size then .ok (.ofNat n.toNat) else .error (.malformed (fault n))

/-- Makes a proof of its parts. -/
def ofParts (start stop : Int) (nodes : List Bytes) (leaf : Bytes) (ignoreMax : Bool) :
    Except Error NamespaceProof := do
  let start ← leafNumber .rangeStart start
  let stop ← leafNumber .rangeEnd stop
  let nodes ← nodes.mapM NamespacedHash.ofBytes
  let goal ← if leaf.isEmpty then pure .presence else (.absence ∘ some) <$> NamespacedHash.ofBytes leaf
  return { goal, start, stop, nodes, ignoreMax }

/-- The fields of a proof. -/
def fields : Fields (Except Error NamespaceProof) :=
  ofParts <$> .withDefault "start" 0 .int64 <*> .withDefault "end" 0 .int64
    <*> .withDefault "nodes" [] .base64List <*> .withDefault "leaf_hash" [] .base64
    <*> .withDefault "is_max_namespace_ignored" false .bool

/-- Reads a proof. -/
def decoder : Decoder NamespaceProof :=
  .refined fields.decoder id

/-- Writes a proof. -/
def toJson (proof : NamespaceProof) : Json :=
  .obj
    [("start", .ofNat proof.start.toNat), ("end", .ofNat proof.stop.toNat),
      ("nodes", .ofList NamespacedHash.toJson proof.nodes),
      ("leaf_hash", .ofBytes ((proof.leaf?.map NamespacedHash.toBytes).getD [])),
      ("is_max_namespace_ignored", .bool proof.ignoreMax)]

instance : JsonForm NamespaceProof := .total decoder toJson

end NamespaceProof

end Availability
