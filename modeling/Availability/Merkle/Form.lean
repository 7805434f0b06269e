import Availability.Json.Form
import Availability.Merkle.Proof

/-!
# Merkle proofs in JSON

The index and the number of leaves are signed 64-bit numbers, of which the first has to be at least
0 and the second at least 1; digests are in base64.

* `MerkleProof.ofParts` – the proof of such numbers and of bytes **that should be digests**;
* `MerkleProof.decoder`, `MerkleProof.toJson` – the form of proofs.
-/

namespace Availability.MerkleProof

/-- The digest of some bytes, if it is one. -/
def digest (bs : Bytes) : Except Error Digest :=
  if h : bs.length = 32 then .ok ⟨bs, h⟩ else .error (.malformed .hashWidth)

/-- Makes a proof of its parts. -/
def ofParts (total index : Int) (leafHash : Bytes) (aunts : List Bytes) :
    Except Error MerkleProof := do
  if index < 0 then throw (.malformed .negativeIndex)
  if total ≤ 0 then throw (.malformed .noLeaves)
  let leafHash ← digest leafHash
  let aunts ← aunts.mapM digest
  return { index := index.toNat, total := total.toNat, leafHash, aunts }

/-- The fields of a proof. -/
def fields : Fields (Except Error MerkleProof) :=
  ofParts <$> .required "total" .int64 <*> .required "index" .int64
    <*> .required "leaf_hash" .base64 <*> .withDefault "aunts" [] .base64List

/-- Reads a proof. -/
def decoder : Decoder MerkleProof :=
  .refined fields.decoder id

/-- Writes a proof. -/
def toJson (proof : MerkleProof) : Json :=
  .obj
    [("total", .ofNat proof.total), ("index", .ofNat proof.index),
      ("leaf_hash", .ofBytes proof.leafHash.bytes),
      ("aunts", .ofList (fun aunt => .ofBytes aunt.bytes) proof.aunts)]

instance : JsonForm MerkleProof := .total decoder toJson

end Availability.MerkleProof
