import Availability.Blob.Proof
import Availability.Namespace.Form
import Availability.Square.Form

/-!
# Blobs in JSON

* `Commitment.decoder` – a commitment is padded base64 text of 32 bytes;
* `Blob.decoder` – a blob has to be **allowed**, but its commitment is not compared with its data;
* `Blob.toJson?` – an index that is no signed 64-bit number can not be written;
* `CommitmentProof` – the version and the id of the namespace are written apart;
* `PublishedBlobs` – what a subscription to a namespace answers with.
-/

namespace Availability

/-! ### Blobs -/

namespace Commitment

/-- The commitment of some bytes. -/
def ofBytes (bs : Bytes) : Except Error Commitment :=
  if h : bs.length = 32 then .ok ⟨bs, h⟩ else .error (.hashSize bs.length)

/-- The bytes of a padded base64 text, of which there may be at most 64. -/
def bytes? (text : String) : Option Bytes :=
  (Base64.decode? text).filter (·.length ≤ 64)

/-- Reads a commitment. -/
def decoder : Decoder Commitment :=
  .refined (.narrowed .string bytes?) ofBytes

/-- Writes a commitment. -/
def toJson (commitment : Commitment) : Json :=
  .str commitment.toBase64

end Commitment

instance : JsonForm Commitment := .total Commitment.decoder Commitment.toJson

namespace Blob

/-- The index of a blob, for which a negative number stands when it is not known. -/
def indexOf (n : Option Int) : Option UInt64 :=
  (n.filter (0 ≤ ·)).map fun n => .ofNat n.toNat

/-- Makes an allowed blob of its parts. -/
def ofParts (ns : Namespace) (data : Bytes) (version : UInt8) (commitment : Commitment)
    (index : Option Int) : Except Error Blob := do
  validateBlob ns data version
  return { ns, data, version, commitment, index := indexOf index }

/-- The fields of a blob. -/
def fields : Fields (Except Error Blob) :=
  ofParts <$> .required "namespace" Namespace.decoder <*> .required "data" .base64
    <*> .required "share_version" .uint8 <*> .required "commitment" Commitment.decoder
    <*> .optional "index" .int64

/-- Reads a blob. -/
def decoder : Decoder Blob :=
  .refined fields.decoder id

/-- Writes a blob, if its index fits. An index that is not known is left out. -/
def toJson? (blob : Blob) : Option Json := do
  guard (blob.index.all (·.toNat < UInt64.size / 2))
  return .record
    [("namespace", some blob.ns.toJson), ("data", some (.ofBytes blob.data)),
      ("share_version", some (.ofNat blob.version.toNat)),
      ("commitment", some (Commitment.toJson blob.commitment)),
      ("index", blob.index.map fun index => .ofNat index.toNat)]

instance : JsonForm Blob := ⟨decoder, toJson?⟩

end Blob

/-! ### Commitment proofs -/

namespace CommitmentProof

/-- Makes a proof of its parts. -/
def ofParts (subtreeRoots : List NamespacedHash) (rangeProofs : List NamespaceProof)
    (namespaceId : Bytes) (rowProof : RowProof) (namespaceVersion : UInt8) :
    Except Error CommitmentProof := do
  let ns ← Namespace.ofId namespaceVersion namespaceId
  return { subtreeRoots, rangeProofs, ns, rowProof }

/-- The fields of a proof. -/
def fields : Fields (Except Error CommitmentProof) :=
  ofParts <$> .required "subtree_roots" NamespacedHash.listDecoder
    <*> .required "subtree_root_proofs" (.list NamespaceProof.decoder)
    <*> .required "namespace_id" .base64 <*> .required "row_proof" RowProof.decoder
    <*> .required "namespace_version" .uint8

/-- Reads a proof. -/
def decoder : Decoder CommitmentProof :=
  .refined fields.decoder id

/-- Writes a proof. -/
def toJson (proof : CommitmentProof) : Json :=
  .obj
    [("subtree_roots", .ofList NamespacedHash.toJson proof.subtreeRoots),
      ("subtree_root_proofs", .ofList NamespaceProof.toJson proof.rangeProofs),
      ("namespace_id", .ofBytes proof.ns.id), ("row_proof", proof.rowProof.toJson),
      ("namespace_version", .ofNat proof.ns.version.toNat)]

instance : JsonForm CommitmentProof := .total decoder toJson

end CommitmentProof

/-! ### Subscriptions -/

/-- The blobs of a namespace at a height. -/
structure PublishedBlobs where
  /-- The blobs. -/
  blobs : List Blob
  /-- The height of their block. -/
  height : UInt64
deriving DecidableEq

namespace PublishedBlobs

/-- The fields of an answer. -/
def fields : Fields PublishedBlobs :=
  PublishedBlobs.mk
    <$> .general ["Blobs", "blobs"] (.orNull [] (.list Blob.decoder)) (some []) (some [])
    <*> .general ["Height", "height"] .uint64 none none

instance : JsonForm PublishedBlobs where
  read := fields.decoder
  write answer := do
    let blobs ← answer.blobs.mapM Blob.toJson?
    return .obj [("Blobs", .arr blobs), ("Height", .ofNat answer.height.toNat)]

end PublishedBlobs

end Availability
