import Availability.Json.Form

/-!
# Data by itself

Rollups that know nothing of namespaces and squares exchange plain bytes with a node. The node also
reports frauds as plain bytes, with a word for what kind of fraud they prove.

* `RawData` – bytes, in base64;
* `RawData.height?`, `RawData.commitment?` – the parts of bytes that identify a blob;
* `FraudProof` – a proof that some block is wrong.
-/

namespace Availability

/-- Plain bytes. -/
structure RawData where
  /-- The bytes. -/
  bytes : Bytes
deriving DecidableEq

namespace RawData

/-- The height of the blob that is identified: the first eight bytes, the lowest one first. -/
def height? (id : RawData) : Option UInt64 :=
  if 8 ≤ id.bytes.length then some (.ofNat (Bytes.toNat (id.bytes.take 8).reverse)) else none

/-- The commitment of the blob that is identified: what follows the height. -/
def commitment? (id : RawData) : Option Bytes :=
  if 8 ≤ id.bytes.length then some (id.bytes.drop 8) else none

instance : JsonForm RawData :=
  .total (fun json => RawData.mk <$> Decoder.base64 json) fun data => .ofBytes data.bytes

end RawData

/-! ### Frauds -/

/-- The word for what a fraud proof proves. -/
structure FraudKind where
  /-- The word. -/
  word : String
deriving DecidableEq

namespace FraudKind

/-- A block was not encoded as it should be. -/
def badEncoding : FraudKind := ⟨"badencoding"⟩

instance : JsonForm FraudKind :=
  .total (fun json => FraudKind.mk <$> Decoder.string json) fun kind => .str kind.word

end FraudKind

/-- A proof that some block is wrong. -/
structure FraudProof where
  /-- What it proves. -/
  kind : FraudKind
  /-- The proof itself. -/
  data : Bytes
deriving DecidableEq

instance : JsonForm FraudProof := Members.form <|
  FraudProof.mk <$> .need "proof_type" FraudProof.kind <*> .bytes "data" FraudProof.data

end Availability
