import Availability.Merkle.Form
import Availability.Nmt.Form
import Availability.Share.Form
import Availability.Square.NamespaceData

/-!
# Squares and their proofs in JSON

* `RowProof` – row roots are in hexadecimal digits, of either case when read and in **upper case**
  when written;
* `AvailabilityHeader` – the roots are in base64, as many of columns as of rows;
* `ExtendedSquare` – only the cells and the code are written; the width follows;
* `NamespaceData` – `null` stands for no rows;
* `Axis` – a word.
-/

namespace Availability

/-! ### Proofs and headers -/

namespace RowProof

/-- Reads a list of row roots in hexadecimal digits, or `null` for none. -/
def rootsDecoder : Decoder (List NamespacedHash) :=
  .thenTry (.orNull [] (.list .string)) fun texts => texts.mapM fun text =>
    match Hex.decode? text with
    | none => .error .shape
    | some bs => (NamespacedHash.ofBytes bs).mapError .refused

/-- The fields of a proof. -/
def fields : Fields RowProof :=
  RowProof.mk <$> .required "row_roots" rootsDecoder
    <*> .required "proofs" (.list MerkleProof.decoder)
    <*> .required "start_row" .uint32 <*> .required "end_row" .uint32

/-- Reads a proof. -/
def decoder : Decoder RowProof :=
  fields.decoder

/-- Writes a proof. -/
def toJson (proof : RowProof) : Json :=
  .obj
    [("row_roots", .ofList (fun root => .str (Hex.encodeUpper root.toBytes)) proof.rowRoots),
      ("proofs", .ofList MerkleProof.toJson proof.proofs),
      ("start_row", .ofNat proof.first.toNat), ("end_row", .ofNat proof.last.toNat)]

instance : JsonForm RowProof := .total decoder toJson

end RowProof

namespace AvailabilityHeader

/-- The fields of a header. -/
def fields : Fields (Except Malformation AvailabilityHeader) :=
  make <$> .required "row_roots" NamespacedHash.listDecoder
    <*> .required "column_roots" NamespacedHash.listDecoder

/-- Reads a header. -/
def decoder : Decoder AvailabilityHeader :=
  .refined fields.decoder (·.mapError .malformed)

/-- Writes a header. -/
def toJson (header : AvailabilityHeader) : Json :=
  .obj
    [("row_roots", .ofList NamespacedHash.toJson header.rowRoots),
      ("column_roots", .ofList NamespacedHash.toJson header.columnRoots)]

instance : JsonForm AvailabilityHeader := .total decoder toJson

end AvailabilityHeader

/-! ### Squares -/

namespace ExtendedSquare

/-- The fields of a square. The width that any version allows is allowed. -/
def fields : Fields (Except Error ExtendedSquare) :=
  (fun cells codec => make cells.toArray codec .latest)
    <$> .required "data_square" .base64List <*> .required "codec" .string

/-- Reads a square. -/
def decoder : Decoder ExtendedSquare :=
  .refined fields.decoder id

/-- Writes a square. -/
def toJson (square : ExtendedSquare) : Json :=
  .obj [("data_square", .ofList .ofBytes square.cells.toList), ("codec", .str square.codec)]

instance : JsonForm ExtendedSquare := .total decoder toJson

end ExtendedSquare

namespace Axis

/-- The word for each axis. -/
def words : List (String × Axis) :=
  [("Row", row), ("Col", column)]

instance : JsonForm Axis :=
  .total (.word words) fun
    | row => .str "Row"
    | column => .str "Col"

end Axis

/-! ### The data of a namespace -/

namespace NamespaceRow

/-- The row of some shares and their proof, which has to be there. -/
def ofParts (shares : Option (List Share)) (proof : Option NamespaceProof) :
    Except Error NamespaceRow := do
  let shares := shares.getD []
  let some proof := proof | throw .missingProof
  if shares.isEmpty && !proof.isOfAbsence then throw .proofKind
  return { shares, proof }

/-- The fields of a row. -/
def fields : Fields (Except Error NamespaceRow) :=
  ofParts
    <$> .general ["shares", "Shares"] (.option (.list Share.decoder)) (some none) (some none)
    <*> .general ["proof", "Proof"] (.option NamespaceProof.decoder) (some none) (some none)

/-- Reads a row. -/
def decoder : Decoder NamespaceRow :=
  .refined fields.decoder id

/-- Writes a row. -/
def toJson (row : NamespaceRow) : Json :=
  .obj [("shares", .ofList Share.toJson row.shares), ("proof", row.proof.toJson)]

instance : JsonForm NamespaceRow := .total decoder toJson

end NamespaceRow

namespace NamespaceData

/-- Reads the rows. -/
def decoder : Decoder NamespaceData :=
  fun json => NamespaceData.mk <$> Decoder.orNull [] (.list NamespaceRow.decoder) json

/-- Writes the rows. -/
def toJson (data : NamespaceData) : Json :=
  if data.rows.isEmpty then .null else .ofList NamespaceRow.toJson data.rows

instance : JsonForm NamespaceData := .total decoder toJson

end NamespaceData

end Availability
