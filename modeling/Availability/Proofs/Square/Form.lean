import Availability.Proofs.Merkle.Form
import Availability.Proofs.Nmt.Form
import Availability.Proofs.Text.Hex
import Availability.Square.Form

/-!
# Row proofs and squares are read back

The roots of the rows are written in upper case hexadecimal digits, all other hashes in base64. Of a
square only the cells are written, and it is made anew when it is read.

* `RowProof.rootsDecoder_ofList` – the roots are read back;
* `RowProof.decoder_toJson` – and so is the proof, if the numbers of its Merkle proofs fit;
* `ExtendedSquare.ofText_render` – a square is read back if it **can be made again** of its cells.
-/

namespace Availability

namespace RowProof

/-- The roots of the rows are read back. -/
theorem rootsDecoder_ofList (roots : List NamespacedHash) :
    rootsDecoder (.ofList (fun root => .str (Hex.encodeUpper root.toBytes)) roots) = .ok roots := by
  have htexts : Decoder.orNull [] (.list .string)
      (.ofList (fun root => .str (Hex.encodeUpper root.toBytes)) roots) =
        .ok (roots.map fun root => Hex.encodeUpper root.toBytes) :=
    Decoder.list_ofList fun root _ => Decoder.string_str (Hex.encodeUpper root.toBytes)
  rw [rootsDecoder, Decoder.thenTry, htexts, Checked.ok_bind, Checked.mapM_eq_ok_iff,
    List.forall₂_map_left_iff, List.forall₂_same]
  intro root _
  simp only [Hex.decode?_encodeUpper, NamespacedHash.ofBytes_toBytes]
  rfl

/-- **A row proof is read back**, if the numbers of its Merkle proofs fit. -/
theorem decoder_toJson {proof : RowProof} (h : ∀ row ∈ proof.proofs, row.Fits) :
    decoder proof.toJson = .ok proof := by
  have hproofs : Decoder.list MerkleProof.decoder (.ofList MerkleProof.toJson proof.proofs) =
      .ok (proof.proofs.map id) :=
    Decoder.list_ofList fun row hrow => MerkleProof.decoder_toJson (h row hrow)
  rw [List.map_id] at hproofs
  have hroots := Fields.Reads.required "row_roots" (rootsDecoder_ofList proof.rowRoots)
  have hrows := Fields.Reads.required "proofs" hproofs
  have hfirst := Fields.Reads.required "start_row" (Decoder.uint32_ofNat proof.first)
  have hlast := Fields.Reads.required "end_row" (Decoder.uint32_ofNat proof.last)
  have hreads := (((hroots.map RowProof.mk).seq hrows).seq hfirst).seq hlast
  have hkeys : ["row_roots", "proofs", "start_row", "end_row"].Nodup := by decide
  exact hreads.decoder_eq hkeys

theorem plain_toJson {proof : RowProof} (h : ∀ row ∈ proof.proofs, row.Fits) :
    proof.toJson.Plain := by
  have hroots := Json.plain_ofList fun root (_ : root ∈ proof.rowRoots) =>
    Json.Plain.str (Hex.encodeUpper root.toBytes)
  have hrows := Json.plain_ofList fun row hrow => MerkleProof.plain_toJson (h row hrow)
  exact .cons hroots (.cons hrows (.cons (Json.plain_uint32 proof.first)
    (.cons (Json.plain_uint32 proof.last) .nil)))

end RowProof

namespace ExtendedSquare

/-- **A square is read back** if it can be made again of its cells. -/
theorem decoder_toJson {square : ExtendedSquare}
    (h : make square.cells square.codec .latest = .ok square) :
    decoder square.toJson = .ok square := by
  have hcells : Decoder.base64List (.ofList .ofBytes square.cells.toList) =
      .ok (square.cells.toList.map id) := Decoder.base64List_ofList id square.cells.toList
  rw [List.map_id] at hcells
  have hreads := ((Fields.Reads.required "data_square" hcells).map
    fun cells codec => make cells.toArray codec .latest).seq
      (Fields.Reads.required "codec" (Decoder.string_str square.codec))
  have hkeys : ["data_square", "codec"].Nodup := by decide
  exact Decoder.refined_eq_ok (hreads.decoder_eq hkeys) h

theorem plain_toJson (square : ExtendedSquare) : square.toJson.Plain :=
  .cons (Json.plain_ofList fun cell _ => Json.plain_ofBytes cell) (.cons (.str square.codec) .nil)

theorem ofText_render {square : ExtendedSquare}
    (h : make square.cells square.codec .latest = .ok square) :
    Decoder.ofText decoder square.toJson.render = .ok square := by
  rw [Decoder.ofText_render decoder square.plain_toJson, decoder_toJson h]

end ExtendedSquare

end Availability
