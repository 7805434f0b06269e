import Availability.Blob.Form
import Availability.Proofs.Blob.Commitment
import Availability.Proofs.Namespace.Form

/-!
# Blobs are read back

The index of a blob is unsigned, and signed in its text. An index that is too large for that can not
be written; an index that is not known is left out; and a text may as well have `null` or a negative
number for it, neither of which is ever written. What has been read is therefore a blob that can be
written, and its text need not be the one it was read from.

The namespace, the data and the share version are checked when a blob is read, its commitment is not
compared with them.

* `Blob.places`, `Blob.toJson?_eq_some_iff` – what is written, and when;
* `Blob.indexOf_toNat`, `Blob.indexOf_eq_none_iff` – the index that is read of a number, or of none;
* `Blob.decoder_places` – an allowed blob whose index fits is read back;
* `Blob.of_decoder_eq_ok` – **only** such blobs are read;
* `Blob.form_lossless` – so nothing is lost in the text of a blob.
-/

namespace Availability

/-! ### Commitments -/

namespace Commitment

theorem bytes?_toBase64 (commitment : Commitment) :
    bytes? commitment.toBase64 = some commitment.bytes := by
  have hsize : decide (commitment.bytes.length ≤ 64) = true :=
    decide_eq_true (by rw [commitment.length_bytes]; decide)
  exact (congrArg _ (Base64.decode?_encode commitment.bytes)).trans (Option.filter_some_pos hsize)

/-- **A commitment is read back.** -/
theorem decoder_toJson (commitment : Commitment) : decoder commitment.toJson = .ok commitment :=
  Decoder.refined_eq_ok
    (Decoder.narrowed_eq_ok (Decoder.string_str _) (bytes?_toBase64 commitment))
    (dif_pos commitment.length_bytes)

end Commitment

namespace Blob

/-! ### What is written -/

/-- The places of the members of a blob. That of an index that is not known is empty. -/
def places (blob : Blob) : List (String × Option Json) :=
  [("namespace", some blob.ns.toJson), ("data", some (.ofBytes blob.data)),
    ("share_version", some (.ofNat blob.version.toNat)),
    ("commitment", some blob.commitment.toJson),
    ("index", blob.index.map fun index => .ofNat index.toNat)]

/-- The index, if there is one, is a signed 64-bit number. -/
def IndexFits (blob : Blob) : Prop :=
  ∀ index ∈ blob.index, (index.toNat : Int) ≤ Int64.maxValue.toInt

theorem indexFits_iff {blob : Blob} :
    blob.IndexFits ↔ blob.index.all (·.toNat < UInt64.size / 2) = true := by
  have hmax : Int64.maxValue.toInt = 2 ^ 63 - 1 := rfl
  have hsize : UInt64.size / 2 = 2 ^ 63 := rfl
  simp only [IndexFits, Option.all_eq_true, decide_eq_true_eq]
  refine forall_congr' fun index => imp_congr_right fun _ => ?_
  omega

/-- **A blob is written** if its index fits, with the members that are in its places. -/
theorem toJson?_eq_some_iff {blob : Blob} {json : Json} :
    blob.toJson? = some json ↔ blob.IndexFits ∧ .record blob.places = json := by
  rw [indexFits_iff, toJson?, guard]
  split_ifs with hfits
  case pos =>
    rw [and_iff_right hfits]
    exact Option.some_inj
  case neg =>
    constructor
    · intro h
      cases h
    · rintro ⟨h, -⟩
      exact absurd h hfits

theorem toJson?_eq_none_iff {blob : Blob} : blob.toJson? = none ↔ ¬blob.IndexFits := by
  rw [Option.eq_none_iff_forall_ne_some]
  constructor
  · intro h hfits
    exact h _ (toJson?_eq_some_iff.mpr ⟨hfits, rfl⟩)
  · intro hfits json h
    exact hfits (toJson?_eq_some_iff.mp h).1

theorem plain_places (blob : Blob) : (Json.record blob.places).Plain := by
  refine Fields.plain_record ?_
  simp only [places, List.forall_mem_cons, Option.mem_some_iff, forall_eq', Option.mem_map,
    forall_exists_index, and_imp]
  refine ⟨blob.ns.plain_toJson, Json.plain_ofBytes _, ?_, .str _, ?_, ?_⟩
  · exact Json.plain_ofNat (blob.version.toNat_lt.trans (by decide))
  · rintro _ index - rfl
    exact Json.plain_ofNat index.toNat_lt
  · exact fun place hplace => absurd hplace List.not_mem_nil

/-- The text of a blob has a member for its index exactly if that is known. -/
theorem exists_parse_render (blob : Blob) :
    ∃ members, Json.parse (Json.record blob.places).render = (.obj members, true) ∧
      members.map Prod.fst = ["namespace", "data", "share_version", "commitment"] ++
        (blob.index.map fun _ => "index").toList := by
  refine ⟨_, Json.parse_render blob.plain_places, ?_⟩
  rw [places]
  cases blob.index with
  | none => rfl
  | some index => rfl

/-! ### What is read -/

/-- An index is found again in its number. -/
theorem indexOf_toNat (index : Option UInt64) :
    indexOf (index.map fun index => (index.toNat : Int)) = index := by
  cases index with
  | none => rfl
  | some index =>
    have hfilter : (some (index.toNat : Int)).filter (0 ≤ ·) = some (index.toNat : Int) :=
      Option.filter_some_pos (decide_eq_true (Int.natCast_nonneg _))
    rw [Option.map_some, indexOf, hfilter, Option.map_some, Int.toNat_natCast, UInt64.ofNat_toNat]

/-- **An index is not known** if there is no number for it, or a negative one. -/
theorem indexOf_eq_none_iff {n : Option Int} : indexOf n = none ↔ ∀ m ∈ n, m < 0 := by
  rw [indexOf, Option.map_eq_none_iff, Option.filter_eq_none_iff]
  refine forall_congr' fun m => imp_congr_right fun _ => ?_
  rw [decide_eq_true_eq, not_le]

/-- **The places of an allowed blob** are read as the blob. -/
theorem readsPlaces {blob : Blob} (hparts : validateBlob blob.ns blob.data blob.version = .ok ())
    (hfits : blob.IndexFits) : fields.ReadsPlaces blob.places (.ok blob) := by
  have hvalid : blob.ns.validate = .ok () :=
    (Namespace.validateForBlob_eq_ok_iff.mp (validateBlob_eq_ok_iff.mp hparts).2.2.1).1
  have hns := Fields.Reads.required "namespace" (Namespace.decoder_toJson hvalid)
  have hdata := Fields.Reads.required "data" (Decoder.base64_ofBytes blob.data)
  have hversion := Fields.Reads.required "share_version" (Decoder.uint8_ofNat blob.version)
  have hcommitment := Fields.Reads.required "commitment" blob.commitment.decoder_toJson
  have hindex : (Fields.optional "index" Decoder.int64).ReadsPlaces
      [("index", blob.index.map fun index => .ofNat index.toNat)]
      (blob.index.map fun index => (index.toNat : Int)) := by
    refine .optional "index" ?_
    cases hsome : blob.index with
    | none => exact .none
    | some index =>
      have hlt : index.toNat < 2 ^ 63 := by
        have hmax : Int64.maxValue.toInt = 2 ^ 63 - 1 := rfl
        have := hfits index hsome
        omega
      exact .some ⟨Json.noConfusion, Decoder.int64_ofNat hlt⟩
  have hmade : ofParts blob.ns blob.data blob.version blob.commitment
      (blob.index.map fun index => (index.toNat : Int)) = .ok blob := by
    rw [ofParts, hparts, indexOf_toNat]
    rfl
  rw [← hmade]
  exact ((((hns.map ofParts).seq hdata).seq hversion).seq hcommitment).places.seq hindex

/-- **An allowed blob whose index fits is read back.** -/
theorem decoder_places {blob : Blob}
    (hparts : validateBlob blob.ns blob.data blob.version = .ok ()) (hfits : blob.IndexFits) :
    decoder (.record blob.places) = .ok blob := by
  have hkeys : (blob.places.map (·.1)).Nodup := by
    change ["namespace", "data", "share_version", "commitment", "index"].Nodup
    decide
  exact Decoder.refined_eq_ok ((readsPlaces hparts hfits).decoder_eq hkeys) rfl

/-- An index fits if the number it was read from does. -/
theorem toNat_of_mem_indexOf {n : Option Int} {index : UInt64}
    (hn : ∀ m ∈ n, m < 2 ^ 63) (h : index ∈ indexOf n) : (index.toNat : Int) < 2 ^ 63 := by
  simp only [indexOf, Option.mem_map, Option.mem_filter_iff] at h
  obtain ⟨m, ⟨hm, -⟩, rfl⟩ := h
  have := hn m hm
  rw [UInt64.toNat_ofNat']
  omega

/-- **Only allowed blobs** whose index fits are read. -/
theorem of_decoder_eq_ok {json : Json} {blob : Blob} (h : decoder json = .ok blob) :
    validateBlob blob.ns blob.data blob.version = .ok () ∧ blob.IndexFits := by
  obtain ⟨parts, hparts, rfl⟩ : ∃ parts, fields.decoder json = .ok parts ∧ parts = .ok blob := by
    simpa [decoder, Decoder.refined, Decoder.thenTry] using h
  obtain ⟨isObject, get, hbuild⟩ := Fields.exists_build_of_decoder hparts
  rw [fields, Fields.build_seq_eq_ok_iff] at hbuild
  obtain ⟨make, hmake, n, hn, hbuild⟩ := hbuild
  simp only [Fields.build_seq_eq_ok_iff, Fields.build_map_eq_ok_iff] at hmake
  obtain ⟨_, ⟨_, ⟨_, ⟨ns, -, rfl⟩, data, -, rfl⟩, version, -, rfl⟩, commitment, -, rfl⟩ := hmake
  simp only [ofParts, Checked.bind_eq_ok_iff, Checked.exists_unit_iff,
    Checked.pure_eq_ok_iff] at hbuild
  obtain ⟨hvalid, rfl⟩ := hbuild
  refine ⟨hvalid, fun index hindex => ?_⟩
  have hlt := toNat_of_mem_indexOf (fun m hm => ?_) hindex
  · exact Int.le_sub_one_of_lt hlt
  · obtain ⟨_, hread⟩ := Fields.exists_of_build_optional hn m hm
    exact Decoder.lt_of_int64_eq_ok hread

/-- **Nothing is lost in the text of a blob.** A blob can be written exactly if its index is unknown
or fits; its members are then four, and a fifth one exactly if the index is known; and if its parts
are allowed, it is read back from the text. From any text at all, only blobs of allowed parts with
such an index are read, which can therefore be written and are read back. -/
theorem form_lossless :
    (∀ blob : Blob,
      (blob.toJson? = none ↔ ∃ index, blob.index = some index ∧
        Int64.maxValue.toInt < index.toNat) ∧
      ∀ json, blob.toJson? = some json →
        (∃ members, Json.parse json.render = (.obj members, true) ∧
          members.map Prod.fst = ["namespace", "data", "share_version", "commitment"] ++
            (blob.index.map fun _ => "index").toList) ∧
        (validateBlob blob.ns blob.data blob.version = .ok () →
          Decoder.ofText decoder json.render = .ok blob)) ∧
    ∀ text blob, Decoder.ofText decoder text = .ok blob →
      validateBlob blob.ns blob.data blob.version = .ok () ∧
      (∀ index, blob.index = some index → (index.toNat : Int) ≤ Int64.maxValue.toInt) ∧
      ∃ json, blob.toJson? = some json ∧ Decoder.ofText decoder json.render = .ok blob := by
  refine ⟨fun blob => ⟨?_, fun json hjson => ?_⟩, fun text blob h => ?_⟩
  · simp only [toJson?_eq_none_iff, IndexFits, not_forall, not_le, exists_prop, Option.mem_def]
  · obtain ⟨hfits, rfl⟩ := toJson?_eq_some_iff.mp hjson
    refine ⟨blob.exists_parse_render, fun hparts => ?_⟩
    rw [Decoder.ofText_render _ blob.plain_places, decoder_places hparts hfits]
  · obtain ⟨json, hread⟩ := Decoder.exists_of_ofText_eq_ok h
    obtain ⟨hparts, hfits⟩ := of_decoder_eq_ok hread
    refine ⟨hparts, hfits, _, toJson?_eq_some_iff.mpr ⟨hfits, rfl⟩, ?_⟩
    rw [Decoder.ofText_render _ blob.plain_places, decoder_places hparts hfits]

/-- A blob of one byte at the twelfth place. -/
theorem form_lossless_byte :
    ∃ blob json, blob.data = [7] ∧ blob.index = some 12 ∧ blob.toJson? = some json ∧
      Decoder.ofText decoder json.render = .ok blob ∧
      validateBlob blob.ns blob.data blob.version = .ok () := by
  obtain ⟨hwritten, hread⟩ := form_lossless
  let blob : Blob := ⟨.ofSuffix [1, 0], [7], 0, ⟨List.replicate 32 0, rfl⟩, some 12⟩
  have hvalid : validateBlob blob.ns blob.data blob.version = .ok () := rfl
  cases hjson : blob.toJson? with
  | none =>
    obtain ⟨index, hindex, hlarge⟩ := (hwritten blob).1.mp hjson
    obtain rfl : 12 = index := Option.some.inj hindex
    exact absurd hlarge (by decide)
  | some json =>
    have htext := ((hwritten blob).2 json hjson).2 hvalid
    exact ⟨blob, json, rfl, rfl, hjson, htext, (hread _ _ htext).1⟩

end Blob

end Availability
