import Availability.Json.Form
import Availability.Proofs.Checked
import Availability.Proofs.Json.RoundTrip
import Availability.Proofs.Text.Base64

/-!
# Records are read back

A record is written as an object with the members of its fields in order, and no key stands in it
twice. Then each member is found by the reader as the field of its key, and what is read of the
record is what is read of the members one by one.

* `Decoder.base64_ofBytes`, `Decoder.list_ofList`, … – the parts of records are read back;
* `Fields.Reads` – some members are the fields **in order**, and a value is read of them; one rule
  for each way to put fields together;
* `Fields.ReadsPlaces` – the same of fields some of which may have been **left out**;
* `Fields.ReadsPlaces.decoder_eq`, `Fields.Reads.decoder_eq` – a record is read as its members, if
  their keys are **different**;
* `Fields.exists_build_of_decoder` – and what is read of any record is made of its fields.
-/

namespace Availability

/-! ### Parts of records -/

namespace Json

theorem plain_ofNat {n : Nat} (h : n < 2 ^ 64) : (ofNat n).Plain :=
  .int (by omega) (by omega)

theorem plain_uint32 (n : UInt32) : (ofNat n.toNat).Plain :=
  plain_ofNat (n.toNat_lt.trans (by decide))

theorem plain_ofBytes (bs : Bytes) : (ofBytes bs).Plain :=
  .str _

theorem plain_ofList {α : Type} {write : α → Json} {xs : List α} (h : ∀ x ∈ xs, (write x).Plain) :
    (ofList write xs).Plain := by
  refine .arr fun item hitem => ?_
  obtain ⟨x, hx, rfl⟩ := List.mem_map.mp hitem
  exact h x hx

end Json

namespace Decoder

variable {α β γ : Type} {decode : Decoder α} {json : Json} {a : α}

theorem narrowed_eq_ok {f : α → Option β} {b : β} (h : decode json = .ok a) (hf : f a = some b) :
    narrowed decode f json = .ok b := by
  simp only [narrowed, thenTry, h, Checked.ok_bind, hf]
  rfl

theorem refined_eq_ok {f : α → Except Error β} {b : β} (h : decode json = .ok a)
    (hf : f a = .ok b) : refined decode f json = .ok b := by
  simp only [refined, thenTry, h, Checked.ok_bind, hf]
  rfl

/-- What is read from a text is read from a value. -/
theorem exists_of_ofText_eq_ok {text : String} (h : ofText decode text = .ok a) :
    ∃ value, decode value = .ok a := by
  obtain ⟨read, hread, hend⟩ := Checked.bind_eq_ok_iff.mp h
  split_ifs at hend
  obtain rfl := Except.ok.inj hend
  exact ⟨_, hread⟩

theorem option_of_ne_null (h : json ≠ .null) : option decode json = some <$> decode json := by
  cases json with
  | null => exact absurd rfl h
  | _ => rfl

theorem bool_bool (b : Bool) : bool (.bool b) = .ok b := rfl

theorem nat_ofNat {bits n : Nat} (h : n < 2 ^ bits) : nat bits (.ofNat n) = .ok n := by
  have hbound : (0 : Int) ≤ n ∧ (n : Int) ≤ ((1 <<< bits - 1 : Nat) : Int) := by
    rw [Nat.one_shiftLeft]
    omega
  simp only [nat, Json.ofNat, intIn, if_pos hbound]
  rfl

theorem uint8_ofNat (n : UInt8) : uint8 (.ofNat n.toNat) = .ok n := by
  rw [uint8, nat_ofNat n.toNat_lt]
  exact congrArg Except.ok UInt8.ofNat_toNat

theorem uint32_ofNat (n : UInt32) : uint32 (.ofNat n.toNat) = .ok n := by
  rw [uint32, nat_ofNat n.toNat_lt]
  exact congrArg Except.ok UInt32.ofNat_toNat

theorem int64_ofNat {n : Nat} (h : n < 2 ^ 63) : int64 (.ofNat n) = .ok n := by
  refine if_pos ⟨?_, ?_⟩
  · change -2 ^ 63 ≤ (n : Int)
    omega
  · change (n : Int) ≤ 2 ^ 63 - 1
    omega

theorem lt_of_int64_eq_ok {json : Json} {n : Int} (h : int64 json = .ok n) : n < 2 ^ 63 := by
  match json with
  | .int m =>
    simp only [int64, intIn] at h
    split_ifs at h with hbound
    obtain rfl := Except.ok.inj h
    have hmax : Int64.maxValue.toInt = 2 ^ 63 - 1 := rfl
    omega

theorem string_str (s : String) : string (.str s) = .ok s := rfl

theorem base64_ofBytes (bs : Bytes) : base64 (.ofBytes bs) = .ok bs :=
  narrowed_eq_ok (string_str _) (Base64.decodeLoose?_encode bs)

/-- A list is read item by item. -/
theorem list_ofList {write : γ → Json} {f : γ → α} {xs : List γ}
    (h : ∀ x ∈ xs, decode (write x) = .ok (f x)) :
    list decode (.ofList write xs) = .ok (xs.map f) := by
  rw [Json.ofList, list, Checked.mapM_eq_ok_iff, List.forall₂_map_left_iff,
    List.forall₂_map_right_iff, List.forall₂_same]
  exact h

theorem base64List_ofList (f : γ → Bytes) (xs : List γ) :
    base64List (.ofList (fun x => .ofBytes (f x)) xs) = .ok (xs.map f) :=
  list_ofList fun x _ =>
    narrowed_eq_ok (string_str _) (Base64.decodeLoose?_encode (f x))

end Decoder

/-! ### Fields -/

namespace Fields

variable {α β : Type}

/-- The members are the fields in order, and a value is read of them. -/
structure Reads (fields : Fields α) (members : List (String × Json)) (a : α) : Prop where
  /-- Each member has the only key of its field and a value of its form. -/
  aligned : List.Forall₂
    (fun spec member => spec.keys = [member.1] ∧ spec.check member.2 = .ok ()) fields.specs members
  /-- The value is made of the members. -/
  build_eq : ∀ get : String → Option Json, (∀ member ∈ members, get member.1 = some member.2) →
    fields.build true get = .ok a

namespace Reads

variable {fields : Fields α} {members more : List (String × Json)} {a : α}

theorem map (f : α → β) (h : fields.Reads members a) : (f <$> fields).Reads members (f a) where
  aligned := h.aligned
  build_eq get hget := by
    change f <$> fields.build true get = _
    rw [h.build_eq get hget]
    rfl

theorem seq {fields : Fields (α → β)} {others : Fields α} {f : α → β}
    (h : fields.Reads members f) (hmore : others.Reads more a) :
    (fields <*> others).Reads (members ++ more) (f a) where
  aligned := List.rel_append h.aligned hmore.aligned
  build_eq get hget := by
    rw [List.forall_mem_append] at hget
    change (fields.build true get >>= fun f => f <$> others.build true get) = _
    rw [h.build_eq get hget.1, hmore.build_eq get hget.2]
    rfl

theorem general {decode : Decoder α} {key : String} {json : Json} (h : decode json = .ok a)
    (inObject inArray : Option α) :
    (Fields.general [key] decode inObject inArray).Reads [(key, json)] a where
  aligned := by
    refine .cons ⟨rfl, ?_⟩ .nil
    change Functor.mapConst () (decode json) = _
    rw [h]
    rfl
  build_eq get hget := by
    have hget : get key = some json := hget (key, json) List.mem_cons_self
    simp only [Fields.general, List.headD_cons, hget, h]

theorem required {decode : Decoder α} {json : Json} (key : String) (h : decode json = .ok a) :
    (Fields.required key decode).Reads [(key, json)] a :=
  general h none none

theorem withDefault {decode : Decoder α} {json : Json} (key : String) (default : α)
    (h : decode json = .ok a) : (Fields.withDefault key default decode).Reads [(key, json)] a :=
  general h (some default) (some default)

end Reads

/-! ### Members that may be left out -/

/-- The places of a record are those of its fields in order, some of them are empty, and a value is
read of what is in the others. -/
structure ReadsPlaces (fields : Fields α) (places : List (String × Option Json)) (a : α) :
    Prop where
  /-- Each place has the only key of its field, and is empty or holds a value of its form. -/
  aligned : List.Forall₂
    (fun spec place => spec.keys = [place.1] ∧ ∀ json ∈ place.2, spec.check json = .ok ())
    fields.specs places
  /-- The value is made of what is in the places. -/
  build_eq : ∀ get : String → Option Json, (∀ place ∈ places, get place.1 = place.2) →
    fields.build true get = .ok a

/-- No place is empty when all members are there. -/
theorem Reads.places {fields : Fields α} {members : List (String × Json)} {a : α}
    (h : fields.Reads members a) :
    fields.ReadsPlaces (members.map fun member => (member.1, some member.2)) a where
  aligned := by
    rw [List.forall₂_map_right_iff]
    refine h.aligned.imp fun spec member hmember => ⟨hmember.1, fun json hjson => ?_⟩
    obtain rfl := Option.mem_some_iff.mp hjson
    exact hmember.2
  build_eq get hget := h.build_eq get fun member hmember => hget _ (List.mem_map_of_mem hmember)

namespace ReadsPlaces

variable {fields : Fields α} {places more : List (String × Option Json)} {a : α}

theorem seq {fields : Fields (α → β)} {others : Fields α} {f : α → β}
    (h : fields.ReadsPlaces places f) (hmore : others.ReadsPlaces more a) :
    (fields <*> others).ReadsPlaces (places ++ more) (f a) where
  aligned := List.rel_append h.aligned hmore.aligned
  build_eq get hget := by
    rw [List.forall_mem_append] at hget
    change (fields.build true get >>= fun f => f <$> others.build true get) = _
    rw [h.build_eq get hget.1, hmore.build_eq get hget.2]
    rfl

/-- A place may be empty when the field is optional. What is in it is not `null`, which would be
read like an empty place. -/
theorem optional {decode : Decoder α} {place : Option Json} {value : Option α} (key : String)
    (h : Option.Rel (fun json a => json ≠ .null ∧ decode json = .ok a) place value) :
    (Fields.optional key decode).ReadsPlaces [(key, place)] value := by
  have hread : ∀ json ∈ place, Decoder.option decode json = .ok value := by
    rintro json hjson
    cases h with
    | none => cases hjson
    | @some member a hmember =>
      obtain rfl := Option.mem_some_iff.mp hjson
      rw [Decoder.option_of_ne_null hmember.1, hmember.2]
      rfl
  constructor
  case aligned =>
    refine .cons ⟨rfl, fun json hjson => ?_⟩ .nil
    change Functor.mapConst () (Decoder.option decode json) = _
    rw [hread json hjson]
    rfl
  case build_eq =>
    intro get hget
    have hget : get key = place := hget (key, place) List.mem_cons_self
    simp only [Fields.optional, Fields.withDefault, Fields.general, List.headD_cons, hget]
    cases h with
    | none => rfl
    | some => exact hread _ rfl

end ReadsPlaces

/-! ### Reading a record -/

/-- Where fields and places stand side by side, the field that has the key of a place is the one
beside it. -/
theorem exists_find? {specs : List FieldSpec} {places : List (String × Option Json)}
    (haligned : List.Forall₂
      (fun spec place => spec.keys = [place.1] ∧ ∀ json ∈ place.2, spec.check json = .ok ())
      specs places)
    (hkeys : (places.map (·.1)).Nodup) :
    ∀ place ∈ places, ∃ spec, find? specs place.1 = some spec ∧
      spec.keys = [place.1] ∧ ∀ json ∈ place.2, spec.check json = .ok () := by
  induction haligned with
  | nil => simp
  | @cons spec first specs places hfirst haligned ih =>
    rw [List.map_cons, List.nodup_cons] at hkeys
    obtain ⟨hnew, hkeys⟩ := hkeys
    rintro place (_ | ⟨_, hplace⟩)
    · exact ⟨spec, List.find?_cons_of_pos (by simp [hfirst.1]), hfirst⟩
    · obtain ⟨found, hfound, hspec⟩ := ih hkeys place hplace
      have hne : place.1 ≠ first.1 := by
        intro heq
        exact hnew (List.mem_map.mpr ⟨place, hplace, heq⟩)
      refine ⟨found, ?_, hspec⟩
      rw [← hfound]
      exact List.find?_cons_of_neg (by simp [hfirst.1, hne])

/-- **Members with different keys are passed one by one**, and each of them is found under its key
afterwards. -/
theorem scan_eq_ok {specs : List FieldSpec} {members : List (String × Json)}
    (hfind : ∀ member ∈ members, ∃ spec, find? specs member.1 = some spec ∧
      spec.keys = [member.1] ∧ spec.check member.2 = .ok ())
    (hkeys : (members.map (·.1)).Nodup) {found : List (String × Json)}
    (hnew : ∀ member ∈ members, found.lookup member.1 = none) :
    ∃ found', scan specs found members = .ok found' ∧
      (∀ member ∈ members, found'.lookup member.1 = some member.2) ∧
        ∀ key ∉ members.map (·.1), found'.lookup key = found.lookup key := by
  induction members generalizing found with
  | nil => exact ⟨found, rfl, by simp, fun _ _ => rfl⟩
  | cons first members ih =>
    obtain ⟨key, json⟩ := first
    rw [List.map_cons, List.nodup_cons] at hkeys
    rw [List.forall_mem_cons] at hfind hnew
    obtain ⟨spec, hspec, hname, hcheck⟩ := hfind.1
    have hothers : ∀ member ∈ members, ((key, json) :: found).lookup member.1 = none := by
      intro member hmember
      have hne : member.1 ≠ key := by
        intro heq
        exact hkeys.1 (List.mem_map.mpr ⟨member, hmember, heq⟩)
      rw [List.lookup_cons, beq_false_of_ne hne]
      exact hnew.2 member hmember
    obtain ⟨found', hscan, hfound, hrest⟩ := ih hfind.2 hkeys.2 hothers
    refine ⟨found', ?_, ?_, ?_⟩
    · simp only [scan, hspec, hname, List.headD_cons, hnew.1, hcheck]
      exact hscan
    · rw [List.forall_mem_cons]
      refine ⟨?_, hfound⟩
      rw [hrest key hkeys.1]
      exact List.lookup_cons_self
    · intro other hother
      rw [List.map_cons, List.mem_cons, not_or] at hother
      rw [hrest other hother.2, List.lookup_cons, beq_false_of_ne hother.1]

/-- What is in the places of a record. -/
def filled (places : List (String × Option Json)) : List (String × Json) :=
  places.filterMap fun (key, value) => value.map (key, ·)

theorem record_eq (places : List (String × Option Json)) :
    Json.record places = .obj (filled places) :=
  rfl

theorem filled_map_some (members : List (String × Json)) :
    filled (members.map fun member => (member.1, some member.2)) = members := by
  rw [filled, List.filterMap_map]
  exact List.filterMap_some

theorem mem_filled_iff {places : List (String × Option Json)} {key : String} {json : Json} :
    (key, json) ∈ filled places ↔ (key, some json) ∈ places := by
  simp only [filled, List.mem_filterMap, Option.map_eq_some_iff, Prod.mk.injEq, Prod.exists]
  constructor
  · rintro ⟨_, _, hplace, _, rfl, rfl, rfl⟩
    exact hplace
  · intro hplace
    exact ⟨key, some json, hplace, json, rfl, rfl, rfl⟩

theorem map_fst_filled_sublist (places : List (String × Option Json)) :
    ((filled places).map (·.1)).Sublist (places.map (·.1)) := by
  induction places with
  | nil => exact .slnil
  | cons place places ih =>
    obtain ⟨key, value⟩ := place
    cases value with
    | none => exact ih.cons key
    | some json => exact ih.cons_cons key

theorem plain_record {places : List (String × Option Json)}
    (h : ∀ place ∈ places, ∀ json ∈ place.2, json.Plain) : (Json.record places).Plain := by
  refine .obj ?_
  rintro ⟨key, json⟩ hmember
  exact h _ (mem_filled_iff.mp hmember) json rfl

/-- **A record is read as what is in its places**, when no key stands there twice. -/
theorem ReadsPlaces.decoder_eq {fields : Fields α} {places : List (String × Option Json)} {a : α}
    (h : fields.ReadsPlaces places a) (hkeys : (places.map (·.1)).Nodup) :
    fields.decoder (.record places) = .ok a := by
  have hfind : ∀ member ∈ filled places, ∃ spec, find? fields.specs member.1 = some spec ∧
      spec.keys = [member.1] ∧ spec.check member.2 = .ok () := by
    rintro ⟨key, json⟩ hmember
    obtain ⟨spec, hspec, hname, hcheck⟩ :=
      exists_find? h.aligned hkeys _ (mem_filled_iff.mp hmember)
    exact ⟨spec, hspec, hname, hcheck json rfl⟩
  have hnew : ∀ member ∈ filled places, ([] : List (String × Json)).lookup member.1 = none :=
    fun _ _ => rfl
  obtain ⟨found, hscan, hfound, hrest⟩ :=
    scan_eq_ok hfind ((map_fst_filled_sublist places).nodup hkeys) hnew
  have hget : ∀ place ∈ places, found.lookup place.1 = place.2 := by
    rintro ⟨key, value⟩ hmem
    cases value with
    | some json => exact hfound (key, json) (mem_filled_iff.mpr hmem)
    | none =>
      -- the place is empty, and no other place has its key
      refine hrest key fun hkey => ?_
      obtain ⟨⟨_, json⟩, hmember, rfl⟩ := List.mem_map.mp hkey
      cases List.inj_on_of_nodup_map hkeys (mem_filled_iff.mp hmember) hmem rfl
  rw [record_eq]
  simp only [decoder, hscan]
  exact h.build_eq _ hget

/-- **A record is read as its members**, when no key stands in it twice. -/
theorem Reads.decoder_eq {fields : Fields α} {members : List (String × Json)} {a : α}
    (h : fields.Reads members a) (hkeys : (members.map (·.1)).Nodup) :
    fields.decoder (.obj members) = .ok a := by
  have hplaces : ((members.map fun member => (member.1, some member.2)).map (·.1)).Nodup := by
    rwa [List.map_map]
  have hread := h.places.decoder_eq hplaces
  rwa [record_eq, filled_map_some] at hread

/-! ### What was read -/

/-- What is read of a record is made of its fields. -/
theorem exists_build_of_decoder {fields : Fields α} {json : Json} {a : α}
    (h : fields.decoder json = .ok a) : ∃ isObject get, fields.build isObject get = .ok a := by
  match json with
  | .obj members =>
    obtain ⟨found, -, hbuild⟩ := Checked.bind_eq_ok_iff.mp h
    exact ⟨true, _, hbuild⟩
  | .arr items =>
    obtain ⟨found, -, hbuild⟩ := Checked.bind_eq_ok_iff.mp h
    exact ⟨false, _, hbuild⟩

section Build

variable {isObject : Bool} {get : String → Option Json} {a : α} {b : β}

theorem build_map_eq_ok_iff {f : α → β} {fields : Fields α} :
    (f <$> fields).build isObject get = .ok b ↔ ∃ a, fields.build isObject get = .ok a ∧ f a = b :=
  Checked.map_eq_ok_iff

theorem build_seq_eq_ok_iff {fields : Fields (α → β)} {others : Fields α} :
    (fields <*> others).build isObject get = .ok b ↔ ∃ f, fields.build isObject get = .ok f ∧
      ∃ a, others.build isObject get = .ok a ∧ f a = b := by
  change (fields.build isObject get >>= fun f => f <$> others.build isObject get) = .ok b ↔ _
  simp only [Checked.bind_eq_ok_iff, Checked.map_eq_ok_iff]

/-- A field that has to be there was there. -/
theorem exists_of_build_required {key : String} {decode : Decoder α}
    (h : (required key decode).build isObject get = .ok a) : ∃ json, decode json = .ok a := by
  simp only [required, general, List.headD_cons] at h
  cases hget : get key with
  | none => simp [hget, Decoder.ofOption] at h
  | some json => exact ⟨json, by simpa [hget] using h⟩

/-- What is there of an optional field was read. -/
theorem exists_of_build_optional {key : String} {decode : Decoder α} {value : Option α}
    (h : (optional key decode).build isObject get = .ok value) :
    ∀ a ∈ value, ∃ json, decode json = .ok a := by
  rintro a ha
  obtain rfl := Option.mem_def.mp ha
  simp only [optional, withDefault, general, List.headD_cons, ite_self] at h
  cases hget : get key with
  | none =>
    simp only [hget] at h
    cases h
  | some json =>
    simp only [hget] at h
    by_cases hnull : json = .null
    · subst hnull
      cases h
    · rw [Decoder.option_of_ne_null hnull, Checked.map_eq_ok_iff] at h
      obtain ⟨_, hdecode, heq⟩ := h
      obtain rfl := Option.some.inj heq
      exact ⟨json, hdecode⟩

end Build

end Fields

end Availability
