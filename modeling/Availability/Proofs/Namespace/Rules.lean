import Availability.Namespace.Rules
import Mathlib.Data.List.Basic
import Mathlib.Tactic.Common

/-!
# Namespaces of a version and an id

A namespace that is made of a version and an id is made by the rules of the version. They lead back
to the namespace from which both were taken if it obeys them itself.

* `Namespace.bytes_eq` – the bytes are the version and the id;
* `Namespace.ofId_version_id` – a well-formed namespace is **made of its version and its id**;
* `Namespace.validate_ofId` – and whatever is made of a version and an id **is well-formed**, also of
  the last bytes of an id alone;
* `Namespace.ofRaw_eq_ok_iff` – so bytes are made into a namespace exactly if they are those of a
  well-formed one.
-/

namespace Availability.Namespace

/-- The bytes of a namespace are its version and its id. -/
theorem bytes_eq (ns : Namespace) : ns.bytes = ns.version :: ns.id := by
  obtain ⟨bs, h⟩ := ns
  cases bs with
  | nil => simp at h
  | cons b bs => rfl

theorem length_id (ns : Namespace) : ns.id.length = 28 := by
  rw [id, List.length_drop, ns.length_bytes]

/-- **A well-formed namespace is made of its version and its id.** -/
theorem ofId_version_id {ns : Namespace} (h : ns.validate = .ok ()) :
    ofId ns.version ns.id = .ok ns := by
  have hlength := ns.length_id
  rw [validate] at h
  rw [ofId]
  split_ifs at h ⊢ with hzero hzeros hmax
  · rw [ofId₀, dif_neg (by omega), dif_pos hlength, if_pos hzeros]
    refine congrArg Except.ok (ext ?_)
    -- what is filled in before the suffix are the version and the first bytes of the id
    have hfront : ns.id.take 18 = List.replicate 18 0 := by
      refine List.eq_replicate_iff.mpr ⟨by rw [List.length_take, hlength]; rfl, fun b hb => ?_⟩
      exact of_decide_eq_true (List.all_eq_true.mp hzeros b hb)
    calc List.replicate (29 - (ns.id.drop 18).length) 0 ++ ns.id.drop 18
        = 0 :: (List.replicate 18 0 ++ ns.id.drop 18) := by rw [List.length_drop, hlength]; rfl
      _ = ns.version :: ns.id := by rw [← hfront, List.take_append_drop, hzero]
      _ = ns.bytes := ns.bytes_eq.symm
  · rw [ofId₂₅₅, dif_pos hlength]
    refine congrArg Except.ok (ext ?_)
    rw [bytes_eq ns, hmax]

/-- Only of the version and the id of a well-formed namespace a namespace is made. -/
theorem validate_of_ofId_eq_ok {ns made : Namespace} (h : ofId ns.version ns.id = .ok made) :
    ns.validate = .ok () := by
  have hlength := ns.length_id
  rw [ofId, ofId₀, dif_neg (by omega), dif_pos hlength] at h
  rw [validate]
  split_ifs at h ⊢ <;> rfl

/-- What is filled in before a suffix are the version and the zeros of the id. -/
theorem validate_ofSuffix (suffix : Bytes) (h : suffix.length ≤ 10) :
    (ofSuffix suffix h).validate = .ok () := by
  have hfront : (ofSuffix suffix h).bytes.take 19 = List.replicate 19 0 := by
    rw [ofSuffix, List.take_append_of_le_length (by rw [List.length_replicate]; omega),
      List.take_replicate, Nat.min_eq_left (by omega)]
  have hversion : (ofSuffix suffix h).version = 0 := by
    rw [version, ← List.take_append_drop 19 (ofSuffix suffix h).bytes, hfront]
    rfl
  have hzeros : (ofSuffix suffix h).id.take 18 = List.replicate 18 0 := by
    rw [id, List.take_drop, hfront]
    rfl
  rw [validate, if_pos hversion, hzeros]
  rfl

/-- **What is made of a version and an id is well-formed.** -/
theorem validate_ofId {version : UInt8} {id : Bytes} {ns : Namespace}
    (h : ofId version id = .ok ns) : ns.validate = .ok () := by
  rw [ofId, ofId₀, ofId₂₅₅] at h
  split_ifs at h
  · obtain rfl := Except.ok.inj h
    exact validate_ofSuffix _ _
  · obtain rfl := Except.ok.inj h
    exact validate_ofSuffix _ _
  · obtain rfl := Except.ok.inj h
    rfl

/-- **Bytes are made into a namespace** exactly if they are those of a well-formed one. -/
theorem ofRaw_eq_ok_iff {bs : Bytes} {ns : Namespace} :
    ofRaw bs = .ok ns ↔ ns.bytes = bs ∧ ns.validate = .ok () := by
  rw [ofRaw]
  constructor
  · intro h
    split at h
    case isTrue hlength =>
      have hvalid : (⟨bs, hlength⟩ : Namespace).validate = .ok () := validate_of_ofId_eq_ok h
      have hsame := (ofId_version_id hvalid).symm.trans h
      obtain rfl := Except.ok.inj hsame
      exact ⟨rfl, hvalid⟩
    case isFalse => cases h
  · rintro ⟨rfl, hvalid⟩
    rw [if_pos ns.length_bytes]
    exact ofId_version_id hvalid

end Availability.Namespace
