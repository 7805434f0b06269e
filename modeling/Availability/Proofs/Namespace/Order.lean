import Availability.Namespace.Rules
import Availability.Proofs.Checked
import Mathlib.Order.Defs.LinearOrder

/-!
# The order of namespaces

Namespaces are compared byte by byte, so they are in a **linear order**. In a sorted row of a square
the reserved namespaces of version 0 come first, then those of the blobs of users, then padding and
parity.

* `Namespace.le_parity` – parity comes last of all;
* `Namespace.validateForBlob_eq_ok_iff` – where the namespaces of blobs lie;
* `Namespace.lt_tailPadding`, `Namespace.ne_parity`, `Namespace.not_isCompact`,
  `Namespace.not_isReserved` – what follows for a share of a blob.
-/

namespace Availability.Namespace

instance : LinearOrder Namespace where
  le_refl a := List.le_refl a.bytes
  le_trans a b c h h' :=
    List.le_trans (show a.bytes ≤ b.bytes from h) (show b.bytes ≤ c.bytes from h')
  le_antisymm _ _ h h' := ext (List.le_antisymm h h')
  le_total a b := List.le_total a.bytes b.bytes
  lt_iff_le_not_ge a b := by
    constructor
    · exact fun h => ⟨List.le_of_lt h, List.not_le.mpr h⟩
    · exact fun h => List.not_le.mp h.2
  toDecidableLE := inferInstance
  toDecidableLT := inferInstance
  toDecidableEq := inferInstance
  compare a b := compare a b
  compare_eq_compareOfLessAndEq _ _ := rfl

/-- A namespace is below another when its version is. -/
theorem lt_of_version_lt {a b : Namespace} (h : a.version < b.version) : a < b := by
  obtain ⟨as, ha⟩ := a
  obtain ⟨bs, hb⟩ := b
  rcases as with _ | ⟨x, as⟩
  · simp at ha
  rcases bs with _ | ⟨y, bs⟩
  · simp at hb
  exact List.Lex.rel h

/-- **Parity is the largest namespace.** -/
theorem le_parity (ns : Namespace) : ns ≤ parity := by
  have h (bs : Bytes) : bs ≤ List.replicate bs.length 255 := by
    induction bs with
    | nil => exact List.le_refl _
    | cons b bs ih =>
      rw [List.length_cons, List.replicate_succ, List.cons_le_cons_iff]
      by_cases hb : b = 255
      · exact Or.inr ⟨hb, ih⟩
      · have hne : b.toNat ≠ 255 := fun h => hb (UInt8.toNat_inj.mp h)
        have hlt := b.toNat_lt
        exact Or.inl (UInt8.lt_iff_toNat_lt.mpr (show b.toNat < 255 by omega))
  have hns := h ns.bytes
  rwa [ns.length_bytes] at hns

/-! ### The namespaces of blobs -/

/-- **The namespaces of blobs** are the well-formed ones of version 0 above the reserved ones. -/
theorem validateForBlob_eq_ok_iff {ns : Namespace} :
    ns.validateForBlob = .ok () ↔
      ns.validate = .ok () ∧ maxPrimaryReserved < ns ∧ ns.version = 0 := by
  have hdata : ns.version = 0 → ¬(ns = parity ∨ ns = tailPadding) := by
    rintro h (rfl | rfl) <;> exact absurd h (by decide)
  simp only [validateForBlob, validateForData, Checked.bind_eq_ok_iff]
  constructor
  · rintro ⟨_, ⟨_, hv, -⟩, h⟩
    split at h
    · cases h
    case isFalse hle =>
      split at h
      · cases h
      case isFalse hver => exact ⟨hv, not_le.mp hle, not_not.mp hver⟩
  · rintro ⟨hv, hlt, hver⟩
    refine ⟨(), ⟨(), hv, if_neg (hdata hver)⟩, ?_⟩
    rw [if_neg (not_le.mpr hlt), if_neg (not_not.mpr hver)]

section Blob

variable {ns : Namespace} (h : ns.validateForBlob = .ok ())
include h

/-- The padding after the last blob comes after every blob. -/
theorem lt_tailPadding : ns < tailPadding := by
  obtain ⟨-, -, hver⟩ := validateForBlob_eq_ok_iff.mp h
  exact lt_of_version_lt (by rw [hver]; decide)

/-- Parity shares come after every blob. -/
theorem ne_parity : ns ≠ parity := by
  rintro rfl
  exact absurd (validateForBlob_eq_ok_iff.mp h).2.2 (by decide)

/-- Blobs are not written in compact shares. -/
theorem not_isCompact : ns.isCompact = false := by
  obtain ⟨-, hlt, -⟩ := validateForBlob_eq_ok_iff.mp h
  have htransaction : ns ≠ transaction := by
    rintro rfl
    exact absurd hlt (by decide)
  have hpay : ns ≠ payForBlob := by
    rintro rfl
    exact absurd hlt (by decide)
  simp [isCompact, htransaction, hpay]

/-- Blobs are not in the reserved namespaces. -/
theorem not_isReserved : ns.isReserved = false := by
  obtain ⟨-, hlt, hver⟩ := validateForBlob_eq_ok_iff.mp h
  have hsecondary : ns < minSecondaryReserved := lt_of_version_lt (by rw [hver]; decide)
  simp [isReserved, hlt, hsecondary]

end Blob

end Availability.Namespace
