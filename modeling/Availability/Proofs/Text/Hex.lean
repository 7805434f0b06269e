import Availability.Text.Hex
import Mathlib.Tactic.Common

/-!
# Hexadecimal text is read back

* `Hex.decode?_encodeUpper` – upper case text is read back.
-/

namespace Availability.Hex

theorem digitValue?_toUpper_digit {n : Nat} (h : n < 16) :
    digitValue? (digit n).toUpper = some n := by
  revert n
  decide

/-- A reader that has read some bytes appends those of a text to them. -/
theorem decodeOnto?_encodeChars (before bs : Bytes) :
    decodeOnto? before ((encodeChars bs).map Char.toUpper) = some (before.reverse ++ bs) := by
  induction bs generalizing before with
  | nil => simp [encodeChars, decodeOnto?]
  | cons b bs ih =>
    have hb := b.toNat_lt
    have hbyte : UInt8.ofNat (16 * (b.toNat / 16) + b.toNat % 16) = b := by
      rw [Nat.div_add_mod, UInt8.ofNat_toNat]
    have hchars : encodeChars (b :: bs) =
        digit (b.toNat / 16) :: digit (b.toNat % 16) :: encodeChars bs := rfl
    simp only [hchars, List.map_cons, decodeOnto?,
      digitValue?_toUpper_digit (show b.toNat / 16 < 16 by omega),
      digitValue?_toUpper_digit (show b.toNat % 16 < 16 by omega), hbyte, ih]
    simp

/-- **Upper case text is read back.** -/
theorem decode?_encodeUpper (bs : Bytes) : decode? (encodeUpper bs) = some bs := by
  simp only [decode?, encodeUpper, String.toList_ofList, decodeOnto?_encodeChars, List.reverse_nil,
    List.nil_append]

end Availability.Hex
