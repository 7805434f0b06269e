import Availability.Wire
import Mathlib.Algebra.Group.Int.Defs
import Mathlib.Data.List.Basic
import Mathlib.Tactic.Common

/-!
# Records can be told apart

A record is hashed as it stands, so what is hashed tells the values of its fields only if no two
records have the same bytes. A field that has the value by default leaves no trace. What follows it
then moves to its place, and could be taken for the field itself were it not for its **tag**.

* `Varint.encode_append_inj` – a number of variable length can be told from what follows it;
* `Wire.number_append_inj`, `Wire.bytes_append_inj` – so can a field from what follows, as long as
  **this does not begin with the same tag**;
* `Wire.number_injective`, `Wire.bytes_injective`, `Wire.text_injective` – fields by themselves.
-/

namespace Availability

/-! ### Numbers of variable length -/

namespace Varint

theorem encode_of_lt {n : Nat} (h : n < 128) : encode n = [UInt8.ofNat n] := by
  rw [encode, if_pos h]

theorem encode_of_le {n : Nat} (h : 128 ≤ n) :
    encode n = UInt8.ofNat (n % 128 + 128) :: encode (n / 128) := by
  rw [encode, if_neg (Nat.not_lt.mpr h)]

theorem encode_ne_nil (n : Nat) : encode n ≠ [] := by
  rcases Nat.lt_or_ge n 128 with h | h
  · simp [encode_of_lt h]
  · simp [encode_of_le h]

/-- Bytes of the same number are the same number. -/
theorem eq_of_byte_eq {m n : Nat} (hm : m < 256) (hn : n < 256)
    (h : UInt8.ofNat m = UInt8.ofNat n) : m = n := by
  have h' := congrArg UInt8.toNat h
  rwa [UInt8.toNat_ofNat_of_lt' hm, UInt8.toNat_ofNat_of_lt' hn] at h'

/-- **A number can be told from what follows it**: its first byte says whether it goes on. -/
theorem encode_append_inj {m n : Nat} {rest rest' : Bytes}
    (h : encode m ++ rest = encode n ++ rest') : m = n ∧ rest = rest' := by
  induction m using encode.induct generalizing n with
  | case1 m hm =>
    rcases Nat.lt_or_ge n 128 with hn | hn
    · rw [encode_of_lt hm, encode_of_lt hn] at h
      obtain ⟨hbyte, hrest⟩ := List.cons.inj h
      exact ⟨eq_of_byte_eq (by omega) (by omega) hbyte, hrest⟩
    · rw [encode_of_lt hm, encode_of_le hn] at h
      have := eq_of_byte_eq (by omega) (by omega) (List.cons.inj h).1
      omega
  | case2 m hm ih =>
    have hm := Nat.le_of_not_lt hm
    rcases Nat.lt_or_ge n 128 with hn | hn
    · rw [encode_of_le hm, encode_of_lt hn] at h
      have := eq_of_byte_eq (by omega) (by omega) (List.cons.inj h).1
      omega
    · rw [encode_of_le hm, encode_of_le hn] at h
      obtain ⟨hbyte, htail⟩ := List.cons.inj h
      have hmod := eq_of_byte_eq (by omega) (by omega) hbyte
      obtain ⟨hdiv, hrest⟩ := ih htail
      exact ⟨by omega, hrest⟩

end Varint

theorem Bytes.ofString_injective : Function.Injective Bytes.ofString := by
  intro s t h
  exact String.toByteArray_inj.mp (ByteArray.ext (Array.toList_inj.mp h))

namespace Wire

/-! ### Tags -/

/-- The field and the way of a tag can be read from it. -/
theorem tag_append_inj {field field' way way' : Nat} {rest rest' : Bytes} (hway : way < 8)
    (hway' : way' < 8) (h : tag field way ++ rest = tag field' way' ++ rest') :
    field = field' ∧ way = way' ∧ rest = rest' := by
  obtain ⟨htag, hrest⟩ := Varint.encode_append_inj h
  exact ⟨by omega, by omega, hrest⟩

/-- The bytes begin with the tag. -/
def Tagged (field way : Nat) (bs : Bytes) : Prop :=
  ∃ rest, bs = tag field way ++ rest

theorem not_tagged_nil (field way : Nat) : ¬Tagged field way [] := by
  rintro ⟨rest, h⟩
  exact Varint.encode_ne_nil _ (List.append_eq_nil_iff.mp h.symm).1

/-! ### Numbers -/

/-- A signed 64-bit number. -/
def IsInt64 (n : Int) : Prop :=
  -2 ^ 63 ≤ n ∧ n < 2 ^ 63

theorem number_zero (field : Nat) : number field 0 = [] := if_pos rfl

theorem number_of_ne {n : Int} (h : n ≠ 0) (field : Nat) :
    number field n = tag field 0 ++ Varint.encode (n % UInt64.size).toNat := if_neg h

/-- A field does not begin with the tag of another one, even when it is left out. -/
theorem not_tagged_number {field other : Nat} (h : other ≠ field) (n : Int) :
    ¬Tagged field 0 (number other n) := by
  rcases eq_or_ne n 0 with rfl | hn
  · rw [number_zero]
    exact not_tagged_nil field 0
  · rw [number_of_ne hn]
    rintro ⟨rest, htag⟩
    exact h (tag_append_inj (by decide) (by decide) htag).1

/-- Signed numbers of 64 bits that are the same modulo 2⁶⁴ are the same. -/
theorem eq_of_toNat_emod_eq {m n : Int} (hm : IsInt64 m) (hn : IsInt64 n)
    (h : (m % UInt64.size).toNat = (n % UInt64.size).toNat) : m = n := by
  have hsize : (UInt64.size : Int) = 2 ^ 64 := rfl
  rw [hsize] at h
  unfold IsInt64 at hm hn
  omega

/-- So are unsigned ones. -/
theorem toNat_eq_of_toNat_emod_eq {m n : UInt64}
    (h : ((m.toNat : Int) % UInt64.size).toNat = ((n.toNat : Int) % UInt64.size).toNat) :
    (m.toNat : Int) = n.toNat := by
  have hsize : (UInt64.size : Int) = 2 ^ 64 := rfl
  have hm := m.toNat_lt
  have hn := n.toNat_lt
  rw [hsize] at h
  omega

/-- **A number in a field can be told from what follows it**, unless this begins with the tag of the
same field. Only the number modulo 2⁶⁴ is written, so this must tell which number it is. -/
theorem number_append_inj {field : Nat} {m n : Int} {rest rest' : Bytes}
    (hword : (m % UInt64.size).toNat = (n % UInt64.size).toNat → m = n)
    (hrest : ¬Tagged field 0 rest) (hrest' : ¬Tagged field 0 rest')
    (h : number field m ++ rest = number field n ++ rest') : m = n ∧ rest = rest' := by
  rcases eq_or_ne m 0 with rfl | hm0 <;> rcases eq_or_ne n 0 with rfl | hn0
  · exact ⟨rfl, h⟩
  · -- here and in the next case, what follows the number would begin with its tag
    rw [number_zero, number_of_ne hn0, List.append_assoc] at h
    exact absurd ⟨_, h⟩ hrest
  · rw [number_zero, number_of_ne hm0, List.append_assoc] at h
    exact absurd ⟨_, h.symm⟩ hrest'
  · rw [number_of_ne hm0, number_of_ne hn0, List.append_assoc, List.append_assoc] at h
    obtain ⟨-, -, h⟩ := tag_append_inj (by decide) (by decide) h
    obtain ⟨hmod, hrest⟩ := Varint.encode_append_inj h
    exact ⟨hword hmod, hrest⟩

theorem number_injective {field : Nat} {m n : Int}
    (hword : (m % UInt64.size).toNat = (n % UInt64.size).toNat → m = n)
    (h : number field m = number field n) : m = n :=
  (number_append_inj hword (not_tagged_nil field 0) (not_tagged_nil field 0)
    (congrArg (· ++ []) h)).1

/-! ### Bytes and records -/

theorem nested_append (field : Nat) (content rest : Bytes) :
    nested field content ++ rest =
      tag field 2 ++ (Varint.encode content.length ++ (content ++ rest)) := by
  simp only [nested, List.append_assoc]

theorem nested_append_inj {field : Nat} {content content' rest rest' : Bytes}
    (h : nested field content ++ rest = nested field content' ++ rest') :
    content = content' ∧ rest = rest' := by
  rw [nested_append, nested_append] at h
  obtain ⟨-, -, h⟩ := tag_append_inj (by decide) (by decide) h
  obtain ⟨hlength, h⟩ := Varint.encode_append_inj h
  exact List.append_inj h hlength

theorem not_tagged_nested {field other : Nat} (h : other ≠ field) (content : Bytes) :
    ¬Tagged field 2 (nested other content) := by
  rintro ⟨rest, htag⟩
  rw [← List.append_nil (nested other content), nested_append] at htag
  exact h (tag_append_inj (by decide) (by decide) htag).1

theorem bytes_nil (field : Nat) : bytes field [] = [] := rfl

theorem bytes_of_ne_nil {content : Bytes} (h : content ≠ []) (field : Nat) :
    bytes field content = nested field content := by
  rw [bytes, if_neg (by simpa using h)]

/-- **Bytes in a field can be told from what follows them**, unless this begins with the tag of the
same field. -/
theorem bytes_append_inj {field : Nat} {content content' rest rest' : Bytes}
    (hrest : ¬Tagged field 2 rest) (hrest' : ¬Tagged field 2 rest')
    (h : bytes field content ++ rest = bytes field content' ++ rest') :
    content = content' ∧ rest = rest' := by
  rcases eq_or_ne content [] with rfl | hc <;> rcases eq_or_ne content' [] with rfl | hc'
  · exact ⟨rfl, h⟩
  · rw [bytes_nil, bytes_of_ne_nil hc', nested_append] at h
    exact absurd ⟨_, h⟩ hrest
  · rw [bytes_nil, bytes_of_ne_nil hc, nested_append] at h
    exact absurd ⟨_, h.symm⟩ hrest'
  · rw [bytes_of_ne_nil hc, bytes_of_ne_nil hc'] at h
    exact nested_append_inj h

theorem bytes_injective (field : Nat) : Function.Injective (bytes field) := by
  intro content content' h
  exact (bytes_append_inj (not_tagged_nil field 2) (not_tagged_nil field 2)
    (congrArg (· ++ []) h)).1

theorem text_injective (field : Nat) : Function.Injective (text field) := by
  intro content content' h
  exact Bytes.ofString_injective (bytes_injective field h)

end Wire

end Availability
