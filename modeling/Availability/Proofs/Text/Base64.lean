import Availability.Text.Base64
import Mathlib.Data.List.Basic
import Mathlib.Tactic.Common

/-!
# Base64 text is read back

The text of some bytes is a row of digits followed by the signs that fill up the last group. What is
told apart here is what the two halves do: the digits carry **all** the bytes, and the signs only
have to be as many as the last group lacks.

* `Base64.sextets`, `Base64.filling` – the two halves of a text, `Base64.encodeChars_eq`;
* `Base64.decodeDigits?_sextets` – the digits give the bytes back, even to a strict reader;
* `Base64.decodeLoose?_encode`, `Base64.decode?_encode` – a text is read back, by either reader.
-/

namespace Availability.Base64

/-! ### Digits -/

theorem digitValue?_digit {n : Nat} (h : n < 64) : digitValue? (digit n) = some n := by
  revert n
  decide

theorem digit_ne_sign {n : Nat} (h : n < 64) : digit n ≠ '=' := by
  revert n
  decide

/-- Digits of numbers are read as these numbers. -/
theorem mapM_digitValue?_digit {ns : List Nat} (h : ∀ n ∈ ns, n < 64) :
    (ns.map digit).mapM digitValue? = some ns := by
  induction ns with
  | nil => rfl
  | cons n ns ih =>
    rw [List.forall_mem_cons] at h
    simp [List.mapM_cons, digitValue?_digit h.1, ih h.2]

/-! ### The two halves of a text -/

/-- The numbers of six bits that some bytes are written as. -/
def sextets : Bytes → List Nat
  | a :: b :: c :: rest =>
    a.toNat / 4 :: (a.toNat % 4 * 16 + b.toNat / 16) :: (b.toNat % 16 * 4 + c.toNat / 64) ::
      c.toNat % 64 :: sextets rest
  | [a, b] => [a.toNat / 4, a.toNat % 4 * 16 + b.toNat / 16, b.toNat % 16 * 4]
  | [a] => [a.toNat / 4, a.toNat % 4 * 16]
  | [] => []

/-- The signs that fill up the last group. -/
def filling : Bytes → List Char
  | _ :: _ :: _ :: rest => filling rest
  | [_, _] => ['=']
  | [_] => ['=', '=']
  | [] => []

theorem encodeChars_eq (bs : Bytes) : encodeChars bs = (sextets bs).map digit ++ filling bs := by
  induction bs using encodeChars.induct with
  | case1 a b c rest ih => simp [encodeChars, sextets, filling, ih]
  | case2 a b => rfl
  | case3 a => rfl
  | case4 => rfl

theorem lt_of_mem_sextets {bs : Bytes} : ∀ n ∈ sextets bs, n < 64 := by
  induction bs using sextets.induct with
  | case1 a b c rest ih =>
    have := a.toNat_lt
    have := b.toNat_lt
    have := c.toNat_lt
    simp only [sextets, List.forall_mem_cons]
    exact ⟨by omega, by omega, by omega, by omega, ih⟩
  | case2 a b =>
    have := a.toNat_lt
    have := b.toNat_lt
    simp only [sextets, List.forall_mem_cons, List.not_mem_nil, false_implies, implies_true,
      and_true]
    omega
  | case3 a =>
    have := a.toNat_lt
    simp only [sextets, List.forall_mem_cons, List.not_mem_nil, false_implies, implies_true,
      and_true]
    omega
  | case4 => simp [sextets]

/-- The signs are as many as the last group lacks. -/
theorem isFilling_filling (bs : Bytes) : isFilling (sextets bs).length (filling bs) = true := by
  induction bs using sextets.induct with
  | case1 a b c rest ih =>
    simpa only [isFilling, sextets, filling, List.length_cons, Nat.add_assoc, Nat.reduceAdd,
      Nat.add_mod_right] using ih
  | case2 a b => rfl
  | case3 a => rfl
  | case4 => rfl

/-- **The digits carry all the bytes**, and no bit that no byte uses is set in the last one. -/
theorem decodeDigits?_sextets (strict : Bool) (bs : Bytes) :
    decodeDigits? strict (sextets bs) = some bs := by
  have byte {a : UInt8} {n : Nat} (h : n % 256 = a.toNat) : UInt8.ofNat n = a :=
    UInt8.toNat_inj.mp ((UInt8.toNat_ofNat').trans h)
  induction bs using sextets.induct with
  | case1 a b c rest ih =>
    have := a.toNat_lt
    have := b.toNat_lt
    have := c.toNat_lt
    rw [sextets, decodeDigits?, ih, byte (a := a) (by omega), byte (a := b) (by omega),
      byte (a := c) (by omega)]
    rfl
  | case2 a b =>
    have := a.toNat_lt
    have := b.toNat_lt
    rw [sextets, decodeDigits?, byte (a := a) (by omega), byte (a := b) (by omega),
      if_neg (by simp)]
  | case3 a =>
    have := a.toNat_lt
    rw [sextets, decodeDigits?, byte (a := a) (by omega), if_neg (by simp)]
  | case4 => rfl

/-! ### Whole texts -/

theorem takeWhile_filling (bs : Bytes) : (filling bs).takeWhile (· ≠ '=') = [] := by
  induction bs using filling.induct with
  | case1 a b c rest ih => exact ih
  | case2 a b => rfl
  | case3 a => rfl
  | case4 => rfl

/-- The digits of a text are what comes before the first sign. -/
theorem takeWhile_encodeChars (bs : Bytes) :
    (encodeChars bs).takeWhile (· ≠ '=') = (sextets bs).map digit := by
  have hdigits : ∀ c ∈ (sextets bs).map digit, decide (c ≠ '=') = true := by
    intro c hc
    obtain ⟨n, hn, rfl⟩ := List.mem_map.mp hc
    exact decide_eq_true (digit_ne_sign (lt_of_mem_sextets n hn))
  rw [encodeChars_eq, List.takeWhile_append_of_pos hdigits, takeWhile_filling, List.append_nil]

/-- A text is made of whole groups of four characters. -/
theorem length_encodeChars_mod (bs : Bytes) : (encodeChars bs).length % 4 = 0 := by
  induction bs using encodeChars.induct with
  | case1 a b c rest ih =>
    simpa only [encodeChars, List.length_cons, Nat.add_assoc, Nat.reduceAdd, Nat.add_mod_right]
      using ih
  | case2 a b => simp [encodeChars]
  | case3 a => simp [encodeChars]
  | case4 => rfl

theorem filling_cases (bs : Bytes) :
    filling bs = [] ∨ filling bs = ['='] ∨ filling bs = ['=', '='] := by
  induction bs using filling.induct with
  | case1 a b c rest ih => exact ih
  | case2 a b => exact .inr (.inl rfl)
  | case3 a => exact .inr (.inr rfl)
  | case4 => exact .inl rfl

/-- Taking the signs off leaves the digits, none of which is a sign. -/
theorem unfilled_append {cs signs : List Char} (hcs : ∀ c ∈ cs, c ≠ '=')
    (hsigns : signs = [] ∨ signs = ['='] ∨ signs = ['=', '=']) : unfilled (cs ++ signs) = cs := by
  have hlast {rest : List Char} : cs.reverse ≠ '=' :: rest := by
    intro heq
    have hmem : '=' ∈ cs.reverse := heq ▸ List.mem_cons_self
    exact hcs '=' (List.mem_reverse.mp hmem) rfl
  rcases hsigns with rfl | rfl | rfl
  · rw [List.append_nil, unfilled]
    split
    · next heq => exact absurd heq hlast
    · next heq => exact absurd heq hlast
    · rfl
  · rw [unfilled, List.reverse_append]
    split
    · next heq => exact absurd (List.cons.inj heq).2 hlast
    · next rest _ heq =>
      obtain rfl : cs.reverse = rest := (List.cons.inj heq).2
      exact List.reverse_reverse cs
    · next hother => exact absurd rfl (hother cs.reverse)
  · rw [unfilled, List.reverse_append]
    exact List.reverse_reverse cs

/-- **Padded base64 text is read back** by the strict reader. -/
theorem decode?_encode (bs : Bytes) : decode? (encode bs) = some bs := by
  have hdigits : ∀ c ∈ (sextets bs).map digit, c ≠ '=' := by
    intro c hc
    obtain ⟨n, hn, rfl⟩ := List.mem_map.mp hc
    exact digit_ne_sign (lt_of_mem_sextets n hn)
  have hunfilled : unfilled (encodeChars bs) = (sextets bs).map digit := by
    rw [encodeChars_eq]
    exact unfilled_append hdigits (filling_cases bs)
  rw [decode?, encode, String.toList_ofList, length_encodeChars_mod, hunfilled,
    mapM_digitValue?_digit lt_of_mem_sextets]
  exact decodeDigits?_sextets true bs

/-- **Base64 text is read back** by the reader that takes any filling. -/
theorem decodeLoose?_encode (bs : Bytes) : decodeLoose? (encode bs) = some bs := by
  have hrest : (encodeChars bs).drop ((sextets bs).map digit).length = filling bs := by
    rw [encodeChars_eq, List.drop_left]
  have hfills : isFilling ((sextets bs).map digit).length (filling bs) = true := by
    rw [List.length_map]
    exact isFilling_filling bs
  rw [decodeLoose?, encode, String.toList_ofList, takeWhile_encodeChars]
  rw [hrest, hfills, mapM_digitValue?_digit lt_of_mem_sextets]
  exact decodeDigits?_sextets false bs

end Availability.Base64
