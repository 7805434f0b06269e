import Availability.Json.Reader
import Mathlib.Data.List.Basic
import Mathlib.Data.Nat.Digits.Lemmas
import Mathlib.Tactic.Common

/-!
# Numbers and strings in a text are read back

A number has no end of its own: what follows it has to end it. In the text of a value this is a
comma, a bracket or nothing, and these are told apart from a digit, a point and an exponent. A
string ends with its quote, so that anything may follow; its characters are read one by one, each of
them as it was written.

* `Json.Closes` – what may **follow** a value;
* `Json.readNumber?_digits` – a whole number is read back in front of what closes it;
* `Json.readString_escape` – one character of a string, and `Json.readString_quote` – all of them.
-/

namespace Availability.Json

/-! ### What follows a value -/

/-- The characters end the value before them: there are none, or the first one is a comma or closes
an array or an object. -/
def Closes (tail : List Char) : Prop :=
  ∀ c ∈ tail.head?, c = ',' ∨ c = ']' ∨ c = '}'

theorem closes_nil : Closes [] := by
  simp [Closes]

theorem closes_comma (tail : List Char) : Closes (',' :: tail) := by
  simp [Closes]

theorem closes_bracket (tail : List Char) : Closes (']' :: tail) := by
  simp [Closes]

theorem closes_brace (tail : List Char) : Closes ('}' :: tail) := by
  simp [Closes]

/-- What is no blank is not passed over. -/
theorem skipBlanks_cons {c : Char} (h : ¬(c = ' ' ∨ c = '\n' ∨ c = '\t' ∨ c = '\r'))
    (cs : List Char) : skipBlanks (c :: cs) = c :: cs :=
  if_neg h

/-! ### Digits -/

/-- The first digit of a number other than zero is not zero. -/
theorem exists_toDigits_eq_cons {n : Nat} (h : n ≠ 0) :
    ∃ c cs, Nat.toDigits 10 n = c :: cs ∧ c.toNat - 48 ≠ 0 := by
  induction n using Nat.strongRecOn with
  | ind n ih =>
    by_cases hn : n < 10
    · rw [Nat.toDigits_of_lt_base hn]
      exact ⟨_, [], rfl, by revert h; interval_cases n <;> decide⟩
    · obtain ⟨c, cs, hcs, hc⟩ := ih (n / 10) (by omega) (by omega)
      rw [Nat.toDigits_of_base_le (by decide) (by omega), hcs]
      exact ⟨c, _, rfl, hc⟩

theorem digitValue?_of_isDigit {c : Char} (h : c.isDigit = true) :
    Decimal.digitValue? c = some (c.toNat - 48) := by
  simp only [Char.isDigit, Bool.and_eq_true, decide_eq_true_eq] at h
  exact if_pos h

theorem takeDigits_append {cs tail : List Char} (h : ∀ c ∈ cs, c.isDigit = true)
    (htail : ∀ c ∈ tail.head?, Decimal.digitValue? c = none) :
    takeDigits (cs ++ tail) = (cs.map fun c => c.toNat - 48, tail) := by
  induction cs with
  | nil =>
    cases tail with
    | nil => rfl
    | cons c tail => simp [takeDigits, htail c rfl]
  | cons c cs ih =>
    rw [List.forall_mem_cons] at h
    simp [takeDigits, digitValue?_of_isDigit h.1, ih h.2]

theorem ofDigits_map (cs : List Char) :
    Decimal.ofDigits (cs.map fun c => c.toNat - 48) = Nat.ofDigitChars 10 cs 0 := by
  simp only [Decimal.ofDigits, Nat.ofDigitChars, List.foldl_map]
  rfl

/-! ### Numbers -/

namespace Closes

variable {tail : List Char}

theorem digitValue?_head (h : Closes tail) : ∀ c ∈ tail.head?, Decimal.digitValue? c = none := by
  intro c hc
  obtain rfl | rfl | rfl := h c hc <;> rfl

theorem skipBlanks_eq (h : Closes tail) : skipBlanks tail = tail := by
  cases tail with
  | nil => rfl
  | cons c tail => obtain rfl | rfl | rfl := h c rfl <;> rfl

theorem readFraction?_eq (h : Closes tail) : readFraction? tail = some (none, tail) := by
  cases tail with
  | nil => rfl
  | cons c tail => obtain rfl | rfl | rfl := h c rfl <;> rfl

theorem readExponent?_eq (h : Closes tail) : readExponent? tail = some (none, tail) := by
  cases tail with
  | nil => rfl
  | cons c tail => obtain rfl | rfl | rfl := h c rfl <;> rfl

end Closes

/-- The digits of a whole number start with zero only when it is zero. -/
theorem readWhole?_digits (n : Nat) {tail : List Char} (htail : Closes tail) :
    readWhole? (Nat.toDigits 10 n ++ tail) =
      some ((Nat.toDigits 10 n).map fun c => c.toNat - 48, tail) := by
  have hdigits : ∀ c ∈ Nat.toDigits 10 n, c.isDigit = true := by
    intro c hc
    exact Nat.isDigit_of_mem_toDigits (b := 10) (n := n) (by decide) (by decide) hc
  rw [readWhole?, takeDigits_append hdigits htail.digitValue?_head]
  by_cases hn : n = 0
  · subst hn
    rfl
  · obtain ⟨c, cs, hcs, hc⟩ := exists_toDigits_eq_cons hn
    rw [hcs, List.map_cons]
    split
    · next heq => simp at heq
    · next heq =>
      simp only [Prod.mk.injEq, List.cons.injEq] at heq
      exact absurd heq.1.1 hc
    · rfl

/-- The value of the digits of a number. -/
theorem ofDigits_toDigits (n : Nat) :
    Decimal.ofDigits ((Nat.toDigits 10 n).map fun c => c.toNat - 48) = n := by
  rw [ofDigits_map, Nat.ofDigitChars_toDigits (by decide) (by decide)]

/-- **A whole number is read back** in front of what closes it. -/
theorem readNumber?_digits (negative : Bool) (n : Nat) {tail : List Char} (htail : Closes tail) :
    readNumber? negative (Nat.toDigits 10 n ++ tail) =
      some (numberValue negative ((Nat.toDigits 10 n).map fun c => c.toNat - 48) none none,
        tail) := by
  simp only [readNumber?, readWhole?_digits n htail, htail.readFraction?_eq, htail.readExponent?_eq,
    Option.bind_eq_bind, Option.bind_some, Option.pure_def]

theorem numberValue_nonneg {n : Nat} (h : n < UInt64.size) :
    numberValue false ((Nat.toDigits 10 n).map fun c => c.toNat - 48) none none = int n := by
  simp [numberValue, ofDigits_toDigits, h]

theorem numberValue_neg {n : Nat} (hpos : 0 < n) (h : n ≤ UInt64.size / 2) :
    numberValue true ((Nat.toDigits 10 n).map fun c => c.toNat - 48) none none = int (-n) := by
  simp only [numberValue, ofDigits_toDigits]
  simp [hpos, h]

/-! ### Strings -/

theorem hexValue?_digitChar {n : Nat} (h : n < 16) : hexValue? (Nat.digitChar n) = some n := by
  revert n
  decide

/-- **A character of a string is read as it was written.** -/
theorem readString_escape (fuel : Nat) (acc rest : List Char) (c : Char) :
    readString (fuel + 1) (some acc) (escape c ++ rest) =
      readString fuel (some (c :: acc)) rest := by
  -- the escapes with a letter are read by their letter
  rw [escape]
  split_ifs with hquote hslash hn hr ht hb hf hcontrol
  · rw [hquote]; rfl
  · rw [hslash]; rfl
  · rw [hn]; rfl
  · rw [hr]; rfl
  · rw [ht]; rfl
  · rw [hb]; rfl
  · rw [hf]; rfl
  · have hhigh := hexValue?_digitChar (show c.toNat / 16 < 16 by omega)
    have hlow := hexValue?_digitChar (show c.toNat % 16 < 16 by omega)
    have hzero : hexValue? '0' = some 0 := rfl
    have hunit : 16 * (c.toNat / 16) + c.toNat % 16 = c.toNat := Nat.div_add_mod _ _
    simp only [List.cons_append, List.nil_append, readString, readUnit?, hhigh, hlow, hzero,
      Option.bind_eq_bind, Option.bind_some, Option.pure_def, Nat.mul_zero, Nat.zero_add, hunit]
    rw [if_neg (by omega), if_neg (by omega), Char.ofNat_toNat]
    rfl
  · rw [List.singleton_append, readString.eq_def]
    simp [hslash, hcontrol]

/-- What is read of a string when some characters before were read already. -/
theorem readString_flatMap (cs tail acc : List Char) {fuel : Nat} (h : cs.length < fuel) :
    readString fuel (some acc) (cs.flatMap escape ++ '"' :: tail) =
      some (some (String.ofList (acc.reverse ++ cs)), tail) := by
  obtain ⟨fuel, rfl⟩ := Nat.exists_eq_succ_of_ne_zero (show fuel ≠ 0 by omega)
  induction cs generalizing fuel acc with
  | nil => simp [readString]
  | cons c cs ih =>
    rw [List.length_cons] at h
    obtain ⟨fuel, rfl⟩ := Nat.exists_eq_succ_of_ne_zero (show fuel ≠ 0 by omega)
    rw [List.flatMap_cons, List.append_assoc, readString_escape, ih _ _ (by omega)]
    simp

theorem one_le_length_escape (c : Char) : 1 ≤ (escape c).length := by
  rw [escape]
  split_ifs <;> simp

theorem length_le_length_flatMap (cs : List Char) : cs.length ≤ (cs.flatMap escape).length := by
  induction cs with
  | nil => rfl
  | cons c cs ih =>
    have := one_le_length_escape c
    rw [List.flatMap_cons, List.length_append, List.length_cons]
    omega

theorem quote_append (s : String) (tail : List Char) :
    quote s ++ tail = '"' :: (s.toList.flatMap escape ++ '"' :: tail) := by
  simp [quote]

/-- **A string is read back** from behind its first quote, whatever follows it. -/
theorem readString_quote (s : String) (tail : List Char) :
    readString ((s.toList.flatMap escape ++ '"' :: tail).length + 1) (some [])
      (s.toList.flatMap escape ++ '"' :: tail) = some (some s, tail) := by
  have := length_le_length_flatMap s.toList
  rw [readString_flatMap s.toList tail [] (by rw [List.length_append]; omega)]
  simp

end Availability.Json
