import Availability.Text.Bech32
import Mathlib.Data.List.Basic
import Mathlib.Data.List.Induction
import Mathlib.Data.Nat.Bitwise
import Mathlib.Tactic.Common

/-!
# The checksum is solved for its last symbols

Taking a symbol into the checksum does not mix it with what is there already: the two are added bit
by bit, and so are their later traces. What six last symbols do to a checksum is therefore what they
do to zero, where they are nothing but the digits of a number, as no bit of them has yet come far
enough to be fed back. So for each word, each row of symbols and each value that the checksum may be
asked for, there is **one** way to end the row.

* `Bech32.step_xor`, `Bech32.foldl_step_xor` – symbols are taken in **bit by bit**;
* `Bech32.lastSymbols`, `Bech32.lastSymbols_foldl_step` – few symbols are the digits of what they do
  to zero;
* `Bech32.tailOf`, `Bech32.checksum_append_eq_iff` – the symbols at the end, and that there are no
  others.
-/

namespace Availability.Bech32

/-! ### One symbol -/

/-- Adds the numbers of those pairs whose bit is set. -/
def feedback (top : Nat) (pairs : List (Nat × Nat)) (sum : Nat) : Nat :=
  pairs.foldl (fun acc (i, g) => if top.testBit i then acc ^^^ g else acc) sum

theorem feedback_cons (top : Nat) (pair : Nat × Nat) (pairs : List (Nat × Nat)) (sum : Nat) :
    feedback top (pair :: pairs) sum =
      feedback top pairs (if top.testBit pair.1 then sum ^^^ pair.2 else sum) :=
  rfl

/-- A symbol comes in at the bottom, and the bits that come to the top are fed back. -/
theorem step_eq (sum symbol : Nat) :
    step sum symbol = feedback (sum >>> 25) ((List.range 5).zip generators)
      (((sum % 2 ^ 25) <<< 5) ^^^ symbol) :=
  rfl

theorem feedback_xor (a b : Nat) (pairs : List (Nat × Nat)) (x y : Nat) :
    feedback (a ^^^ b) pairs (x ^^^ y) = feedback a pairs x ^^^ feedback b pairs y := by
  induction pairs generalizing x y with
  | nil => rfl
  | cons pair pairs ih =>
    have hpair : (if (a ^^^ b).testBit pair.1 then (x ^^^ y) ^^^ pair.2 else x ^^^ y) =
        (if a.testBit pair.1 then x ^^^ pair.2 else x) ^^^
          (if b.testBit pair.1 then y ^^^ pair.2 else y) := by
      rw [Nat.testBit_xor]
      -- a number that both would add is added to neither
      cases a.testBit pair.1 <;> cases b.testBit pair.1 <;>
        simp [Nat.xor_comm, Nat.xor_left_comm]
    rw [feedback_cons, feedback_cons, feedback_cons, hpair, ih]

theorem feedback_zero (pairs : List (Nat × Nat)) (sum : Nat) : feedback 0 pairs sum = sum := by
  induction pairs with
  | nil => rfl
  | cons pair pairs ih => rw [feedback_cons, Nat.zero_testBit, if_neg Bool.false_ne_true, ih]

theorem feedback_lt {pairs : List (Nat × Nat)} {width : Nat}
    (h : ∀ pair ∈ pairs, pair.2 < 2 ^ width) (top : Nat) {sum : Nat} (hsum : sum < 2 ^ width) :
    feedback top pairs sum < 2 ^ width := by
  induction pairs generalizing sum with
  | nil => exact hsum
  | cons pair pairs ih =>
    rw [List.forall_mem_cons] at h
    rw [feedback_cons]
    refine ih h.2 ?_
    split_ifs
    · exact Nat.xor_lt_two_pow hsum h.1
    · exact hsum

/-- **Symbols are taken in bit by bit.** -/
theorem step_xor (s t v w : Nat) : step (s ^^^ t) (v ^^^ w) = step s v ^^^ step t w := by
  have hnext : (((s ^^^ t) % 2 ^ 25) <<< 5) ^^^ (v ^^^ w) =
      (((s % 2 ^ 25) <<< 5) ^^^ v) ^^^ (((t % 2 ^ 25) <<< 5) ^^^ w) := by
    rw [Nat.xor_mod_two_pow, Nat.shiftLeft_xor_distrib]
    ac_rfl
  rw [step_eq, step_eq, step_eq, hnext, Nat.shiftRight_xor_distrib, feedback_xor]

/-- A checksum has 30 bits. -/
theorem step_lt (sum : Nat) {symbol : Nat} (h : symbol < 32) : step sum symbol < 2 ^ 30 := by
  have hnext : (sum % 2 ^ 25) <<< 5 < 2 ^ 30 := by
    rw [Nat.shiftLeft_eq]
    omega
  have hgenerators : ∀ pair ∈ (List.range 5).zip generators, pair.2 < 2 ^ 30 := by decide
  exact feedback_lt hgenerators _ (Nat.xor_lt_two_pow hnext (by omega))

/-- Nothing is fed back as long as there is room at the top. -/
theorem step_of_lt {sum symbol : Nat} (hsum : sum < 2 ^ 25) (h : symbol < 32) :
    step sum symbol = 32 * sum + symbol := by
  have htop : sum >>> 25 = 0 := by
    rw [Nat.shiftRight_eq_div_pow]
    exact Nat.div_eq_of_lt hsum
  have hstep : step sum symbol = (sum <<< 5) ^^^ symbol := by
    rw [step_eq, htop, feedback_zero, Nat.mod_eq_of_lt hsum]
  have hhigh : step sum symbol / 2 ^ 5 = sum := by
    have hsymbol : symbol >>> 5 = 0 := by
      rw [Nat.shiftRight_eq_div_pow]
      exact Nat.div_eq_of_lt h
    rw [hstep, ← Nat.shiftRight_eq_div_pow, Nat.shiftRight_xor_distrib, Nat.shiftLeft_shiftRight,
      hsymbol, Nat.xor_zero]
  have hlow : step sum symbol % 2 ^ 5 = symbol := by
    rw [hstep, Nat.xor_mod_two_pow, Nat.shiftLeft_eq, Nat.mul_mod_left, Nat.zero_xor,
      Nat.mod_eq_of_lt h]
  omega

/-! ### Few symbols -/

/-- The last symbols of a number, which are its digits of five bits. -/
def lastSymbols (count n : Nat) : List Nat :=
  (List.range count).map fun i => (n >>> (5 * (count - 1 - i))) % 32

@[simp] theorem length_lastSymbols (count n : Nat) : (lastSymbols count n).length = count := by
  rw [lastSymbols, List.length_map, List.length_range]

theorem lt_of_mem_lastSymbols {count n symbol : Nat} (h : symbol ∈ lastSymbols count n) :
    symbol < 32 := by
  obtain ⟨i, -, rfl⟩ := List.mem_map.mp h
  exact Nat.mod_lt _ (by decide)

theorem lastSymbols_succ (count n : Nat) :
    lastSymbols (count + 1) n = lastSymbols count (n / 32) ++ [n % 32] := by
  rw [lastSymbols, List.range_succ, List.map_append, List.map_singleton, Nat.add_sub_cancel,
    Nat.sub_self, lastSymbols]
  congr 1
  refine List.map_congr_left fun i hi => ?_
  have hi := List.mem_range.mp hi
  rw [show 5 * (count - i) = 5 + 5 * (count - 1 - i) by omega, Nat.shiftRight_add,
    Nat.shiftRight_eq_div_pow n 5]

/-- The digits of a number make up the number. -/
theorem foldl_step_lastSymbols {count n : Nat} (hcount : count ≤ 6) (hn : n < 2 ^ (5 * count)) :
    (lastSymbols count n).foldl step 0 = n := by
  induction count generalizing n with
  | zero => exact (Nat.lt_one_iff.mp hn).symm
  | succ count ih =>
    have hhigh : n / 32 < 2 ^ (5 * count) := by
      rw [Nat.mul_succ, Nat.pow_add] at hn
      exact Nat.div_lt_of_lt_mul (by omega)
    have hroom : 2 ^ (5 * count) ≤ 2 ^ 25 := Nat.pow_le_pow_right (by decide) (by omega)
    rw [lastSymbols_succ, List.foldl_concat, ih (by omega) hhigh,
      step_of_lt (hhigh.trans_le hroom) (Nat.mod_lt n (by decide)), Nat.div_add_mod]

/-- Few symbols are the digits of what they do to zero. -/
theorem lastSymbols_foldl_step {symbols : List Nat} (hlength : symbols.length ≤ 6)
    (hlt : ∀ symbol ∈ symbols, symbol < 32) :
    symbols.foldl step 0 < 2 ^ (5 * symbols.length) ∧
      lastSymbols symbols.length (symbols.foldl step 0) = symbols := by
  induction symbols using List.reverseRecOn with
  | nil => exact ⟨Nat.one_pos, rfl⟩
  | append_singleton symbols symbol ih =>
    rw [List.length_append, List.length_singleton] at hlength ⊢
    rw [List.forall_mem_append, List.forall_mem_singleton] at hlt
    obtain ⟨hsmall, hdigits⟩ := ih (by omega) hlt.1
    have hroom : 2 ^ (5 * symbols.length) ≤ 2 ^ 25 :=
      Nat.pow_le_pow_right (by decide) (by omega)
    have hsymbol : symbol < 32 := hlt.2
    rw [List.foldl_concat, step_of_lt (hsmall.trans_le hroom) hsymbol, lastSymbols_succ]
    constructor
    · rw [Nat.mul_succ, Nat.pow_add]
      omega
    · rw [show (32 * symbols.foldl step 0 + symbol) / 32 = symbols.foldl step 0 by omega,
        show (32 * symbols.foldl step 0 + symbol) % 32 = symbol by omega, hdigits]

/-! ### The end of a text -/

/-- What symbols do to a checksum is added to what zeros do to it. -/
theorem foldl_step_xor (symbols : List Nat) (s t : Nat) :
    symbols.foldl step (s ^^^ t) =
      (List.replicate symbols.length 0).foldl step s ^^^ symbols.foldl step t := by
  induction symbols generalizing s t with
  | nil => rfl
  | cons symbol symbols ih =>
    have hstep : step (s ^^^ t) symbol = step s 0 ^^^ step t symbol := by
      rw [← step_xor, Nat.zero_xor]
    rw [List.foldl_cons, hstep, ih]
    rfl

/-- The symbols that end a text, for the checksum to be of a given form. -/
def tailOf (word : List Char) (symbols : List Nat) (form : Nat) : List Nat :=
  lastSymbols 6 (checksum word (symbols ++ List.replicate 6 0) ^^^ form)

theorem length_tailOf (word : List Char) (symbols : List Nat) (form : Nat) :
    (tailOf word symbols form).length = 6 :=
  length_lastSymbols ..

theorem lt_of_mem_append_tailOf (word : List Char) {symbols : List Nat} (form : Nat)
    (h : ∀ v ∈ symbols, v < 32) : ∀ v ∈ symbols ++ tailOf word symbols form, v < 32 :=
  List.forall_mem_append.mpr ⟨h, fun _ => lt_of_mem_lastSymbols⟩

section Tail

variable (word : List Char) (symbols : List Nat) {form : Nat}

theorem checksum_append (tail : List Nat) :
    checksum word (symbols ++ tail) = tail.foldl step (checksum word symbols) := by
  rw [checksum, checksum, ← List.append_assoc, List.foldl_append]

/-- Any end is added to an end of zeros. -/
theorem checksum_append_eq_xor {tail : List Nat} (hlength : tail.length = 6) :
    checksum word (symbols ++ tail) =
      checksum word (symbols ++ List.replicate 6 0) ^^^ tail.foldl step 0 := by
  rw [checksum_append, checksum_append, ← hlength, ← foldl_step_xor, Nat.xor_zero]

theorem checksum_zeros_lt : checksum word (symbols ++ List.replicate 6 0) < 2 ^ 30 := by
  rw [List.replicate_succ', ← List.append_assoc, checksum_append, List.foldl_cons, List.foldl_nil]
  exact step_lt _ (by decide)

/-- **There is one way to end a text** with a checksum of a given form. -/
theorem checksum_append_eq_iff (hform : form < 2 ^ 30) {tail : List Nat}
    (hlength : tail.length = 6) (hlt : ∀ symbol ∈ tail, symbol < 32) :
    checksum word (symbols ++ tail) = form ↔ tail = tailOf word symbols form := by
  have hsum := Nat.xor_lt_two_pow (checksum_zeros_lt word symbols) hform
  rw [checksum_append_eq_xor word symbols hlength, tailOf]
  constructor
  · rintro rfl
    rw [Nat.xor_xor_cancel_left]
    conv_lhs => rw [← (lastSymbols_foldl_step hlength.le hlt).2, hlength]
  · rintro rfl
    rw [foldl_step_lastSymbols le_rfl hsum, Nat.xor_xor_cancel_left]

/-- Different forms of the checksum have different ends. -/
theorem tailOf_inj {form' : Nat} (hform : form < 2 ^ 30) (hform' : form' < 2 ^ 30)
    (h : tailOf word symbols form = tailOf word symbols form') : form = form' := by
  have hsum := Nat.xor_lt_two_pow (checksum_zeros_lt word symbols) hform
  have hsum' := Nat.xor_lt_two_pow (checksum_zeros_lt word symbols) hform'
  have heq := congrArg (List.foldl step 0) h
  rw [tailOf, tailOf, foldl_step_lastSymbols le_rfl hsum,
    foldl_step_lastSymbols le_rfl hsum'] at heq
  exact Nat.xor_right_injective heq

end Tail

end Availability.Bech32
