import Availability.Nmt.Proof
import Availability.Proofs.Merkle.Shape
import Mathlib.Data.Bool.Count

/-!
# The tree that a range proof is for

A range proof does not say how many leaves its tree has. Whoever checks it counts the nodes that are
left over for the right side of the range, and makes up a tree in which the last leaf of the range
has just as many nodes to its right (`NamespaceProof.treeSize`). This is hardly ever the tree that
the proof was made in. But the way down to the last leaf is **the same in both**, and the nodes
beside a range are told by the ways down to its ends.

* `ones` – the ones among the last binary digits of a number: the nodes to the left of a leaf;
* `Merkle.count_true_turns` – a way down turns right **once for every one** of the index;
* `Merkle.turns_eq_of_count_eq` – trees in which a leaf has the same number of nodes to its right
  have the same way down to it;
* `Merkle.splitPoint_eq_of_turns_eq` – and are split in the same place;
* `treeSize_spec` – the tree that is made up has the nodes that it is made up for;
* `exists_treeSize` – and there is one for every leaf of a tree that is not too large.
-/

namespace Availability

open Merkle (turns splitPoint splitPoint_pos splitPoint_lt)

namespace NamespaceProof

/-! ### Binary digits -/

/-- The number of ones among the last binary digits. -/
abbrev ones : (bits n : Nat) → Nat :=
  leftNodes.go

theorem ones_succ (bits n : Nat) : ones (bits + 1) n = n % 2 + ones bits (n / 2) := rfl

/-- One more digit, at the upper end. -/
theorem ones_succ_top (bits n : Nat) : ones (bits + 1) n = ones bits n + n / 2 ^ bits % 2 := by
  induction bits generalizing n with
  | zero => simp [ones, leftNodes.go]
  | succ bits ih =>
    rw [ones_succ, ih, ones_succ bits n, Nat.div_div_eq_div_mul, ← Nat.pow_succ', Nat.add_assoc]

theorem ones_le (bits n : Nat) : ones bits n ≤ bits := by
  induction bits with
  | zero => exact le_rfl
  | succ bits ih =>
    rw [ones_succ_top]
    have := Nat.mod_lt (n / 2 ^ bits) Nat.two_pos
    omega

/-- Higher digits do not count. -/
theorem ones_add_mul (bits n q : Nat) : ones bits (n + 2 ^ bits * q) = ones bits n := by
  induction bits generalizing n with
  | zero => rfl
  | succ bits ih =>
    have hdiv : (n + 2 ^ (bits + 1) * q) / 2 = n / 2 + 2 ^ bits * q := by
      rw [pow_succ', Nat.mul_assoc]
      omega
    have hmod : (n + 2 ^ (bits + 1) * q) % 2 = n % 2 := by
      rw [pow_succ', Nat.mul_assoc]
      omega
    rw [ones_succ, ones_succ, hdiv, hmod, ih]

/-- A number has no ones above its length. -/
theorem ones_eq_of_lt {bits more n : Nat} (hle : bits ≤ more) (hn : n < 2 ^ bits) :
    ones more n = ones bits n := by
  induction more, hle using Nat.le_induction with
  | base => rfl
  | succ more hle ih =>
    have hlt : n < 2 ^ more := hn.trans_le (Nat.pow_le_pow_right Nat.two_pos hle)
    rw [ones_succ_top, ih, Nat.div_eq_of_lt hlt, Nat.zero_mod, Nat.add_zero]

/-- A one at the top counts. -/
theorem ones_two_pow_add {bits j n : Nat} (hj : j < bits) (hn : n < 2 ^ j) :
    ones bits (2 ^ j + n) = ones bits n + 1 := by
  have hlt : 2 ^ j + n < 2 ^ (j + 1) := by
    rw [pow_succ]
    omega
  have hdiv : (2 ^ j + n) / 2 ^ j = 1 := by
    rw [Nat.add_div_left _ (Nat.two_pow_pos j), Nat.div_eq_of_lt hn]
  have hones : ones j (2 ^ j + n) = ones j n := by
    rw [Nat.add_comm, ← ones_add_mul j n 1, Nat.mul_one]
  rw [ones_eq_of_lt hj hlt, ones_eq_of_lt hj.le hn, ones_succ_top, hdiv, hones]

/-- The zeros among the last binary digits. -/
def zeros (bits n : Nat) : Nat :=
  bits - ones bits n

theorem zeros_zero (n : Nat) : zeros 0 n = 0 := rfl

theorem zeros_add_ones (bits n : Nat) : zeros bits n + ones bits n = bits :=
  Nat.sub_add_cancel (ones_le bits n)

theorem zeros_succ_top (bits n : Nat) :
    zeros (bits + 1) n = zeros bits n + (1 - n / 2 ^ bits % 2) := by
  have hle := ones_le bits n
  rw [zeros, zeros, ones_succ_top]
  omega

theorem zeros_mono {bits more : Nat} (h : bits ≤ more) (n : Nat) : zeros bits n ≤ zeros more n := by
  induction more, h using Nat.le_induction with
  | base => exact le_rfl
  | succ more hle ih =>
    rw [zeros_succ_top]
    omega

end NamespaceProof

/-! ### Ways down -/

namespace Merkle

open NamespaceProof (ones zeros ones_le ones_eq_of_lt ones_two_pow_add ones_add_mul zeros_add_ones)

/-- **A way down turns right once for every one of the index**, whatever the number of leaves. -/
theorem count_true_turns {index total bits : Nat} (h : index < total) (hbits : index < 2 ^ bits) :
    (turns index total).count true = ones bits index := by
  induction total using Nat.strong_induction_on generalizing index with
  | _ total ih =>
    rcases Nat.lt_or_ge total 2 with hone | htwo
    · obtain rfl : index = 0 := by omega
      rw [turns_of_lt_two hone, ones_eq_of_lt (Nat.zero_le bits) Nat.one_pos]
      rfl
    obtain ⟨j, hlow, hhigh⟩ := exists_lt_le_two_pow htwo
    have hsplit := splitPoint_eq hlow hhigh
    rw [pow_succ] at hhigh
    rcases Nat.lt_or_ge index (splitPoint total) with hleft | hright
    · rw [turns_of_lt htwo hleft, List.count_cons_of_ne (by decide),
        ih _ (splitPoint_lt htwo) hleft hbits]
    · -- the turn to the right takes the uppermost one of the index away
      rw [turns_of_le htwo hright, List.count_cons_self]
      rw [hsplit] at hright ⊢
      have hj : j < bits := (Nat.pow_lt_pow_iff_right (by norm_num)).mp (hright.trans_lt hbits)
      rw [ih _ (by omega) (by omega) (by omega),
        ← ones_two_pow_add hj (show index - 2 ^ j < 2 ^ j by omega), Nat.add_sub_cancel' hright]

/-- The first leaf is always to the left. -/
theorem count_true_turns_zero (total : Nat) : (turns 0 total).count true = 0 := by
  rcases Nat.eq_zero_or_pos total with rfl | hpos
  · rw [turns_of_lt_two Nat.two_pos]
    rfl
  · have hbits : 0 < 2 ^ 0 := Nat.one_pos
    exact count_true_turns hpos hbits

/-- The last leaf, and what would be after it, is always to the right. -/
theorem count_false_turns_of_le {index total : Nat} (h : total ≤ index + 1) :
    (turns index total).count false = 0 := by
  induction total using Nat.strong_induction_on generalizing index with
  | _ total ih =>
    rcases Nat.lt_or_ge total 2 with hone | htwo
    · rw [turns_of_lt_two hone]
      rfl
    have hpos := splitPoint_pos htwo
    have hlt := splitPoint_lt htwo
    rw [turns_of_le htwo (by omega), List.count_cons_of_ne (by decide), ih _ (by omega) (by omega)]

theorem count_false_turns (index total : Nat) :
    (turns index total).count false =
      (turns index total).length - (turns index total).count true := by
  have := List.count_false_add_count_true (turns index total)
  omega

/-- In a tree of a power of two leaves, the zeros of the index are the turns to the left. -/
theorem count_false_turns_two_pow {index bits : Nat} (h : index < 2 ^ bits) :
    (turns index (2 ^ bits)).count false = zeros bits index := by
  rw [count_false_turns, length_turns_two_pow, count_true_turns h h, zeros]

/-- Trees that a leaf is on the right side of are both split at the uppermost one of its index. -/
theorem splitPoint_eq_of_le {index n m : Nat} (hn : index < n) (hm : index < m) (hntwo : 2 ≤ n)
    (hmtwo : 2 ≤ m) (hnright : splitPoint n ≤ index) (hmright : splitPoint m ≤ index) :
    splitPoint n = splitPoint m := by
  obtain ⟨j, hjlow, hjhigh⟩ := exists_lt_le_two_pow hntwo
  obtain ⟨k, hklow, hkhigh⟩ := exists_lt_le_two_pow hmtwo
  rw [splitPoint_eq hjlow hjhigh] at hnright ⊢
  rw [splitPoint_eq hklow hkhigh] at hmright ⊢
  rw [← log2_eq_of_bounds hnright (hn.trans_le hjhigh),
    ← log2_eq_of_bounds hmright (hm.trans_le hkhigh)]

/-- **A leaf with the same number of nodes to its right has the same way down**, in trees of
different numbers of leaves. -/
theorem turns_eq_of_count_eq {index n m : Nat} (hn : index < n) (hm : index < m)
    (h : (turns index n).count false = (turns index m).count false) :
    turns index n = turns index m := by
  -- a tree that is entered on the left side of its root has too many nodes to the right, when the
  -- leaf is far to the right in the other one
  have hcross {index n m : Nat} (hn : index < n) (hntwo : 2 ≤ n) (hmtwo : 2 ≤ m)
      (hright : splitPoint n ≤ index) (hleft : index < splitPoint m) :
      (turns index n).count false < (turns index m).count false := by
    obtain ⟨j, hjlow, hjhigh⟩ := exists_lt_le_two_pow hntwo
    obtain ⟨k, hklow, hkhigh⟩ := exists_lt_le_two_pow hmtwo
    rw [splitPoint_eq hjlow hjhigh] at hright
    rw [splitPoint_eq hklow hkhigh] at hleft
    have hjk : j < k := (Nat.pow_lt_pow_iff_right (by norm_num)).mp (hright.trans_lt hleft)
    have hmturns := turns_of_lt hmtwo (splitPoint_eq hklow hkhigh ▸ hleft)
    have hlength := length_turns_le index hjhigh
    have hones := count_true_turns hn hleft
    have hzeros := zeros_add_ones k index
    rw [hmturns, List.count_cons_self, splitPoint_eq hklow hkhigh, count_false_turns_two_pow hleft,
      count_false_turns]
    omega
  induction n using Nat.strong_induction_on generalizing index m with
  | _ n ih =>
    rcases Nat.lt_or_ge n 2 with hnone | hntwo <;> rcases Nat.lt_or_ge m 2 with hmone | hmtwo
    · rw [turns_of_lt_two hnone, turns_of_lt_two hmone]
    · have hmpos := splitPoint_pos hmtwo
      rw [turns_of_lt_two hnone, turns_of_lt hmtwo (by omega), List.count_cons_self] at h
      simp at h
    · have hnpos := splitPoint_pos hntwo
      rw [turns_of_lt_two hmone, turns_of_lt hntwo (by omega), List.count_cons_self] at h
      simp at h
    obtain ⟨j, hjlow, hjhigh⟩ := exists_lt_le_two_pow hntwo
    obtain ⟨k, hklow, hkhigh⟩ := exists_lt_le_two_pow hmtwo
    have hj := splitPoint_eq hjlow hjhigh
    have hk := splitPoint_eq hklow hkhigh
    rcases Nat.lt_or_ge index (splitPoint n) with hnleft | hnright <;>
      rcases Nat.lt_or_ge index (splitPoint m) with hmleft | hmright
    · -- below are trees of powers of two, which are the same when they are equally high
      rw [turns_of_lt hntwo hnleft, turns_of_lt hmtwo hmleft] at h ⊢
      rw [List.count_cons_self, List.count_cons_self] at h
      rw [hj] at h hnleft ⊢
      rw [hk] at h hmleft ⊢
      have hcount := Nat.succ.inj h
      rw [count_false_turns, count_false_turns, length_turns_two_pow, length_turns_two_pow,
        count_true_turns hnleft hnleft, count_true_turns hmleft hmleft] at hcount
      have honesj := ones_le j index
      have honesk := ones_le k index
      have hones : ones j index = ones k index := by
        rcases le_total j k with hjk | hjk
        · exact (ones_eq_of_lt hjk hnleft).symm
        · exact ones_eq_of_lt hjk hmleft
      obtain rfl : j = k := by omega
      rfl
    · exact absurd h.symm (hcross hm hmtwo hntwo hmright hnleft).ne
    · exact absurd h (hcross hn hntwo hmtwo hnright hmleft).ne
    · have hsplit := splitPoint_eq_of_le hn hm hntwo hmtwo hnright hmright
      rw [turns_of_le hntwo hnright, turns_of_le hmtwo hmright] at h ⊢
      rw [List.count_cons_of_ne (by decide), List.count_cons_of_ne (by decide)] at h
      rw [← hsplit] at h hmright ⊢
      rw [ih _ (by omega) (by omega) (by omega) h]

/-- **Trees with the same way down to a leaf are split in the same place.** -/
theorem splitPoint_eq_of_turns_eq {index n m : Nat} (hn : index < n) (hm : index < m)
    (h : turns index n = turns index m) (htwo : 2 ≤ n) : 2 ≤ m ∧ splitPoint n = splitPoint m := by
  have hnturns : turns index n ≠ [] := by
    rcases Nat.lt_or_ge index (splitPoint n) with hlt | hle
    · simp [turns_of_lt htwo hlt]
    · simp [turns_of_le htwo hle]
  have hmtwo : 2 ≤ m := by
    by_contra hone
    rw [turns_of_lt_two (show m < 2 by omega)] at h
    exact hnturns h
  refine ⟨hmtwo, ?_⟩
  rcases Nat.lt_or_ge index (splitPoint n) with hnleft | hnright <;>
    rcases Nat.lt_or_ge index (splitPoint m) with hmleft | hmright
  · rw [turns_of_lt htwo hnleft, turns_of_lt hmtwo hmleft] at h
    obtain ⟨j, hjlow, hjhigh⟩ := exists_lt_le_two_pow htwo
    obtain ⟨k, hklow, hkhigh⟩ := exists_lt_le_two_pow hmtwo
    rw [splitPoint_eq hjlow hjhigh, splitPoint_eq hklow hkhigh] at h ⊢
    have hlength := congrArg List.length (List.cons.inj h).2
    rw [length_turns_two_pow, length_turns_two_pow] at hlength
    rw [hlength]
  · rw [turns_of_lt htwo hnleft, turns_of_le hmtwo hmright] at h
    exact absurd (List.cons.inj h).1 (by decide)
  · rw [turns_of_le htwo hnright, turns_of_lt hmtwo hmleft] at h
    exact absurd (List.cons.inj h).1 (by decide)
  · exact splitPoint_eq_of_le hn hm htwo hmtwo hnright hmright

end Merkle

namespace NamespaceProof

open Merkle (exists_lt_le_two_pow splitPoint_eq turns_of_le count_false_turns_two_pow
  count_false_turns count_true_turns length_turns_le turns_eq_of_count_eq)

/-! ### Setting the lowest zeros -/

/-- The number with its last binary digits set to one. -/
def fill (bits n : Nat) : Nat :=
  n / 2 ^ bits * 2 ^ bits + (2 ^ bits - 1)

theorem fill_zero (n : Nat) : fill 0 n = n := by
  simp [fill]

theorem le_fill (bits n : Nat) : n ≤ fill bits n := by
  have hdiv := Nat.div_add_mod' n (2 ^ bits)
  rw [fill]
  omega

theorem fill_lt {bits more n : Nat} (hle : bits ≤ more) (hn : n < 2 ^ more) :
    fill bits n < 2 ^ more := by
  obtain ⟨c, rfl⟩ := Nat.exists_eq_add_of_le hle
  have hpos := Nat.two_pow_pos bits
  rw [pow_add] at hn ⊢
  have hdiv : n / 2 ^ bits + 1 ≤ 2 ^ c := Nat.div_lt_of_lt_mul hn
  have hmul := Nat.mul_le_mul_right (2 ^ bits) hdiv
  rw [Nat.add_mul, Nat.one_mul, Nat.mul_comm (2 ^ c)] at hmul
  rw [fill]
  omega

/-- One more digit is set, unless it is one already. -/
theorem fill_succ (bits n : Nat) :
    fill (bits + 1) n =
      if n / 2 ^ bits % 2 = 1 then fill bits n else fill bits n + 2 ^ bits := by
  have hhalf : n / (2 ^ bits * 2) = n / 2 ^ bits / 2 := (Nat.div_div_eq_div_mul n _ 2).symm
  simp only [fill, pow_succ, hhalf]
  generalize n / 2 ^ bits = q
  have hq := Nat.div_add_mod q 2
  have hmul : q / 2 * (2 ^ bits * 2) + q % 2 * 2 ^ bits = q * 2 ^ bits := by
    nth_rewrite 3 [← hq]
    ring
  split
  case isTrue hone =>
    rw [hone, Nat.one_mul] at hmul
    omega
  case isFalse hzero =>
    rw [show q % 2 = 0 by omega, Nat.zero_mul] at hmul
    omega

theorem testBit_fill (bits n : Nat) :
    (fill bits n).testBit bits = decide (n / 2 ^ bits % 2 = 1) := by
  have hpos := Nat.two_pow_pos bits
  have hdiv : fill bits n / 2 ^ bits = n / 2 ^ bits := by
    rw [fill, Nat.add_comm, Nat.add_mul_div_right _ _ hpos, Nat.div_eq_of_lt (by omega),
      Nat.zero_add]
  rw [Nat.testBit_eq_decide_div_mod_eq, hdiv]

/-- **A tree that ends with the block of a leaf** has one node to the right of it for each zero
among the last digits of its index. -/
theorem count_false_turns_fill (bits n : Nat) :
    (turns n (fill bits n + 1)).count false = zeros bits n := by
  have hpos := Nat.two_pow_pos bits
  have key (q : Nat) {i : Nat} (hi : i < 2 ^ bits) :
      (turns (q * 2 ^ bits + i) ((q + 1) * 2 ^ bits)).count false = zeros bits i := by
    induction q using Nat.strong_induction_on with
    | _ q ih =>
      rcases Nat.eq_zero_or_pos q with rfl | hq
      · rw [Nat.zero_mul, Nat.zero_add, Nat.zero_add, Nat.one_mul, count_false_turns_two_pow hi]
      -- the tree is split between two blocks, and the last block is on the right
      have htwo : 2 * 2 ^ bits ≤ (q + 1) * 2 ^ bits := Nat.mul_le_mul_right _ (by omega)
      obtain ⟨j, hlow, hhigh⟩ := exists_lt_le_two_pow (show 2 ≤ (q + 1) * 2 ^ bits by omega)
      have hsplit := splitPoint_eq hlow hhigh
      have hj : bits ≤ j := by
        rw [← pow_succ'] at htwo
        exact Nat.le_of_succ_le_succ
          ((Nat.pow_le_pow_iff_right (by norm_num)).mp (htwo.trans hhigh))
      obtain ⟨c, rfl⟩ := Nat.exists_eq_add_of_le' hj
      rw [pow_add] at hlow hsplit
      have hcpos := Nat.two_pow_pos c
      have hcq : 2 ^ c ≤ q := Nat.le_of_lt_succ (lt_of_mul_lt_mul_right hlow (Nat.zero_le _))
      have hle : 2 ^ c * 2 ^ bits ≤ q * 2 ^ bits := Nat.mul_le_mul_right _ hcq
      rw [turns_of_le (by omega) (by omega), List.count_cons_of_ne (by decide), hsplit,
        show q * 2 ^ bits + i - 2 ^ c * 2 ^ bits = (q - 2 ^ c) * 2 ^ bits + i by
          rw [Nat.sub_mul]
          omega,
        ← Nat.sub_mul, show q + 1 - 2 ^ c = q - 2 ^ c + 1 by omega]
      exact ih _ (by omega)
  have hsize : fill bits n + 1 = (n / 2 ^ bits + 1) * 2 ^ bits := by
    rw [fill, Nat.add_mul, Nat.one_mul]
    omega
  have hzeros : zeros bits (n % 2 ^ bits) = zeros bits n := by
    rw [zeros, zeros, ← ones_add_mul bits (n % 2 ^ bits) (n / 2 ^ bits), Nat.mod_add_div]
  have h := key (n / 2 ^ bits) (Nat.mod_lt n hpos)
  rwa [Nat.div_add_mod', ← hsize, hzeros] at h

/-! ### The size of the tree -/

/-- One step: the next digit is set, which uses up a node if it was not. -/
theorem treeSize_go_succ (fuel rest bit n : Nat) :
    treeSize.go (fuel + 1) (rest + 1) (fill bit n) bit =
      if fill (bit + 1) n = UInt32.size - 1 then .error .treeTooLarge
      else treeSize.go fuel (if n / 2 ^ bit % 2 = 1 then rest + 1 else rest) (fill (bit + 1) n)
        (bit + 1) := by
  simp only [treeSize.go, testBit_fill, decide_eq_true_eq, Nat.one_shiftLeft, fill_succ]

/-- What is found has a zero set for each of the nodes. -/
theorem exists_fill_of_treeSize_go {fuel rest bit n size : Nat}
    (h : treeSize.go fuel rest (fill bit n) bit = .ok size) :
    ∃ bits, size = fill bits n + 1 ∧ zeros bits n = zeros bit n + rest := by
  induction fuel generalizing rest bit with
  | zero =>
    rcases rest with _ | rest
    · exact ⟨bit, (Except.ok.inj h).symm, rfl⟩
    · cases h
  | succ fuel ih =>
    rcases rest with _ | rest
    · exact ⟨bit, (Except.ok.inj h).symm, rfl⟩
    · rw [treeSize_go_succ] at h
      split at h
      · cases h
      obtain ⟨bits, hsize, hzeros⟩ := ih h
      refine ⟨bits, hsize, hzeros.trans ?_⟩
      rw [zeros_succ_top]
      split <;> omega

/-- **The tree that is made up has the nodes that it is made up for**: the leaf is in it, and has as
many nodes to its right. -/
theorem treeSize_spec {rightNodes index size : Nat} (h : treeSize rightNodes index = .ok size) :
    index < size ∧ (turns index size).count false = rightNodes := by
  rw [treeSize, ← fill_zero index] at h
  obtain ⟨bits, rfl, hzeros⟩ := exists_fill_of_treeSize_go h
  refine ⟨Nat.lt_succ_of_le (le_fill bits index), ?_⟩
  rw [count_false_turns_fill, hzeros, zeros_zero, Nat.zero_add]

/-- There are enough zeros among the last digits, so the search ends before it gets out of them. -/
theorem exists_treeSize_go {fuel rest bit n : Nat} (hn : n < 2 ^ 31)
    (hrest : zeros bit n + rest ≤ zeros 31 n) (hfuel : 31 ≤ fuel + bit) :
    ∃ size, treeSize.go fuel rest (fill bit n) bit = .ok size := by
  induction fuel generalizing rest bit with
  | zero =>
    have hmono := zeros_mono (show 31 ≤ bit by omega) n
    obtain rfl : rest = 0 := by omega
    exact ⟨_, rfl⟩
  | succ fuel ih =>
    rcases rest with _ | rest
    · exact ⟨_, rfl⟩
    have hbit : bit < 31 := by
      by_contra hge
      have hmono := zeros_mono (not_lt.mp hge) n
      omega
    have hlt : fill (bit + 1) n < 2 ^ 31 := fill_lt hbit hn
    rw [treeSize_go_succ, if_neg (hlt.trans_le (by decide)).ne]
    refine ih ?_ (by omega)
    rw [zeros_succ_top]
    split <;> omega

/-- **There is such a tree** for the nodes that a leaf of a real tree has to its right, and the way
down to the leaf is the same in both. -/
theorem exists_treeSize {index total : Nat} (h : index < total) (htotal : total ≤ 2 ^ 31) :
    ∃ size, treeSize ((turns index total).count false) index = .ok size ∧ index < size ∧
      turns index size = turns index total := by
  have hindex : index < 2 ^ 31 := h.trans_le htotal
  have hlength := length_turns_le index htotal
  have hcount : (turns index total).count false ≤ zeros 31 index := by
    rw [count_false_turns, count_true_turns h hindex, zeros]
    omega
  rw [← Nat.zero_add (List.count false _), ← zeros_zero index] at hcount
  obtain ⟨size, hsize⟩ := exists_treeSize_go hindex hcount (show 31 ≤ 33 + 0 by decide)
  rw [fill_zero] at hsize
  obtain ⟨hlt, hright⟩ := treeSize_spec hsize
  exact ⟨size, hsize, hlt, turns_eq_of_count_eq hlt h hright⟩

end NamespaceProof

end Availability
