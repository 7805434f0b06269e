import Availability.Merkle.Split
import Availability.Proofs.Width

/-!
# The shape of a tree

How a number of leaves is split depends on nothing but this number. So the way down to a leaf is
known before there are any values, and so is the number of nodes beside a range of leaves.

* `splitPoint_eq` – how a number of leaves is split, in terms of powers of two;
* `turns` – the way from the root down to a leaf;
* `turns_injective` – **different leaves of a tree have different ways**;
* `turns_eq_of_length` – in a tree of a power of two leaves all ways have the same length, and a way
  of this length is the same in a tree of any other number of leaves;
* `besideCount` – the number of nodes beside a range of leaves.

Trees of different numbers of leaves may share a way, with the leaf at its end in different places:
this is all the freedom that the maker of a Merkle proof has.
-/

namespace Availability.Merkle

/-! ### Split points -/

/-- The split point of a number between two neighbouring powers of two is the smaller one, which the
number itself is above. -/
theorem splitPoint_eq {n j : Nat} (hlow : 2 ^ j < n) (hhigh : n ≤ 2 ^ (j + 1)) :
    splitPoint n = 2 ^ j := by
  have hpos := Nat.two_pow_pos j
  simp only [splitPoint, if_neg (show ¬n < 2 by omega), Nat.one_shiftLeft]
  rcases hhigh.lt_or_eq with hlt | rfl
  · rw [log2_eq_of_bounds hlow.le hlt, if_neg hlow.ne]
  · rw [Nat.log2_two_pow, if_pos rfl, pow_succ, Nat.mul_div_cancel _ (by norm_num)]

/-- Every number above one is between two neighbouring powers of two. -/
theorem exists_lt_le_two_pow {n : Nat} (h : 2 ≤ n) : ∃ j, 2 ^ j < n ∧ n ≤ 2 ^ (j + 1) := by
  have hlow : 2 ^ (n - 1).log2 ≤ n - 1 := Nat.log2_self_le (by omega)
  have hhigh : n - 1 < 2 ^ ((n - 1).log2 + 1) := Nat.lt_log2_self
  exact ⟨(n - 1).log2, by omega, by omega⟩

/-- A power of two is halved. -/
theorem splitPoint_two_pow (k : Nat) : splitPoint (2 ^ (k + 1)) = 2 ^ k :=
  splitPoint_eq (Nat.pow_lt_pow_right (by norm_num) (Nat.lt_succ_self k)) le_rfl

/-! ### Ways down -/

/-- The way from the root of a tree down to a leaf: at each node, whether it goes on to the
right. -/
def turns (index total : Nat) : List Bool :=
  if _ : 2 ≤ total then
    let k := splitPoint total
    if index < k then false :: turns index k else true :: turns (index - k) (total - k)
  else []
termination_by total
decreasing_by
  all_goals
    have := splitPoint_pos ‹2 ≤ total›
    have := splitPoint_lt ‹2 ≤ total›
    omega

theorem turns_of_lt_two {index total : Nat} (h : total < 2) : turns index total = [] := by
  rw [turns, dif_neg (by omega)]

theorem turns_of_lt {index total : Nat} (h : 2 ≤ total) (hlt : index < splitPoint total) :
    turns index total = false :: turns index (splitPoint total) := by
  rw [turns, dif_pos h]
  exact if_pos hlt

theorem turns_of_le {index total : Nat} (h : 2 ≤ total) (hle : splitPoint total ≤ index) :
    turns index total =
      true :: turns (index - splitPoint total) (total - splitPoint total) := by
  rw [turns, dif_pos h]
  exact if_neg (Nat.not_lt.mpr hle)

/-- **Different leaves of a tree have different ways.** -/
theorem turns_injective {i j total : Nat} (hi : i < total) (hj : j < total)
    (h : turns i total = turns j total) : i = j := by
  induction total using Nat.strong_induction_on generalizing i j with
  | _ total ih =>
    rcases Nat.lt_or_ge total 2 with hone | htwo
    · omega
    have hpos := splitPoint_pos htwo
    have hlt := splitPoint_lt htwo
    -- the first turn tells on which side both leaves are
    rcases Nat.lt_or_ge i (splitPoint total) with hik | hik <;>
      rcases Nat.lt_or_ge j (splitPoint total) with hjk | hjk
    · rw [turns_of_lt htwo hik, turns_of_lt htwo hjk] at h
      exact ih _ hlt hik hjk (List.cons.inj h).2
    · rw [turns_of_lt htwo hik, turns_of_le htwo hjk] at h
      exact absurd (List.cons.inj h).1 (by decide)
    · rw [turns_of_le htwo hik, turns_of_lt htwo hjk] at h
      exact absurd (List.cons.inj h).1 (by decide)
    · rw [turns_of_le htwo hik, turns_of_le htwo hjk] at h
      have := ih _ (by omega) (by omega) (by omega) (List.cons.inj h).2
      omega

/-- A tree with at most a power of two leaves is not higher than this power. -/
theorem length_turns_le (index : Nat) {total k : Nat} (h : total ≤ 2 ^ k) :
    (turns index total).length ≤ k := by
  induction k generalizing index total with
  | zero => simp [turns_of_lt_two (show total < 2 by omega)]
  | succ k ih =>
    rcases Nat.lt_or_ge total 2 with hone | htwo
    · simp [turns_of_lt_two hone]
    obtain ⟨j, hlow, hhigh⟩ := exists_lt_le_two_pow htwo
    have hsplit := splitPoint_eq hlow hhigh
    have hjk : 2 ^ j ≤ 2 ^ k :=
      Nat.pow_le_pow_right (by norm_num)
        (Nat.le_of_lt_succ ((Nat.pow_lt_pow_iff_right (by norm_num)).mp (hlow.trans_le h)))
    rcases Nat.lt_or_ge index (splitPoint total) with hlt | hle
    · rw [turns_of_lt htwo hlt, List.length_cons]
      exact Nat.succ_le_succ (ih index (by omega))
    · rw [turns_of_le htwo hle, List.length_cons]
      refine Nat.succ_le_succ (ih _ ?_)
      rw [pow_succ] at hhigh
      omega

/-- In a tree of a power of two leaves, both sides of the root have the next smaller one. -/
theorem turns_two_pow_of_lt {index k : Nat} (h : index < 2 ^ k) :
    turns index (2 ^ (k + 1)) = false :: turns index (2 ^ k) := by
  have hpos := Nat.two_pow_pos k
  have hsplit := splitPoint_two_pow k
  rw [turns_of_lt (by omega) (by omega), hsplit]

theorem turns_two_pow_of_le {index k : Nat} (h : 2 ^ k ≤ index) :
    turns index (2 ^ (k + 1)) = true :: turns (index - 2 ^ k) (2 ^ k) := by
  have hpos := Nat.two_pow_pos k
  have hsplit := splitPoint_two_pow k
  rw [turns_of_le (by omega) (by omega), hsplit, show 2 ^ (k + 1) - 2 ^ k = 2 ^ k by omega]

/-- All ways in a tree of a power of two leaves have the same length. -/
theorem length_turns_two_pow (index k : Nat) : (turns index (2 ^ k)).length = k := by
  induction k generalizing index with
  | zero => rw [turns_of_lt_two (by norm_num), List.length_nil]
  | succ k ih =>
    rcases Nat.lt_or_ge index (2 ^ k) with hlt | hle
    · rw [turns_two_pow_of_lt hlt, List.length_cons, ih]
    · rw [turns_two_pow_of_le hle, List.length_cons, ih]

/-- **A way of the right length is the same in every tree**: a leaf that a tree of `2 ^ k` leaves
has room for, and that is at depth `k` in a tree of any other number of leaves, has the same way in
both. -/
theorem turns_eq_of_length {index total k : Nat} (hlt : index < 2 ^ k) (hindex : index < total)
    (hlength : (turns index total).length = k) : turns index total = turns index (2 ^ k) := by
  induction k generalizing index total with
  | zero =>
    rw [List.length_eq_zero_iff.mp hlength, turns_of_lt_two (by norm_num)]
  | succ k ih =>
    have htwo : 2 ≤ total := by
      by_contra hone
      rw [turns_of_lt_two (by omega)] at hlength
      simp at hlength
    obtain ⟨j, hlow, hhigh⟩ := exists_lt_le_two_pow htwo
    have hsplit := splitPoint_eq hlow hhigh
    rw [pow_succ] at hhigh
    rcases Nat.lt_or_ge index (2 ^ j) with hleft | hright
    · -- a tree of a power of two leaves is below, whose height has to be the right one
      have hway := turns_of_lt htwo (hsplit ▸ hleft)
      rw [hway, hsplit, List.length_cons, length_turns_two_pow] at hlength
      obtain rfl : j = k := Nat.succ.inj hlength
      rw [hway, hsplit, turns_two_pow_of_lt hleft]
    · -- what is below is not higher than the left side, so the left side is not too low
      have hway := turns_of_le htwo (hsplit ▸ hright)
      rw [hway, hsplit, List.length_cons] at hlength
      have hle := length_turns_le (index - 2 ^ j) (show total - 2 ^ j ≤ 2 ^ j by omega)
      have hjk : j < k + 1 := (Nat.pow_lt_pow_iff_right (by norm_num)).mp (hright.trans_lt hlt)
      obtain rfl : j = k := by omega
      have hrest : turns (index - 2 ^ j) (total - 2 ^ j) = turns (index - 2 ^ j) (2 ^ j) :=
        ih (by omega) (by omega) (Nat.succ.inj hlength)
      rw [hway, hsplit, hrest, turns_two_pow_of_le hright]

/-! ### Nodes beside a range -/

/-- The number of the largest subtrees without a leaf in `[start, stop)`, in a tree of `size` leaves
of which the first one has the number `offset`. -/
def besideCount (start stop offset size : Nat) : Nat :=
  if stop ≤ offset ∨ offset + size ≤ start then 1
  else if _ : 2 ≤ size then
    besideCount start stop offset (splitPoint size) +
      besideCount start stop (offset + splitPoint size) (size - splitPoint size)
  else 0
termination_by size
decreasing_by
  all_goals
    have := splitPoint_pos ‹2 ≤ size›
    have := splitPoint_lt ‹2 ≤ size›
    omega

theorem besideCount_of_outside {start stop offset size : Nat}
    (h : stop ≤ offset ∨ offset + size ≤ start) : besideCount start stop offset size = 1 := by
  rw [besideCount, if_pos h]

theorem besideCount_of_two_le {start stop offset size : Nat}
    (h : ¬(stop ≤ offset ∨ offset + size ≤ start)) (htwo : 2 ≤ size) :
    besideCount start stop offset size = besideCount start stop offset (splitPoint size) +
      besideCount start stop (offset + splitPoint size) (size - splitPoint size) := by
  rw [besideCount, if_neg h, dif_pos htwo]

/-- A subtree within the range has nothing beside it. -/
theorem besideCount_of_inside {start stop offset size : Nat} (hpos : 0 < size)
    (hstart : start ≤ offset) (hstop : offset + size ≤ stop) :
    besideCount start stop offset size = 0 := by
  induction size using Nat.strong_induction_on generalizing offset with
  | _ size ih =>
    have hin : ¬(stop ≤ offset ∨ offset + size ≤ start) := by omega
    rcases Nat.lt_or_ge size 2 with hone | htwo
    · rw [besideCount, if_neg hin, dif_neg (by omega)]
    · have hk := splitPoint_pos htwo
      have hlt := splitPoint_lt htwo
      rw [besideCount_of_two_le hin htwo, ih _ hlt hk hstart (by omega),
        ih _ (by omega) (by omega) (by omega) (by omega)]

/-- **There are as many siblings as the shape of the tree has.** -/
theorem length_siblings {α : Type} (node : α → α → α) (empty : α) (start stop offset : Nat)
    (leaves : List α) :
    (siblings node empty start stop offset leaves).length =
      besideCount start stop offset leaves.length := by
  induction offset, leaves using siblings.induct start stop with
  | case1 offset leaves hout =>
    rw [siblings, if_pos hout, besideCount_of_outside hout, List.length_singleton]
  | case2 offset leaves hin htwo k ihl ihr =>
    have hk : min k leaves.length = k := min_eq_left (splitPoint_lt htwo).le
    rw [siblings, if_neg hin, dif_pos htwo, List.length_append, ihl, ihr,
      besideCount_of_two_le hin htwo, List.length_take, List.length_drop, hk]
  | case3 offset leaves hin hone =>
    rw [siblings, if_neg hin, dif_neg hone, besideCount, if_neg hin, dif_neg hone, List.length_nil]

end Availability.Merkle
