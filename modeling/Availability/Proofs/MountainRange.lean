import Availability.Proofs.Width
import Mathlib.Data.Nat.BitIndices

/-!
# The shape of a mountain range

The widths of a mountain range are found one after the other, each from what the ones before it have
left over. What comes out is simpler than that: the widest subtrees, as many as there is room for,
and then **one subtree for every binary one** of the remainder, from the largest to the smallest.

* `mountainRange_eq` – this form, and `length_mountainRange` – the number of subtrees in it;
* `exists_of_mem_mountainRange` – all widths are powers of two, and none is above the largest;
* `pairwise_dvd_mountainRange` – **every width divides those before it**. So widths do not increase,
  and every subtree begins at a multiple of its width.
-/

namespace Availability

/-- The ones of a number below a power of two. -/
theorem lt_of_mem_bitIndices {k n i : Nat} (h : n < 2 ^ k) (hi : i ∈ n.bitIndices) : i < k :=
  (Nat.pow_lt_pow_iff_right (by norm_num)).mp
    ((Nat.two_pow_le_of_mem_bitIndices hi).trans_lt h)

/-- A one above all others is the last one. -/
theorem bitIndices_two_pow_add {i n : Nat} (h : n < 2 ^ i) :
    (2 ^ i + n).bitIndices = n.bitIndices ++ [i] := by
  have hsorted : (n.bitIndices ++ [i]).SortedLT := by
    refine List.sortedLT_iff_pairwise.mpr (List.pairwise_append.mpr
      ⟨Nat.bitIndices_sorted.pairwise, List.pairwise_singleton _ _, fun j hj i' hi' => ?_⟩)
    rw [List.mem_singleton.mp hi']
    exact lt_of_mem_bitIndices h hj
  have hsum : ((n.bitIndices ++ [i]).map (2 ^ ·)).sum = 2 ^ i + n := by
    rw [List.map_append, List.sum_append, Nat.sum_map_two_pow_bitIndices, List.map_singleton,
      List.sum_singleton, Nat.add_comm]
  rw [← hsum, Nat.bitIndices_sum_map_two_pow hsorted]

/-- Whole subtrees of the largest width leave nothing over. -/
theorem mountainRange_mul (k m : Nat) :
    mountainRange (2 ^ k) (2 ^ k * m) = List.replicate m (2 ^ k) := by
  induction m with
  | zero => exact mountainRange_zero _
  | succ m ih =>
    have hone : mountainRange (2 ^ k) (2 ^ k) = [2 ^ k] := by
      rw [mountainRange_cons k (Nat.two_pow_pos k).ne', Nat.log2_two_pow, min_self, Nat.sub_self,
        mountainRange_zero]
    rw [Nat.mul_succ, mountainRange_add _ (Dvd.intro m rfl), ih, hone, ← List.replicate_succ']

/-- **What is less than the largest width** is held by one subtree for every one of it. -/
theorem mountainRange_of_lt {k n : Nat} (h : n < 2 ^ k) :
    mountainRange (2 ^ k) n = n.bitIndices.reverse.map (2 ^ ·) := by
  induction n using Nat.strong_induction_on with
  | _ n ih =>
    rcases Nat.eq_zero_or_pos n with rfl | hn
    · rw [mountainRange_zero, Nat.bitIndices_zero]
      rfl
    · -- the widest subtree is the topmost one, which is the last among the ones of `n`
      have hlow : 2 ^ n.log2 ≤ n := Nat.log2_self_le hn.ne'
      have hhigh : n < 2 ^ (n.log2 + 1) := Nat.lt_log2_self
      have hpos := Nat.two_pow_pos n.log2
      have hlog : min k n.log2 = n.log2 :=
        min_eq_right (Nat.log2_lt hn.ne' |>.mpr h).le
      rw [pow_succ] at hhigh
      have hones : n.bitIndices = (n - 2 ^ n.log2).bitIndices ++ [n.log2] := by
        rw [← bitIndices_two_pow_add (by omega), Nat.add_sub_cancel' hlow]
      rw [mountainRange_cons k hn.ne', hlog, ih _ (by omega) (by omega), hones,
        List.reverse_concat, List.map_cons]

/-- **A mountain range** is the widest subtrees, and one more for every one of the remainder. -/
theorem mountainRange_eq (k n : Nat) : mountainRange (2 ^ k) n =
    List.replicate (n / 2 ^ k) (2 ^ k) ++ (n % 2 ^ k).bitIndices.reverse.map (2 ^ ·) := by
  calc mountainRange (2 ^ k) n
      = mountainRange (2 ^ k) (2 ^ k * (n / 2 ^ k) + n % 2 ^ k) := by rw [Nat.div_add_mod]
    _ = mountainRange (2 ^ k) (2 ^ k * (n / 2 ^ k)) ++ mountainRange (2 ^ k) (n % 2 ^ k) :=
        mountainRange_add _ (Dvd.intro _ rfl)
    _ = _ := by rw [mountainRange_mul, mountainRange_of_lt (Nat.mod_lt _ (Nat.two_pow_pos k))]

/-- The widths are powers of two, up to the largest width. -/
theorem exists_of_mem_mountainRange {k n width : Nat} (h : width ∈ mountainRange (2 ^ k) n) :
    ∃ i ≤ k, width = 2 ^ i := by
  rw [mountainRange_eq, List.mem_append] at h
  rcases h with h | h
  · exact ⟨k, le_rfl, List.eq_of_mem_replicate h⟩
  · obtain ⟨i, hi, rfl⟩ := List.mem_map.mp h
    have hlt := lt_of_mem_bitIndices (Nat.mod_lt n (Nat.two_pow_pos k)) (List.mem_reverse.mp hi)
    exact ⟨i, hlt.le, rfl⟩

/-- **Every width divides those before it.** -/
theorem pairwise_dvd_mountainRange (k n : Nat) :
    (mountainRange (2 ^ k) n).Pairwise fun before width => width ∣ before := by
  rw [mountainRange_eq, List.pairwise_append]
  refine ⟨List.pairwise_replicate.mpr (.inr dvd_rfl), ?_, fun before hbefore width hwidth => ?_⟩
  · rw [List.pairwise_map, List.pairwise_reverse]
    exact Nat.bitIndices_sorted.pairwise.imp fun hlt => Nat.pow_dvd_pow 2 hlt.le
  · obtain ⟨i, hi, rfl⟩ := List.mem_map.mp hwidth
    have hlt := lt_of_mem_bitIndices (Nat.mod_lt n (Nat.two_pow_pos k)) (List.mem_reverse.mp hi)
    rw [List.eq_of_mem_replicate hbefore]
    exact Nat.pow_dvd_pow 2 hlt.le

end Availability
