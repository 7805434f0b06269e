/-!
# Splitting a list into a binary tree

A list of leaves is made into a binary tree by splitting it again and again: the left part has as
many leaves as the largest power of two below their number. A list whose length is a power of two
is thus halved, and no leaf is ever moved by leaves that are appended later, except the last.

* `splitPoint` – the number of leaves to the **left**;
* `combine` – the value of the root, given that of the leaves and how two values are joined;
* `siblings` – the values beside a range of leaves, from left to right.

The trees of digests and the trees of namespaced digests are both built in this way.
-/

namespace Availability.Merkle

/-- The largest power of two below a number, and 0 when there is none. -/
def splitPoint (n : Nat) : Nat :=
  if n < 2 then 0
  else
    let k := 1 <<< n.log2
    if k = n then k / 2 else k

theorem splitPoint_pos {n : Nat} (h : 2 ≤ n) : 0 < splitPoint n := by
  have hk : 2 ^ 1 ≤ 2 ^ n.log2 := Nat.pow_le_pow_right (by decide) ((Nat.le_log2 (by omega)).2 h)
  simp only [splitPoint, if_neg (show ¬n < 2 by omega), Nat.one_shiftLeft]
  split <;> omega

theorem splitPoint_lt {n : Nat} (h : 2 ≤ n) : splitPoint n < n := by
  have hk : 2 ^ n.log2 ≤ n := Nat.log2_self_le (by omega)
  simp only [splitPoint, if_neg (show ¬n < 2 by omega), Nat.one_shiftLeft]
  split <;> omega

variable {α : Type}

/-- The left part has as many leaves as the split point says. -/
theorem length_take_splitPoint {leaves : List α} (h : 2 ≤ leaves.length) :
    (leaves.take (splitPoint leaves.length)).length = splitPoint leaves.length :=
  List.length_take_of_le (Nat.le_of_lt (splitPoint_lt h))

/-- Joins the leaves of a tree to its root. A tree of one leaf is its own root. -/
def combine (node : α → α → α) (empty : α) (leaves : List α) : α :=
  if _ : 2 ≤ leaves.length then
    let k := splitPoint leaves.length
    node (combine node empty (leaves.take k)) (combine node empty (leaves.drop k))
  else leaves.headD empty
termination_by leaves.length
decreasing_by
  all_goals
    have := splitPoint_pos ‹2 ≤ leaves.length›
    have := splitPoint_lt ‹2 ≤ leaves.length›
    simp only [List.length_take, List.length_drop]
    omega

@[simp] theorem combine_nil (node : α → α → α) (empty : α) : combine node empty [] = empty := by
  rw [combine]; rfl

@[simp] theorem combine_singleton (node : α → α → α) (empty x : α) :
    combine node empty [x] = x := by
  rw [combine]; rfl

/-- The roots of the largest subtrees without a leaf in `[start, stop)`, from left to right. The
first of the given leaves has the number `offset`. -/
def siblings (node : α → α → α) (empty : α) (start stop : Nat) (offset : Nat) (leaves : List α) :
    List α :=
  if stop ≤ offset ∨ offset + leaves.length ≤ start then
    [combine node empty leaves]
  else if _ : 2 ≤ leaves.length then
    let k := splitPoint leaves.length
    siblings node empty start stop offset (leaves.take k) ++
      siblings node empty start stop (offset + k) (leaves.drop k)
  else []
termination_by leaves.length
decreasing_by
  all_goals
    have := splitPoint_pos ‹2 ≤ leaves.length›
    have := splitPoint_lt ‹2 ≤ leaves.length›
    simp only [List.length_take, List.length_drop]
    omega

end Availability.Merkle
