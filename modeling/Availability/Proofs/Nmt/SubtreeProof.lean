import Availability.Proofs.Merkle.Shape
import Availability.Proofs.Nmt.Subtree

/-!
# The subtree roots of a range verify

The nodes beside a range of leaves come from the tree itself, which may have any number of leaves.
Whoever checks subtree roots does not know this number, and plans for the smallest tree of a power
of two that has room for the range. So two trees of different shapes have to be walked at once: the
planned one may lack leaves at its right end, and the real one may go on after it.

* `nodesBeside` – the nodes beside a range, with an equation for each way to walk on;
* `Reached.induct` – **walking over a row** along the planned tree, as an induction on its height;
* `Rebuilds` – **what one subtree of the planned tree does**: it uses up its own nodes and subtree
  roots, gives the root of its leaves, and leaves everything else to the right;
* `rebuilds` – and every one that is reached does this;
* `foldlM_spine` – what the real tree has to the right of the planned one;
* `verify_proveRange` – the subtree roots of any range verify;
* `verify_leafRanges` – so the roots of trees that are built over its subtrees verify, beside the
  nodes outside of it.
-/

namespace Availability

namespace Nmt

open Merkle (splitPoint splitPoint_pos splitPoint_lt length_take_splitPoint siblings)

/-! ### Nodes beside a range -/

/-- The roots of the largest subtrees outside of a range, for the leaves from `offset` on. -/
def nodesBeside (start stop offset : Nat) (leaves : List Leaf) : List NamespacedHash :=
  siblings (.node true) .empty start stop offset (leafHashes leaves)

theorem nodesBeside_of_outside {start stop offset : Nat} {leaves : List Leaf}
    (h : stop ≤ offset ∨ offset + leaves.length ≤ start) :
    nodesBeside start stop offset leaves = [rootOver leaves] := by
  rw [nodesBeside, siblings, if_pos (by rwa [leafHashes, List.length_map])]
  rfl

theorem nodesBeside_of_two_le {start stop offset : Nat} {leaves : List Leaf}
    (h : ¬(stop ≤ offset ∨ offset + leaves.length ≤ start)) (htwo : 2 ≤ leaves.length) :
    nodesBeside start stop offset leaves =
      nodesBeside start stop offset (leaves.take (splitPoint leaves.length)) ++
        nodesBeside start stop (offset + splitPoint leaves.length)
          (leaves.drop (splitPoint leaves.length)) := by
  rw [nodesBeside, siblings, if_neg (by rwa [leafHashes, List.length_map]),
    dif_pos (by rwa [leafHashes, List.length_map])]
  simp only [leafHashes, List.length_map, ← List.map_take, ← List.map_drop]
  rfl

/-- A subtree within the range has nothing beside it. -/
theorem nodesBeside_of_inside {start stop offset : Nat} {leaves : List Leaf} (hne : leaves ≠ [])
    (hstart : start ≤ offset) (hstop : offset + leaves.length ≤ stop) :
    nodesBeside start stop offset leaves = [] := by
  induction h : leaves.length using Nat.strong_induction_on generalizing leaves offset with
  | _ n ih =>
    subst h
    have hlen := List.length_pos_iff.mpr hne
    have hin : ¬(stop ≤ offset ∨ offset + leaves.length ≤ start) := by omega
    rcases Nat.lt_or_ge leaves.length 2 with hone | htwo
    · rw [nodesBeside, siblings, if_neg (by rwa [leafHashes, List.length_map]),
        dif_neg (by rw [leafHashes, List.length_map]; omega)]
    · have hpos := splitPoint_pos htwo
      have hlt := splitPoint_lt htwo
      have htake := length_take_splitPoint htwo
      have hdrop : (leaves.drop (splitPoint leaves.length)).length =
          leaves.length - splitPoint leaves.length := List.length_drop
      rw [nodesBeside_of_two_le hin htwo,
        ih _ hlt (List.ne_nil_of_length_pos (by omega)) hstart (by omega) htake,
        ih _ (by omega) (List.ne_nil_of_length_pos (by omega)) (by omega) (by omega) hdrop]
      rfl

/-! ### Joining two sides -/

/-- The sides of a tree in ascending order are in order. -/
theorem join_rootOver {left right : List Leaf} (hleft : left ≠ []) (hright : right ≠ [])
    (h : ∀ a ∈ left, ∀ b ∈ right, a.ns ≤ b.ns) :
    SubtreeRoots.join true (rootOver left) (rootOver right) =
      .ok (.node true (rootOver left) (rootOver right)) :=
  SubtreeRoots.join_eq_ok_iff.mpr ⟨rootOver_min_le_max hleft, rootOver_min_le_max hright,
    rootOver_max_le hleft fun a ha => le_rootOver_min hright fun b hb => h a ha b hb, rfl⟩

/-- A tree in ascending order is joined from its two sides. -/
theorem join_take_drop {leaves : List Leaf} (hasc : leaves.Pairwise fun a b => a.ns ≤ b.ns)
    (htwo : 2 ≤ leaves.length) :
    SubtreeRoots.join true (rootOver (leaves.take (splitPoint leaves.length)))
      (rootOver (leaves.drop (splitPoint leaves.length))) = .ok (rootOver leaves) := by
  have hpos := splitPoint_pos htwo
  have hlt := splitPoint_lt htwo
  rw [join_rootOver, ← rootOver_of_two_le htwo]
  · refine List.ne_nil_of_length_pos ?_
    rw [List.length_take]
    omega
  · refine List.ne_nil_of_length_pos ?_
    rw [List.length_drop]
    omega
  · rw [← List.take_append_drop (splitPoint leaves.length) leaves] at hasc
    exact (List.pairwise_append.mp hasc).2.2

/-- The leaves at the places of a subtree, as far as there are any. -/
def slice {α : Type} (leaves : List α) (offset size : Nat) : List α :=
  (leaves.drop offset).take size

theorem length_slice (leaves : List Leaf) (offset size : Nat) :
    (slice leaves offset size).length = min size (leaves.length - offset) := by
  rw [slice, List.length_take, List.length_drop]

theorem slice_ne_nil {leaves : List Leaf} {offset size : Nat} (hoffset : offset < leaves.length)
    (hsize : 0 < size) : slice leaves offset size ≠ [] := by
  refine List.ne_nil_of_length_pos ?_
  rw [length_slice]
  omega

theorem pairwise_slice {leaves : List Leaf} (hasc : leaves.Pairwise fun a b => a.ns ≤ b.ns)
    (offset size : Nat) : (slice leaves offset size).Pairwise fun a b => a.ns ≤ b.ns :=
  hasc.sublist ((List.take_sublist _ _).trans (List.drop_sublist _ _))

/-- The left half of a subtree. -/
theorem take_slice (leaves : List Leaf) (offset k : Nat) :
    (slice leaves offset (2 ^ (k + 1))).take (2 ^ k) = slice leaves offset (2 ^ k) := by
  rw [slice, slice, List.take_take, min_eq_left (Nat.pow_le_pow_right (by norm_num) (by omega))]

/-- The right half of a subtree. -/
theorem drop_slice (leaves : List Leaf) (offset k : Nat) :
    (slice leaves offset (2 ^ (k + 1))).drop (2 ^ k) = slice leaves (offset + 2 ^ k) (2 ^ k) := by
  have hhalf : 2 ^ (k + 1) - 2 ^ k = 2 ^ k := by
    rw [pow_succ]
    omega
  rw [slice, slice, List.drop_take, List.drop_drop, hhalf]

end Nmt

namespace SubtreeRoots

open Merkle (splitPoint splitPoint_pos splitPoint_lt)
open Nmt (Leaf rootOver nodesBeside slice)

/-! ### One subtree of the planned tree -/

section Slice

variable {leaves : List Leaf} {w start stop : Nat}

/-- The ranges that are left when everything before `offset` was walked through. -/
def rangesFrom (w start stop offset : Nat) : List (Nat × Nat) :=
  coverRange (2 ^ w) (max offset start) stop

/-- The roots of the leaves at some ranges. -/
def rootsAt (leaves : List Leaf) (ranges : List (Nat × Nat)) : List NamespacedHash :=
  ranges.map fun range => rootOver (slice leaves range.1 (range.2 - range.1))

/-- What is left over when everything before `offset` was walked through. -/
def supplyFrom (leaves : List Leaf) (w start stop offset : Nat) (nodes : List NamespacedHash) :
    Supply :=
  ⟨rangesFrom w start stop offset, rootsAt leaves (rangesFrom w start stop offset), nodes⟩

/-- Nothing is used up before the range, and nothing is left after it. -/
theorem rangesFrom_eq_of_outside {offset size : Nat}
    (h : offset + size ≤ start ∨ stop ≤ offset) :
    rangesFrom w start stop (offset + size) = rangesFrom w start stop offset := by
  rcases h with h | h
  · rw [rangesFrom, rangesFrom, max_eq_right h, max_eq_right (by omega)]
  · rw [rangesFrom, rangesFrom, coverRange_of_le (by omega), coverRange_of_le (by omega)]

/-- A multiple of a number is the only one among as many consecutive numbers. -/
theorem eq_of_dvd_of_lt {d a b : Nat} (ha : d ∣ a) (hb : d ∣ b) (hle : a ≤ b) (hlt : b < a + d) :
    a = b := by
  have hzero := Nat.eq_zero_of_dvd_of_lt (Nat.dvd_sub hb ha) (by omega)
  omega

/-- Subtrees that start in the middle of an aligned subtree are not wider than half of it. -/
theorem nextWidth_le_half {k offset : Nat} (hdvd : 2 ^ (k + 1) ∣ offset)
    (h : offset + 2 ^ k < stop) :
    nextWidth (offset + 2 ^ k) stop (2 ^ w) ≤ 2 ^ k := by
  obtain ⟨e, -, hwidth, hedvd, -⟩ := nextWidth_spec w h
  rw [hwidth]
  refine Nat.pow_le_pow_right (by norm_num) ?_
  by_contra hlt
  have hmiddle := (Nat.dvd_add_right hdvd).mp
    ((Nat.pow_dvd_pow 2 (show k + 1 ≤ e by omega)).trans hedvd)
  exact absurd ((Nat.pow_dvd_pow_iff_le_right (by norm_num)).mp hmiddle) (by omega)

/-- The next subtree of the range does not reach across the right half of an aligned subtree, unless
it already starts before it. -/
theorem nextWidth_right_le {k offset : Nat} (hdvd : 2 ^ (k + 1) ∣ offset)
    (h : nextWidth (max offset start) stop (2 ^ w) ≤ 2 ^ k) :
    offset + 2 ^ k + 2 ^ k ≤ start ∨ stop ≤ offset + 2 ^ k ∨
      nextWidth (max (offset + 2 ^ k) start) stop (2 ^ w) ≤ 2 ^ k := by
  rcases le_total start (offset + 2 ^ k) with hs | hs
  · rw [max_eq_left hs]
    exact Or.inr ((Nat.lt_or_ge (offset + 2 ^ k) stop).symm.imp_right
      fun h => nextWidth_le_half hdvd h)
  · rw [max_eq_right hs]
    rw [max_eq_right (by omega)] at h
    exact Or.inr (Or.inr h)

/-- A subtree of the planned tree that a walk over a row reaches: it is aligned, has at least one
leaf, and does not lie inside of the next subtree of the range. -/
def Reached (width w start stop k offset : Nat) : Prop :=
  2 ^ k ∣ offset ∧ offset < width ∧
    (offset + 2 ^ k ≤ start ∨ stop ≤ offset ∨ nextWidth (max offset start) stop (2 ^ w) ≤ 2 ^ k)

/-- The whole planned tree is reached. -/
theorem Reached.root {width k : Nat} (hlt : start < stop) (hstop : stop ≤ width)
    (hk : stop ≤ 2 ^ k) : Reached width w start stop k 0 := by
  obtain ⟨e, -, hwidth, -, hfit, -⟩ := nextWidth_spec w (show max 0 start < stop by omega)
  exact ⟨Nat.dvd_zero _, by omega, Or.inr (Or.inr (by omega))⟩

/-- A subtree that is reached is outside of the range, or at the place of the next subtree of the
range, or wider than this. -/
theorem Reached.cases {width k offset : Nat} (h : Reached width w start stop k offset)
    (hlt : start < stop) :
    (offset + 2 ^ k ≤ start ∨ stop ≤ offset) ∨
      (start ≤ offset ∧ nextWidth offset stop (2 ^ w) = 2 ^ k ∧ offset + 2 ^ k ≤ stop) ∨
      ¬(offset + 2 ^ k ≤ start ∨ stop ≤ offset) ∧
        ∃ e < k, nextWidth (max offset start) stop (2 ^ w) = 2 ^ e := by
  obtain ⟨hdvd, -, hnext⟩ := h
  rcases Decidable.em (offset + 2 ^ k ≤ start ∨ stop ≤ offset) with hout | hin
  · exact Or.inl hout
  obtain ⟨e, -, hwidth, hedvd, hfit, -⟩ :=
    nextWidth_spec w (show max offset start < stop by omega)
  have hle : e ≤ k := by
    have : 2 ^ e ≤ 2 ^ k := by omega
    exact (Nat.pow_le_pow_iff_right (by norm_num)).mp this
  rcases hle.eq_or_lt with rfl | he
  · have hmax : offset = max offset start :=
      eq_of_dvd_of_lt hdvd hedvd (le_max_left _ _) (by omega)
    rw [← hmax] at hwidth hfit
    exact Or.inr (Or.inl ⟨by omega, hwidth, hfit⟩)
  · exact Or.inr (Or.inr ⟨hin, e, he, hwidth⟩)

/-- **Walking over a row**: what holds outside of the range and at the places of its subtrees, and
of a subtree whenever it holds of its halves as far as they have leaves, holds of all subtrees that
are reached. -/
theorem Reached.induct (P : Nat → Nat → Prop) {width : Nat} (hlt : start < stop)
    (outside : ∀ {k offset}, offset + 2 ^ k ≤ start ∨ stop ≤ offset → P k offset)
    (range : ∀ {k offset}, start ≤ offset → nextWidth offset stop (2 ^ w) = 2 ^ k →
      offset + 2 ^ k ≤ stop → P k offset)
    (halves : ∀ {k offset}, ¬(offset + 2 ^ (k + 1) ≤ start ∨ stop ≤ offset) →
      (rangesFrom w start stop offset).head? ≠ some (offset, offset + 2 ^ (k + 1)) →
      offset + 2 ^ k < width → P k offset → P k (offset + 2 ^ k) → P (k + 1) offset)
    (left : ∀ {k offset}, ¬(offset + 2 ^ (k + 1) ≤ start ∨ stop ≤ offset) →
      (rangesFrom w start stop offset).head? ≠ some (offset, offset + 2 ^ (k + 1)) →
      width ≤ offset + 2 ^ k → P k offset → P (k + 1) offset)
    {k offset : Nat} (h : Reached width w start stop k offset) : P k offset := by
  induction k generalizing offset with
  | zero =>
    rcases h.cases hlt with hout | ⟨hstart, hnext, hfit⟩ | ⟨-, e, he, -⟩
    · exact outside hout
    · exact range hstart hnext hfit
    · exact absurd he (Nat.not_lt_zero e)
  | succ k ih =>
    rcases h.cases hlt with hout | ⟨hstart, hnext, hfit⟩ | ⟨hin, e, he, hwidth⟩
    · exact outside hout
    · exact range hstart hnext hfit
    -- the next subtree of the range is within one of the halves
    obtain ⟨hdvd, hoffset, -⟩ := h
    have hlow : 2 ^ e ≤ 2 ^ k := Nat.pow_le_pow_right (by norm_num) (by omega)
    have hdvd' : 2 ^ k ∣ offset := (Nat.pow_dvd_pow 2 (Nat.le_succ k)).trans hdvd
    have hhead : (rangesFrom w start stop offset).head? ≠
        some (offset, offset + 2 ^ (k + 1)) := by
      rw [rangesFrom, coverRange_cons w (by omega), hwidth, List.head?_cons]
      intro heq
      obtain ⟨hfirst, hlast⟩ := Prod.mk.inj (Option.some.inj heq)
      omega
    have hleft : P k offset := ih ⟨hdvd', hoffset, Or.inr (Or.inr (by omega))⟩
    rcases Nat.lt_or_ge (offset + 2 ^ k) width with hboth | hshort
    · exact halves hin hhead hboth hleft (ih ⟨Nat.dvd_add hdvd' (Nat.dvd_refl _), hboth,
        nextWidth_right_le hdvd (by omega)⟩)
    · exact left hin hhead hshort hleft

/-- **A subtree of the planned tree uses up what is its own**: of the nodes beside the range and of
the subtree roots it takes those at its places, it gives the root of its leaves, and it leaves what
comes after them. -/
def Rebuilds (leaves : List Leaf) (w start stop size offset : Nat) (rest : List NamespacedHash) :
    Prop :=
  rebuild true start stop size offset (supplyFrom leaves w start stop offset
      (nodesBeside start stop offset (slice leaves offset size) ++ rest)) =
    .ok (some (rootOver (slice leaves offset size)),
      supplyFrom leaves w start stop (offset + size) rest)

/-- Outside of the range, a subtree is given by its own node. -/
theorem rebuilds_of_outside (hstop : stop ≤ leaves.length) {k offset : Nat}
    (h : offset + 2 ^ k ≤ start ∨ stop ≤ offset) (rest : List NamespacedHash) :
    Rebuilds leaves w start stop (2 ^ k) offset rest := by
  have hout : stop ≤ offset ∨ offset + (slice leaves offset (2 ^ k)).length ≤ start := by
    rw [Nmt.length_slice]
    omega
  rw [Rebuilds, rebuild_of_outside h, Nmt.nodesBeside_of_outside hout, supplyFrom, supplyFrom,
    rangesFrom_eq_of_outside h]
  rfl

/-- At the place of the next subtree there is nothing beside the range. -/
theorem rebuilds_of_range (hstop : stop ≤ leaves.length) {k offset : Nat}
    (hstart : start ≤ offset) (hnext : nextWidth offset stop (2 ^ w) = 2 ^ k)
    (hfit : offset + 2 ^ k ≤ stop) (rest : List NamespacedHash) :
    Rebuilds leaves w start stop (2 ^ k) offset rest := by
  have hpos := Nat.two_pow_pos k
  have hranges : rangesFrom w start stop offset =
      (offset, offset + 2 ^ k) :: rangesFrom w start stop (offset + 2 ^ k) := by
    rw [rangesFrom, rangesFrom, max_eq_left hstart, max_eq_left (by omega),
      coverRange_cons w (by omega), hnext]
  have hinside : nodesBeside start stop offset (slice leaves offset (2 ^ k)) = [] := by
    refine Nmt.nodesBeside_of_inside (Nmt.slice_ne_nil (by omega) hpos) hstart ?_
    rw [Nmt.length_slice]
    omega
  rw [Rebuilds, hinside, supplyFrom, hranges, rebuild_of_range (by omega) rfl]
  simp only [Supply.takeRoot, rootsAt, List.map_cons, List.head?_cons, List.tail_cons,
    Nat.add_sub_cancel_left, List.nil_append]
  rfl

section Halves

variable {k offset : Nat} {rest : List NamespacedHash}
  (hin : ¬(offset + 2 ^ (k + 1) ≤ start ∨ stop ≤ offset))
  (hhead : (rangesFrom w start stop offset).head? ≠ some (offset, offset + 2 ^ (k + 1)))
include hin hhead

/-- A subtree with leaves in both halves joins what these give. -/
theorem rebuilds_of_halves (hasc : leaves.Pairwise fun a b => a.ns ≤ b.ns)
    (hstop : stop ≤ leaves.length) (hlt : start < stop)
    (hboth : offset + 2 ^ k < leaves.length)
    (hleft : ∀ rest, Rebuilds leaves w start stop (2 ^ k) offset rest)
    (hright : Rebuilds leaves w start stop (2 ^ k) (offset + 2 ^ k) rest) :
    Rebuilds leaves w start stop (2 ^ (k + 1)) offset rest := by
  have hpos := Nat.two_pow_pos k
  have hpow := Nat.two_pow_succ k
  have hlen := Nmt.length_slice leaves offset (2 ^ (k + 1))
  have htwo : 2 ≤ (slice leaves offset (2 ^ (k + 1))).length := by omega
  have hsplit : splitPoint (slice leaves offset (2 ^ (k + 1))).length = 2 ^ k :=
    Merkle.splitPoint_eq (by omega) (by omega)
  have hwalk : ¬(stop ≤ offset ∨
      offset + (slice leaves offset (2 ^ (k + 1))).length ≤ start) := by omega
  -- the real tree is split at the same place as the planned one
  have hnodes := Nmt.nodesBeside_of_two_le hwalk htwo
  have hjoin := Nmt.join_take_drop (Nmt.pairwise_slice hasc offset (2 ^ (k + 1))) htwo
  rw [hsplit, Nmt.take_slice, Nmt.drop_slice] at hnodes hjoin
  rw [Rebuilds, Nat.add_assoc, ← hpow] at hright
  refine (rebuild_eq_ok_iff hin hhead (by omega)).mpr ?_
  rw [Merkle.splitPoint_eq (show 2 ^ k < 2 ^ (k + 1) by omega) le_rfl,
    show 2 ^ (k + 1) - 2 ^ k = 2 ^ k by omega, hnodes, List.append_assoc]
  refine ⟨_, _, _, hleft _, hright, ?_⟩
  rw [joinSides, hjoin]
  rfl

/-- A subtree whose right half has no leaves is its left half. -/
theorem rebuilds_of_left (hstop : stop ≤ leaves.length) (hshort : leaves.length ≤ offset + 2 ^ k)
    (hleft : Rebuilds leaves w start stop (2 ^ k) offset []) :
    Rebuilds leaves w start stop (2 ^ (k + 1)) offset [] := by
  have hpow := Nat.two_pow_succ k
  have hsame : slice leaves offset (2 ^ (k + 1)) = slice leaves offset (2 ^ k) := by
    rw [slice, slice, List.take_of_length_le (by rw [List.length_drop]; omega),
      List.take_of_length_le (by rw [List.length_drop]; omega)]
  have hout : offset + 2 ^ k + 2 ^ k ≤ start ∨ stop ≤ offset + 2 ^ k := Or.inr (by omega)
  refine (rebuild_eq_ok_iff hin hhead (by omega)).mpr ?_
  rw [Merkle.splitPoint_eq (show 2 ^ k < 2 ^ (k + 1) by omega) le_rfl,
    show 2 ^ (k + 1) - 2 ^ k = 2 ^ k by omega, hsame]
  -- neither a node nor a subtree root is left for the right half, so it gives nothing
  refine ⟨_, none, _, hleft, ?_, rfl⟩
  rw [rebuild_of_outside hout, hpow, ← Nat.add_assoc, supplyFrom, supplyFrom,
    rangesFrom_eq_of_outside hout]
  rfl

end Halves

/-- **Every subtree that is reached uses up what is its own**; when leaves are missing at its right
end, there are no other nodes. -/
theorem rebuilds (hasc : leaves.Pairwise fun a b => a.ns ≤ b.ns)
    (hstop : stop ≤ leaves.length) (hlt : start < stop) {k offset : Nat}
    (hreached : Reached leaves.length w start stop k offset)
    {rest : List NamespacedHash} (hrest : leaves.length < offset + 2 ^ k → rest = []) :
    Rebuilds leaves w start stop (2 ^ k) offset rest := by
  refine hreached.induct (fun k offset => ∀ rest : List NamespacedHash,
    (leaves.length < offset + 2 ^ k → rest = []) → Rebuilds leaves w start stop (2 ^ k) offset rest)
    hlt ?outside ?range ?halves ?left rest hrest
  case outside => exact fun hout rest _ => rebuilds_of_outside hstop hout rest
  case range => exact fun hstart hnext hfit rest _ => rebuilds_of_range hstop hstart hnext hfit rest
  case halves =>
    intro k offset hin hhead hboth hleft hright rest hrest
    exact rebuilds_of_halves hin hhead hasc hstop hlt hboth
      (fun rest => hleft rest fun h => by omega)
      (hright rest fun h => hrest (by rw [pow_succ]; omega))
  case left =>
    intro k offset hin hhead hshort hleft rest hrest
    obtain rfl := hrest (by rw [pow_succ]; omega)
    exact rebuilds_of_left hin hhead hstop hshort (hleft [] fun _ => rfl)

/-! ### The whole row -/

/-- **What the real tree has beyond the planned one** are roots of subtrees to the right, which are
joined one after the other. -/
theorem foldlM_spine (hasc : leaves.Pairwise fun a b => a.ns ≤ b.ns) (hstop : stop ≤ leaves.length)
    (hlt : start < stop) {k : Nat} (hk : stop ≤ 2 ^ k) :
    ∃ rest, nodesBeside start stop 0 leaves =
        nodesBeside start stop 0 (slice leaves 0 (2 ^ k)) ++ rest ∧
      (leaves.length < 0 + 2 ^ k → rest = []) ∧
      rest.foldlM (join true) (rootOver (slice leaves 0 (2 ^ k))) = .ok (rootOver leaves) := by
  induction h : leaves.length using Nat.strong_induction_on generalizing leaves with
  | _ n ih =>
    subst h
    rcases Nat.lt_or_ge (2 ^ k) leaves.length with hlong | hshort
    · -- the planned tree is within the left side, and the right side is one more node
      have htwo : 2 ≤ leaves.length := by omega
      obtain ⟨j, hlow, hhigh⟩ := Merkle.exists_lt_le_two_pow htwo
      have hsplit := Merkle.splitPoint_eq hlow hhigh
      have hkj : 2 ^ k ≤ 2 ^ j := by
        have : k < j + 1 := (Nat.pow_lt_pow_iff_right (by norm_num)).mp (hlong.trans_le hhigh)
        exact Nat.pow_le_pow_right (by norm_num) (by omega)
      have htake : (leaves.take (2 ^ j)).length = 2 ^ j := by
        rw [List.length_take]
        omega
      have hslice : slice (leaves.take (2 ^ j)) 0 (2 ^ k) = slice leaves 0 (2 ^ k) := by
        rw [slice, slice, List.drop_zero, List.drop_zero, List.take_take, min_eq_left hkj]
      obtain ⟨rest, hnodes, -, hfold⟩ := ih (2 ^ j) hlow
        (hasc.sublist (List.take_sublist _ _)) (by omega) htake
      rw [hslice] at hnodes hfold
      have hjoin := Nmt.join_take_drop hasc htwo
      have hwalk := Nmt.nodesBeside_of_two_le
        (show ¬(stop ≤ 0 ∨ 0 + leaves.length ≤ start) by omega) htwo
      rw [hsplit] at hjoin hwalk
      refine ⟨rest ++ [rootOver (leaves.drop (2 ^ j))], ?_, fun hfew => by omega, ?_⟩
      · rw [hwalk, hnodes, Nmt.nodesBeside_of_outside (Or.inl (show stop ≤ 0 + 2 ^ j by omega)),
          List.append_assoc]
      · rw [List.foldlM_append, hfold]
        simp only [List.foldlM_cons, List.foldlM_nil]
        exact Checked.bind_eq_ok_iff.mpr ⟨_, rfl, Checked.bind_eq_ok_iff.mpr ⟨_, hjoin, rfl⟩⟩
    · have hslice : slice leaves 0 (2 ^ k) = leaves := by
        rw [slice, List.drop_zero, List.take_of_length_le hshort]
      rw [hslice]
      exact ⟨[], (List.append_nil _).symm, fun _ => rfl, rfl⟩

/-- The planned tree is the smallest one of a power of two with room for the range. -/
theorem exists_planSize_eq (stop : Nat) : ∃ k, planSize stop = 2 ^ k ∧ stop ≤ 2 ^ k := by
  rcases Nat.lt_or_ge stop 2 with hone | htwo
  · refine ⟨0, ?_, by omega⟩
    rw [planSize, splitPoint, if_pos hone]
    rfl
  · obtain ⟨j, hlow, hhigh⟩ := Merkle.exists_lt_le_two_pow htwo
    refine ⟨j + 1, ?_, hhigh⟩
    rw [planSize, Merkle.splitPoint_eq hlow hhigh, ← Nat.pow_succ']
    exact max_eq_left (Nat.two_pow_pos _)

/-- The leaves of a slice stand at its places. -/
theorem exists_getElem?_of_mem_slice {offset size : Nat} {leaf : Leaf}
    (h : leaf ∈ slice leaves offset size) :
    ∃ i, offset ≤ i ∧ i < offset + size ∧ leaves[i]? = some leaf := by
  obtain ⟨i, hi⟩ := List.mem_iff_getElem?.mp h
  have hlen := (List.getElem?_eq_some_iff.mp hi).1
  rw [Nmt.length_slice] at hlen
  refine ⟨offset + i, by omega, by omega, ?_⟩
  rwa [slice, List.getElem?_take_of_lt (by omega), List.getElem?_drop] at hi

/-- The range that a root over leaves of one namespace shows is this namespace. -/
theorem rootOver_of_all {ns : Namespace} (hne : leaves ≠ []) (h : ∀ leaf ∈ leaves, leaf.ns = ns) :
    (rootOver leaves).min = ns ∧ (rootOver leaves).max = ns := by
  obtain ⟨leaf, hleaf⟩ := List.exists_mem_of_ne_nil leaves hne
  have hmin := Nmt.rootOver_min_le hleaf
  have hmax := Nmt.rootOver_max_le hne fun leaf hleaf => (h leaf hleaf).le
  have hle := Nmt.rootOver_min_le_max hne
  have hlow := Nmt.le_rootOver_min hne fun leaf hleaf => (h leaf hleaf).ge
  rw [h leaf hleaf] at hmin
  exact ⟨le_antisymm hmin hlow, le_antisymm hmax (hlow.trans hle)⟩

end Slice

/-- **The subtree roots of a range verify**, whatever the number of leaves is, wherever the range
lies and however wide the subtrees may be, when all leaves of the range have one namespace. -/
theorem verify_proveRange {tree : Nmt} {start stop w : Nat} {ns : Namespace} (hlt : start < stop)
    (hstop : stop ≤ tree.leaves.length) (hsize : stop < UInt32.size) (hne : ns ≠ .parity)
    (hns : ∀ i leaf, start ≤ i → i < stop → tree.leaves[i]? = some leaf → leaf.ns = ns) :
    verify (tree.proveRange start stop) (rootsAt tree.leaves (coverRange (2 ^ w) start stop))
      (2 ^ w) ns tree.root = .ok () := by
  have hasc := Nmt.ascending_iff.mp tree.ascending_leaves
  have hstart : (UInt32.ofNat start).toNat = start := UInt32.toNat_ofNat_of_lt' (by omega)
  have hstop' : (UInt32.ofNat stop).toNat = stop := UInt32.toNat_ofNat_of_lt' hsize
  have hnonempty : tree.leaves ≠ [] := List.ne_nil_of_length_pos (by omega)
  -- the planned tree comes first, and then what the real tree has beyond it
  obtain ⟨k, hplan, hk⟩ := exists_planSize_eq stop
  obtain ⟨rest, hnodes, hrest, hfold⟩ := foldlM_spine hasc hstop hlt hk
  have hrebuild := rebuilds (w := w) hasc hstop hlt (.root hlt hstop hk) hrest
  have hranges : rangesFrom w start stop 0 = coverRange (2 ^ w) start stop := by
    rw [rangesFrom, Nat.zero_max]
  rw [Rebuilds, ← hnodes, supplyFrom, hranges] at hrebuild
  refine verify_eq_ok_iff.mpr ⟨rfl, ?_, ?_, ?_, coverRange (2 ^ w) start stop, ?_,
    by rw [rootsAt, List.length_map], rootOver (slice tree.leaves 0 (2 ^ k)),
    supplyFrom tree.leaves w start stop (0 + 2 ^ k) rest, ?_, ?_, hfold⟩
  · exact validateOrder_eq_ok_iff.mpr (Nmt.rootOver_min_le_max hnonempty)
  · -- the first leaf of the range is within the range of the row root
    obtain ⟨leaf, hleaf⟩ : ∃ leaf, tree.leaves[start]? = some leaf :=
      ⟨_, List.getElem?_eq_getElem (by omega)⟩
    have hfirst := hns start leaf le_rfl hlt hleaf
    have hmem := List.mem_of_getElem? hleaf
    have hmin := Nmt.rootOver_min_le hmem
    have hmax := Nmt.le_rootOver_max hmem (by rwa [hfirst])
    rw [hfirst] at hmin hmax
    simp only [Namespace.isOutside, Namespace.isBelow, Namespace.isAbove, Bool.or_eq_false_iff,
      decide_eq_false_iff_not, not_lt]
    exact ⟨hmin, hmax⟩
  · refine checkNamespace_eq_ok_iff.mpr fun root hroot => ?_
    obtain ⟨range, hrange, rfl⟩ := List.mem_map.mp hroot
    obtain ⟨hlow, hmiddle, hhigh⟩ := mem_coverRange hrange
    refine rootOver_of_all (Nmt.slice_ne_nil (by omega) (by omega)) fun leaf hleaf => ?_
    obtain ⟨i, hi, hi', hget⟩ := exists_getElem?_of_mem_slice hleaf
    exact hns i leaf (by omega) (by omega) hget
  · rw [Nmt.proveRange, NamespaceProof.ofRange, hstart, hstop']
    exact leafRanges_eq_ok hlt
  · rw [Nmt.proveRange, NamespaceProof.ofRange, hstart, hstop', hplan]
    exact hrebuild
  · rw [supplyFrom, rangesFrom, coverRange_of_le (by omega)]
    rfl

/-- **The roots of trees over the subtrees of a range verify**, beside the roots of the largest
subtrees outside of it, whatever the number of leaves is, when all leaves of the range have one
namespace. The parity namespace is not among these: a root does not show it. -/
theorem verify_leafRanges {tree : Nmt} {start stop width : Nat} {ns : Namespace}
    (hlt : start < stop) (hstop : stop ≤ tree.leaves.length) (hsize : stop < UInt32.size)
    (hwidth : isPowerOfTwo width = true) (hne : ns ≠ .parity)
    (hns : ∀ i leaf, start ≤ i → i < stop → tree.leaves[i]? = some leaf → leaf.ns = ns) :
    ∃ ranges subtrees, leafRanges start stop width = .ok ranges ∧
      (ranges.mapM fun range =>
        Nmt.ofLeaves (slice tree.leaves range.1 (range.2 - range.1))) = .ok subtrees ∧
      verify (.ofRange (.ofNat start) (.ofNat stop) (tree.rangeNodes start stop))
        (subtrees.map Nmt.root) width ns tree.root = .ok () := by
  obtain ⟨w, rfl⟩ := isPowerOfTwo_iff.mp hwidth
  have hasc := Nmt.ascending_iff.mp tree.ascending_leaves
  have hbuilt : ∀ range ∈ coverRange (2 ^ w) start stop, ∃ subtree,
      Nmt.ofLeaves (slice tree.leaves range.1 (range.2 - range.1)) = .ok subtree := by
    intro range _
    exact Nmt.exists_ofLeaves_eq_ok (Nmt.pairwise_slice hasc _ _)
  obtain ⟨subtrees, hsubtrees⟩ := Checked.exists_mapM_eq_ok hbuilt
  have hroots : subtrees.map Nmt.root = rootsAt tree.leaves (coverRange (2 ^ w) start stop) := by
    apply Checked.map_of_mapM_eq_ok hsubtrees
    intro range subtree hsubtree
    rw [Nmt.root, Nmt.ofLeaves_eq_ok_iff.mp hsubtree]
    rfl
  refine ⟨_, subtrees, leafRanges_eq_ok hlt, hsubtrees, ?_⟩
  rw [hroots]
  exact verify_proveRange hlt hstop hsize hne hns

/-- Three leaves of a namespace in a tree of five: the range starts with a single leaf, and the
tree that is planned for it lacks the last one. -/
theorem verify_leafRanges_five :
    ∃ tree : Nmt, tree.leaves = [⟨.ofSuffix [1], []⟩, ⟨.ofSuffix [1, 0], [7]⟩,
        ⟨.ofSuffix [1, 0], [8]⟩, ⟨.ofSuffix [1, 0], [9]⟩, ⟨.parity, []⟩] ∧
      ∃ ranges subtrees, leafRanges 1 4 2 = .ok ranges ∧
        (ranges.mapM fun range =>
          Nmt.ofLeaves (slice tree.leaves range.1 (range.2 - range.1))) = .ok subtrees ∧
        verify (.ofRange 1 4 (tree.rangeNodes 1 4)) (subtrees.map Nmt.root) 2 (.ofSuffix [1, 0])
          tree.root = .ok () := by
  obtain ⟨tree, htree⟩ : ∃ tree : Nmt, tree.leaves = [⟨.ofSuffix [1], []⟩,
      ⟨.ofSuffix [1, 0], [7]⟩, ⟨.ofSuffix [1, 0], [8]⟩, ⟨.ofSuffix [1, 0], [9]⟩,
      ⟨.parity, []⟩] := by
    refine ⟨⟨_, ?_⟩, rfl⟩
    decide
  refine ⟨tree, htree, verify_leafRanges (by decide) (by rw [htree]; decide) (by decide)
    (by decide) (by decide) ?_⟩
  intro i leaf hi hi' hleaf
  rw [htree] at hleaf
  obtain rfl | rfl | rfl : i = 1 ∨ i = 2 ∨ i = 3 := by omega
  all_goals rw [← Option.some.inj hleaf]

end SubtreeRoots

end Availability
