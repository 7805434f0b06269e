import Availability.Proofs.Guarded.Subtree
import Mathlib.Data.List.Nodup
import Mathlib.Data.List.Perm.Subperm
import Mathlib.Tactic.Choose

/-!
# Leaf ranges are as few as they can be

Leaves are covered by subtrees from left to right, and each step takes the widest one that is
allowed at the leaf reached. A step knows nothing of those after it, so it could be that a narrower
subtree in one place makes room for wider ones later. It never does, because aligned subtrees are
**nested or apart**: any subtree within the leaves lies within one of those that are taken, and any
other way to cover the leaves needs at least one subtree for each of them.

* `IsSubtree` – ranges that are subtrees, and `IsSubtree.nested` – two of them with a leaf in common;
* `Consecutive`, `Covers` – lists of ranges that have all leaves, one after the other or in any
  order;
* `exists_mem_coverRange` – **every subtree lies within one that is taken**, by induction on the
  steps, and `eq_of_overlap_coverRange` – within one only;
* `eq_coverRange` – consecutive subtrees, none of which could be wider, are those that are taken;
* `IsCanonicalCover`, `leafRanges_canonical` – so the leaf ranges are what there is of this kind, and
  there are no fewer.
-/

namespace Availability

/-! ### Subtrees -/

/-- The leaves of the range are those of a subtree: as many as a power of two, which is not above
the largest width, and beginning at a multiple of it. -/
def IsSubtree (largest : Nat) (range : Nat × Nat) : Prop :=
  ∃ e, 2 ^ e ≤ largest ∧ 2 ^ e ∣ range.1 ∧ range.2 = range.1 + 2 ^ e

/-- All leaves of the one range are leaves of the other. -/
def Within (inner outer : Nat × Nat) : Prop :=
  outer.1 ≤ inner.1 ∧ inner.2 ≤ outer.2

section Subtree

variable {largest k start stop : Nat} {range other : Nat × Nat}

theorem Within.antisymm (h : Within range other) (h' : Within other range) : range = other :=
  Prod.ext (le_antisymm h'.1 h.1) (le_antisymm h.2 h'.2)

theorem IsSubtree.lt (h : IsSubtree largest range) : range.1 < range.2 := by
  obtain ⟨e, -, -, hstop⟩ := h
  have := Nat.two_pow_pos e
  omega

/-- An aligned range that shares a leaf with a wider one lies within it: the ends of the wider one
are multiples of the width of the narrower one too. -/
theorem within_of_overlap {i e a b : Nat} (hle : i ≤ e) (ha : 2 ^ i ∣ a) (hb : 2 ^ e ∣ b)
    (hleft : b < a + 2 ^ i) (hright : a < b + 2 ^ e) : b ≤ a ∧ a + 2 ^ i ≤ b + 2 ^ e := by
  have hpow : 2 ^ i ∣ 2 ^ e := Nat.pow_dvd_pow 2 hle
  have hstart : 2 ^ i ∣ b := hpow.trans hb
  refine ⟨Nat.le_of_lt_add_of_dvd hleft hstart ha, ?_⟩
  by_contra hlt
  have hend := Nat.le_of_lt_add_of_dvd (not_le.mp hlt) (Nat.dvd_add hstart hpow) ha
  omega

/-- **Subtrees are nested or apart.** -/
theorem IsSubtree.nested (h : IsSubtree largest range) (h' : IsSubtree largest other)
    (hleft : range.1 < other.2) (hright : other.1 < range.2) :
    Within range other ∨ Within other range := by
  obtain ⟨i, -, hi, hstop⟩ := h
  obtain ⟨e, -, he, hstop'⟩ := h'
  rw [hstop] at hright
  rw [hstop'] at hleft
  simp only [Within, hstop, hstop']
  rcases le_total i e with hle | hle
  · exact Or.inl (within_of_overlap hle hi he hright hleft)
  · exact Or.inr (within_of_overlap hle he hi hleft hright)

/-- **What one step takes** is a subtree that does not reach over the end, and no subtree with the
same first leaf is wider. -/
theorem isSubtree_nextWidth (k : Nat) (h : start < stop) :
    IsSubtree (2 ^ k) (start, start + nextWidth start stop (2 ^ k)) ∧
      start + nextWidth start stop (2 ^ k) ≤ stop ∧
      ∀ range, IsSubtree (2 ^ k) range → range.1 = start → range.2 ≤ stop →
        range.2 ≤ start + nextWidth start stop (2 ^ k) := by
  obtain ⟨e, hek, hnext, hdvd, hfit, hmax⟩ := nextWidth_spec k h
  have hpow : 2 ^ e ≤ 2 ^ k := Nat.pow_le_pow_right Nat.two_pos hek
  rw [hnext]
  refine ⟨⟨e, hpow, hdvd, rfl⟩, hfit, ?_⟩
  rintro range ⟨i, hik, hi, hstop⟩ rfl hle
  have hie : i ≤ e :=
    hmax i ((Nat.pow_le_pow_iff_right Nat.one_lt_two).mp hik) hi (hstop ▸ hle)
  rw [hstop]
  exact Nat.add_le_add_left (Nat.pow_le_pow_right Nat.two_pos hie) _

end Subtree

/-! ### Lists of ranges -/

/-- The ranges have the leaves from `start` up to `stop`, one after the other. -/
def Consecutive : List (Nat × Nat) → (start stop : Nat) → Prop
  | [], start, stop => start = stop
  | range :: ranges, start, stop => range.1 = start ∧ Consecutive ranges range.2 stop

/-- The ranges have the leaves from `start` up to `stop` and no others, in any order, and perhaps
more than once. -/
def Covers (ranges : List (Nat × Nat)) (start stop : Nat) : Prop :=
  ∀ leaf, (∃ range ∈ ranges, range.1 ≤ leaf ∧ leaf < range.2) ↔ start ≤ leaf ∧ leaf < stop

section Lists

variable {largest start stop : Nat} {ranges : List (Nat × Nat)}

theorem Consecutive.le (h : Consecutive ranges start stop)
    (hsubtree : ∀ range ∈ ranges, IsSubtree largest range) : start ≤ stop := by
  induction ranges generalizing start with
  | nil => exact le_of_eq h
  | cons range ranges ih =>
    obtain ⟨rfl, hrest⟩ := h
    have hlt := (hsubtree range List.mem_cons_self).lt
    have hle := ih hrest fun other hother => hsubtree other (List.mem_cons_of_mem _ hother)
    omega

/-- Consecutive ranges cover the leaves. -/
theorem Consecutive.covers (h : Consecutive ranges start stop)
    (hsubtree : ∀ range ∈ ranges, IsSubtree largest range) : Covers ranges start stop := by
  intro leaf
  induction ranges generalizing start with
  | nil =>
    obtain rfl : start = stop := h
    constructor
    · rintro ⟨range, hrange, -⟩
      exact absurd hrange List.not_mem_nil
    · rintro ⟨hstart, hstop⟩
      omega
  | cons range ranges ih =>
    obtain ⟨rfl, hrest⟩ := h
    have htail : ∀ other ∈ ranges, IsSubtree largest other :=
      fun other hother => hsubtree other (List.mem_cons_of_mem _ hother)
    have hlt := (hsubtree range List.mem_cons_self).lt
    have hle := hrest.le htail
    rw [List.exists_mem_cons_iff, ih hrest htail]
    omega

end Lists

/-! ### The subtrees that are taken -/

section Cover

variable {k start stop : Nat} {range : Nat × Nat}

theorem consecutive_coverRange (k : Nat) (h : start ≤ stop) :
    Consecutive (coverRange (2 ^ k) start stop) start stop := by
  induction start using coverRange.induct (2 ^ k) stop with
  | case1 start hlt next ih =>
    obtain ⟨-, hfit, -⟩ := isSubtree_nextWidth k hlt.1
    rw [coverRange_cons k hlt.1]
    exact ⟨rfl, ih hfit⟩
  | case2 start hge =>
    have hpos := Nat.two_pow_pos k
    rw [coverRange_of_le (by omega)]
    exact le_antisymm h (by omega)

theorem isSubtree_of_mem_coverRange (h : range ∈ coverRange (2 ^ k) start stop) :
    IsSubtree (2 ^ k) range := by
  induction start using coverRange.induct (2 ^ k) stop with
  | case1 start hlt next ih =>
    rw [coverRange_cons k hlt.1, List.mem_cons] at h
    rcases h with rfl | h
    · exact (isSubtree_nextWidth k hlt.1).1
    · exact ih h
  | case2 start hge =>
    rw [coverRange, dif_neg hge] at h
    exact absurd h List.not_mem_nil

/-- **Every subtree lies within one that is taken.** A subtree that shares a leaf with the first one
taken lies within it: otherwise it would begin at the same leaf and be wider. -/
theorem exists_mem_coverRange (hsubtree : IsSubtree (2 ^ k) range) (hstart : start ≤ range.1)
    (hstop : range.2 ≤ stop) : ∃ taken ∈ coverRange (2 ^ k) start stop, Within range taken := by
  have hpos := hsubtree.lt
  induction start using coverRange.induct (2 ^ k) stop with
  | case1 start hlt next ih =>
    obtain ⟨hfirst, -, hwidest⟩ := isSubtree_nextWidth k hlt.1
    rw [coverRange_cons k hlt.1]
    rcases Nat.lt_or_ge range.1 next with hoverlap | hafter
    · refine ⟨_, List.mem_cons_self, ?_⟩
      rcases hsubtree.nested hfirst hoverlap (by simp only; omega) with hwithin | hwithin
      · exact hwithin
      · have heq : range.1 = start := le_antisymm hwithin.1 hstart
        exact ⟨hstart, hwidest range hsubtree heq hstop⟩
    · obtain ⟨taken, htaken, hwithin⟩ := ih hafter
      exact ⟨taken, List.mem_cons_of_mem _ htaken, hwithin⟩
  | case2 start hge =>
    have := Nat.two_pow_pos k
    omega

theorem pairwise_coverRange (k start stop : Nat) :
    (coverRange (2 ^ k) start stop).Pairwise fun before after => before.2 ≤ after.1 := by
  induction start using coverRange.induct (2 ^ k) stop with
  | case1 start hlt next ih =>
    rw [coverRange_cons k hlt.1, List.pairwise_cons]
    exact ⟨fun after hafter => (mem_coverRange hafter).1, ih⟩
  | case2 start hge =>
    rw [coverRange, dif_neg hge]
    exact .nil

/-- No leaf is covered twice. -/
theorem eq_of_overlap_coverRange {other : Nat × Nat} (h : range ∈ coverRange (2 ^ k) start stop)
    (h' : other ∈ coverRange (2 ^ k) start stop) (hleft : range.1 < other.2)
    (hright : other.1 < range.2) : range = other := by
  have hapart : (coverRange (2 ^ k) start stop).Pairwise fun a b =>
      a.1 < b.2 → b.1 < a.2 → a = b :=
    (pairwise_coverRange k start stop).imp fun hle _ hlt => absurd hle (not_le.mpr hlt)
  have : Std.Symm fun a b : Nat × Nat => a.1 < b.2 → b.1 < a.2 → a = b :=
    ⟨fun a b hab hba hab' => (hab hab' hba).symm⟩
  exact hapart.forall_of_forall (fun _ _ _ _ => rfl) h h' hleft hright

/-- **No subtree that is taken could be wider.** -/
theorem eq_of_within_coverRange {wider : Nat × Nat} (h : range ∈ coverRange (2 ^ k) start stop)
    (hwider : IsSubtree (2 ^ k) wider) (hwithin : Within range wider)
    (hinside : Within wider (start, stop)) : wider = range := by
  obtain ⟨taken, htaken, hcover⟩ := exists_mem_coverRange hwider hinside.1 hinside.2
  have hlt := (isSubtree_of_mem_coverRange h).lt
  -- both have the leaves of the range, so the subtree that is taken for the wider one is the range
  obtain rfl : range = taken := by
    refine eq_of_overlap_coverRange h htaken ?_ ?_
    · exact hlt.trans_le (hwithin.2.trans hcover.2)
    · exact (hcover.1.trans hwithin.1).trans_lt hlt
  exact hcover.antisymm hwithin

theorem nodup_coverRange (k start stop : Nat) : (coverRange (2 ^ k) start stop).Nodup := by
  refine (pairwise_coverRange k start stop).imp_of_mem ?_
  rintro before after hbefore - hle rfl
  exact absurd hle (not_le.mpr (mem_coverRange hbefore).2.1)

/-- In another cover there is a subtree that begins with a subtree that is taken. It lies within
that one, and so does not begin before it. -/
theorem exists_mem_of_covers {others : List (Nat × Nat)}
    (hsubtree : ∀ other ∈ others, IsSubtree (2 ^ k) other) (hcovers : Covers others start stop)
    (h : range ∈ coverRange (2 ^ k) start stop) :
    ∃ other ∈ others, other.1 = range.1 := by
  obtain ⟨hstart, hlt, hstop⟩ := mem_coverRange h
  obtain ⟨other, hother, hle, hgt⟩ := (hcovers range.1).mpr ⟨hstart, hlt.trans_le hstop⟩
  have hpos := (hsubtree other hother).lt
  -- all leaves of the other subtree are among those to be covered
  have hfirst := (hcovers other.1).mp ⟨other, hother, le_rfl, hpos⟩
  have hlast := (hcovers (other.2 - 1)).mp ⟨other, hother, by omega, by omega⟩
  have hinside : other.2 ≤ stop := by omega
  obtain ⟨taken, htaken, hwithin⟩ :=
    exists_mem_coverRange (hsubtree other hother) hfirst.1 hinside
  obtain rfl : range = taken := by
    refine eq_of_overlap_coverRange h htaken ?_ ?_
    · exact hgt.trans_le hwithin.2
    · exact (hwithin.1.trans hle).trans_lt hlt
  exact ⟨other, hother, le_antisymm hle hwithin.1⟩

/-- **No other subtrees that cover the leaves are fewer.** Each subtree that is taken has another
one that begins with it, and no two of them have the same. -/
theorem length_coverRange_le {others : List (Nat × Nat)}
    (hsubtree : ∀ other ∈ others, IsSubtree (2 ^ k) other) (hcovers : Covers others start stop) :
    (coverRange (2 ^ k) start stop).length ≤ others.length := by
  have hexists : ∀ range ∈ coverRange (2 ^ k) start stop, ∃ other ∈ others, other.1 = range.1 :=
    fun range hrange => exists_mem_of_covers hsubtree hcovers hrange
  choose! chosen hmem hstart using hexists
  have hinjective : ∀ a ∈ coverRange (2 ^ k) start stop, ∀ b ∈ coverRange (2 ^ k) start stop,
      chosen a = chosen b → a = b := by
    intro a ha b hb heq
    have hsame : a.1 = b.1 := by rw [← hstart a ha, ← hstart b hb, heq]
    refine eq_of_overlap_coverRange ha hb ?_ ?_
    · exact hsame.trans_lt (mem_coverRange hb).2.1
    · exact hsame.symm.trans_lt (mem_coverRange ha).2.1
  have hnodup : ((coverRange (2 ^ k) start stop).map chosen).Nodup :=
    List.Nodup.map_on hinjective (nodup_coverRange k start stop)
  have hsubset : (coverRange (2 ^ k) start stop).map chosen ⊆ others := by
    intro other hother
    obtain ⟨range, hrange, rfl⟩ := List.mem_map.mp hother
    exact hmem range hrange
  calc (coverRange (2 ^ k) start stop).length
      = ((coverRange (2 ^ k) start stop).map chosen).length := List.length_map _ |>.symm
    _ ≤ others.length := (List.subperm_of_subset hnodup hsubset).length_le

/-- **Consecutive subtrees that can not be wider** are those that are taken. Of two subtrees that
begin at the same leaf one lies within the other, and neither can be the wider one. -/
theorem eq_coverRange {ranges : List (Nat × Nat)} (hconsecutive : Consecutive ranges start stop)
    (hsubtree : ∀ range ∈ ranges, IsSubtree (2 ^ k) range)
    (hmaximal : ∀ range ∈ ranges, ∀ wider, IsSubtree (2 ^ k) wider → Within range wider →
      Within wider (start, stop) → wider = range) :
    ranges = coverRange (2 ^ k) start stop := by
  induction ranges generalizing start with
  | nil => exact (coverRange_of_le (le_of_eq hconsecutive.symm)).symm
  | cons range ranges ih =>
    obtain ⟨rfl, hrest⟩ := hconsecutive
    have hfirst := hsubtree range List.mem_cons_self
    have htail : ∀ other ∈ ranges, IsSubtree (2 ^ k) other :=
      fun other hother => hsubtree other (List.mem_cons_of_mem _ hother)
    have hlt := hfirst.lt
    have hle := hrest.le htail
    obtain ⟨htaken, hfit, hwidest⟩ := isSubtree_nextWidth k (hlt.trans_le hle)
    have heq : (range.1, range.1 + nextWidth range.1 stop (2 ^ k)) = range :=
      hmaximal range List.mem_cons_self _ htaken ⟨le_rfl, hwidest range hfirst rfl hle⟩
        ⟨le_rfl, hfit⟩
    have hnext : range.1 + nextWidth range.1 stop (2 ^ k) = range.2 := congrArg Prod.snd heq
    rw [coverRange_cons k (hlt.trans_le hle), heq, hnext, ← ih hrest htail]
    intro other hother wider hwider hwithin hinside
    exact hmaximal other (List.mem_cons_of_mem _ hother) wider hwider hwithin
      ⟨hlt.le.trans hinside.1, hinside.2⟩

end Cover

/-! ### The canonical list -/

/-- **The canonical way** to cover the leaves from `start` up to `stop` by subtrees that are not
wider than `largest`. -/
structure IsCanonicalCover (largest start stop : Nat) (ranges : List (Nat × Nat)) : Prop where
  /-- The ranges have all leaves, one after the other. -/
  consecutive : Consecutive ranges start stop
  /-- The ranges are subtrees that are not too wide. -/
  isSubtree : ∀ range ∈ ranges, IsSubtree largest range
  /-- The ranges cover the leaves, just as those do that they are compared with. -/
  covers : Covers ranges start stop
  /-- No range can be replaced by a wider subtree, of twice its width or more, without going beyond
  the leaves or the largest width. -/
  maximal : ∀ range ∈ ranges, ∀ wider, IsSubtree largest wider → Within range wider →
    Within wider (start, stop) → wider = range
  /-- No other subtrees that cover the leaves are fewer, in whatever order they are. -/
  length_le : ∀ others, (∀ other ∈ others, IsSubtree largest other) → Covers others start stop →
    ranges.length ≤ others.length

theorem isCanonicalCover_coverRange (k : Nat) {start stop : Nat} (h : start ≤ stop) :
    IsCanonicalCover (2 ^ k) start stop (coverRange (2 ^ k) start stop) where
  consecutive := consecutive_coverRange k h
  isSubtree _ := isSubtree_of_mem_coverRange
  covers := (consecutive_coverRange k h).covers fun _ => isSubtree_of_mem_coverRange
  maximal _ hrange _ := eq_of_within_coverRange hrange
  length_le _ := length_coverRange_le

theorem leafRanges_eq_error_iff {start stop largest : Nat} :
    (∃ fault, leafRanges start stop largest = .error fault) ↔
      stop ≤ start ∨ ¬isPowerOfTwo largest = true := by
  cases h : leafRanges start stop largest with
  | ok ranges =>
    obtain ⟨hlt, hpow, -⟩ := leafRanges_eq_ok_iff.mp h
    simp [hlt, hpow]
  | error fault =>
    refine iff_of_true ⟨fault, rfl⟩ ?_
    by_contra hnot
    rw [not_or, not_not, not_le] at hnot
    have hok := leafRanges_eq_ok_iff.mpr ⟨hnot.1, hnot.2, rfl⟩
    exact absurd (h.symm.trans hok) (by simp)

/-- **The leaf ranges are the canonical ones.** Finding them comes to its end on a machine, and
nothing overflows on the way. It fails exactly when there are no leaves or the width is not a power
of two, and otherwise gives the one list of ranges that is canonical. -/
theorem leafRanges_canonical (start stop largest : UInt64) :
    Guarded.leafRanges start.toNat stop.toNat largest.toNat =
        ((leafRanges start.toNat stop.toNat largest.toNat).mapError .refuted).mapError .refused ∧
      ((∃ fault, leafRanges start.toNat stop.toNat largest.toNat = .error fault) ↔
        stop ≤ start ∨ ¬∃ k, largest.toNat = 2 ^ k) ∧
      ∀ ranges, leafRanges start.toNat stop.toNat largest.toNat = .ok ranges ↔
        start < stop ∧ (∃ k, largest.toNat = 2 ^ k) ∧
          IsCanonicalCover largest.toNat start.toNat stop.toNat ranges := by
  refine ⟨(Guarded.agrees_leafRanges _ _ stop.toNat_lt).run_eq, ?_, ?_⟩
  · rw [leafRanges_eq_error_iff, isPowerOfTwo_iff, UInt64.le_iff_toNat_le]
  · intro ranges
    rw [leafRanges_eq_ok_iff, isPowerOfTwo_iff, UInt64.lt_iff_toNat_lt]
    refine and_congr_right fun hlt => and_congr_right fun hpow => ?_
    obtain ⟨k, hk⟩ := hpow
    rw [hk]
    constructor
    · rintro rfl
      exact isCanonicalCover_coverRange k hlt.le
    · intro h
      exact (eq_coverRange h.consecutive h.isSubtree h.maximal).symm

/-- Nine leaves from the third one on, in subtrees of four: neither end is aligned to more than two,
and the last leaf has no other beside it. -/
example : leafRanges 2 11 4 = .ok [(2, 4), (4, 8), (8, 10), (10, 11)] := by decide +kernel

end Availability
