import Availability.Text.Bits
import Mathlib.Data.List.Basic
import Mathlib.Data.List.Induction
import Mathlib.Data.Nat.Bitwise
import Mathlib.Tactic.Common

/-!
# Bits are cut anew

Bytes and digits of some other number of bits are two ways to cut one row of bits. Which digits some
bytes have, and which bytes some digits have, is therefore a question of one row of bits being equal
to another one. The last group of a row is the only one that may be cut short.

* `Bits.toNat_ofNat`, `Bits.ofNat_toNat` – a number of a group and the bits of it;
* `Bits.regroup_eq_iff` – the groups of a row of bits are those that **make it up**, but for less
  than one more group;
* `Bits.digits_eq_iff`, `Bits.bytes_eq_iff` – which digits and which bytes there are.
-/

namespace Availability.Bits

/-! ### Numbers and their bits -/

@[simp] theorem length_ofNat (width n : Nat) : (ofNat width n).length = width := by
  rw [ofNat, List.length_map, List.length_range]

theorem ofNat_succ (width n : Nat) :
    ofNat (width + 1) n = ofNat width (n / 2) ++ [n.testBit 0] := by
  rw [ofNat, List.range_succ, List.map_append, List.map_singleton, Nat.add_sub_cancel, Nat.sub_self,
    ofNat]
  congr 1
  refine List.map_congr_left fun i hi => ?_
  rw [← Nat.testBit_succ]
  congr 1
  have := List.mem_range.mp hi
  omega

theorem toNat_append_singleton (bs : List Bool) (b : Bool) :
    toNat (bs ++ [b]) = 2 * toNat bs + b.toNat :=
  List.foldl_concat ..

/-- **The number of the bits of a number** is the number, as far as the bits go. -/
theorem toNat_ofNat (width n : Nat) : toNat (ofNat width n) = n % 2 ^ width := by
  induction width generalizing n with
  | zero => exact (Nat.mod_one n).symm
  | succ width ih =>
    have hlast : (n.testBit 0).toNat = n % 2 := by
      rw [Nat.testBit_zero]
      rcases Nat.mod_two_eq_zero_or_one n with h | h <;> simp [h]
    rw [ofNat_succ, toNat_append_singleton, ih, hlast, Nat.pow_succ', Nat.mod_mul, Nat.add_comm]

/-- **Bits are those of their number.** -/
theorem ofNat_toNat (bs : List Bool) : ofNat bs.length (toNat bs) = bs := by
  induction bs using List.reverseRecOn with
  | nil => rfl
  | append_singleton bs b ih =>
    have hhalf : (2 * toNat bs + b.toNat) / 2 = toNat bs := by
      cases b <;> simp [Nat.add_div]
    have hlast : (2 * toNat bs + b.toNat).testBit 0 = b := by
      cases b <;> simp [Nat.testBit_zero]
    rw [List.length_append, List.length_singleton, toNat_append_singleton, ofNat_succ, hhalf, ih,
      hlast]

theorem toNat_lt (bs : List Bool) : toNat bs < 2 ^ bs.length := by
  have hmod : toNat bs % 2 ^ bs.length = toNat bs := by
    rw [← toNat_ofNat, ofNat_toNat]
  exact hmod ▸ Nat.mod_lt _ (Nat.two_pow_pos _)

/-! ### Groups -/

section Groups

variable {width : Nat}

theorem length_flatMap_ofNat (groups : List Nat) :
    (groups.flatMap (ofNat width)).length = width * groups.length := by
  induction groups with
  | nil => rfl
  | cons group groups ih =>
    rw [List.flatMap_cons, List.length_append, length_ofNat, ih, List.length_cons, Nat.mul_succ,
      Nat.add_comm]

/-- The groups of a row of bits make it up, and what is left over is no whole group. -/
theorem of_regroup_eq (hwidth : 0 < width) {bs rest : List Bool} {groups : List Nat}
    (h : regroup width bs = (groups, rest)) :
    groups.flatMap (ofNat width) ++ rest = bs ∧ (∀ group ∈ groups, group < 2 ^ width) ∧
      rest.length < width := by
  induction bs using regroup.induct width generalizing groups with
  | case1 bs hshort =>
    rw [regroup, dif_pos hshort] at h
    obtain ⟨rfl, rfl⟩ := Prod.mk.inj h
    exact ⟨rfl, fun _ hgroup => absurd hgroup List.not_mem_nil, hshort.resolve_left hwidth.ne'⟩
  | case2 bs hlong others left hothers ih =>
    rw [regroup, dif_neg hlong, hothers] at h
    obtain ⟨rfl, rfl⟩ := Prod.mk.inj h
    obtain ⟨hbits, hlt, hrest⟩ := ih hothers
    have hlength : (bs.take width).length = width := by
      rw [List.length_take]
      omega
    have hgroup := ofNat_toNat (bs.take width)
    have hfirst := toNat_lt (bs.take width)
    rw [hlength] at hgroup hfirst
    refine ⟨?_, List.forall_mem_cons.mpr ⟨hfirst, hlt⟩, hrest⟩
    rw [List.flatMap_cons, hgroup, List.append_assoc, hbits, List.take_append_drop]

/-- **A row of bits is cut** into the groups that make it up, but for less than a group. -/
theorem regroup_eq_iff (hwidth : 0 < width) {bs rest : List Bool} {groups : List Nat} :
    regroup width bs = (groups, rest) ↔ groups.flatMap (ofNat width) ++ rest = bs ∧
      (∀ group ∈ groups, group < 2 ^ width) ∧ rest.length < width := by
  refine ⟨of_regroup_eq hwidth, ?_⟩
  rintro ⟨rfl, hlt, hrest⟩
  induction groups with
  | nil => rw [List.flatMap_nil, List.nil_append, regroup, dif_pos (.inr hrest)]
  | cons group groups ih =>
    rw [List.forall_mem_cons] at hlt
    have hlong : ¬(width = 0 ∨ (ofNat width group ++
        (groups.flatMap (ofNat width) ++ rest)).length < width) := by
      rw [List.length_append, length_ofNat]
      omega
    rw [List.flatMap_cons, List.append_assoc, regroup, dif_neg hlong,
      List.drop_left' (length_ofNat ..), List.take_left' (length_ofNat ..), ih hlt.2, toNat_ofNat,
      Nat.mod_eq_of_lt hlt.1]

/-- Groups are told apart by their bits. -/
theorem flatMap_ofNat_inj (hwidth : 0 < width) {xs ys : List Nat} (hxs : ∀ x ∈ xs, x < 2 ^ width)
    (hys : ∀ y ∈ ys, y < 2 ^ width) (h : xs.flatMap (ofNat width) = ys.flatMap (ofNat width)) :
    xs = ys := by
  have hx := (regroup_eq_iff hwidth).mpr ⟨List.append_nil _, hxs, hwidth⟩
  have hy := (regroup_eq_iff hwidth).mpr ⟨List.append_nil _, hys, hwidth⟩
  rw [h, hy] at hx
  exact (congrArg Prod.fst hx).symm

end Groups

/-! ### Bytes and digits -/

/-- The bits of some bytes. -/
def ofBytes (bs : Bytes) : List Bool :=
  (bs.map UInt8.toNat).flatMap (ofNat 8)

theorem flatMap_toNat (bs : Bytes) : (bs.flatMap fun b => ofNat 8 b.toNat) = ofBytes bs :=
  (List.flatMap_map ..).symm

@[simp] theorem length_ofBytes (bs : Bytes) : (ofBytes bs).length = 8 * bs.length := by
  rw [ofBytes, length_flatMap_ofNat, List.length_map]

/-- **The digits of some bytes** are those that have the bits of the bytes, if there are just
enough of these. -/
theorem digits_eq_iff {width : Nat} (hwidth : 0 < width) {bs : Bytes}
    (hwhole : width ∣ 8 * bs.length) {ds : List Nat} :
    digits width bs = ds ↔ ds.flatMap (ofNat width) = ofBytes bs ∧ ∀ d ∈ ds, d < 2 ^ width := by
  obtain ⟨⟨groups, rest⟩, hcut⟩ : ∃ cut, regroup width (ofBytes bs) = cut := ⟨_, rfl⟩
  obtain ⟨hbits, hlt, hrest⟩ := of_regroup_eq hwidth hcut
  obtain rfl : rest = [] := by
    have hlength := congrArg List.length hbits
    rw [List.length_append, length_flatMap_ofNat, length_ofBytes] at hlength
    have hdvd : width ∣ rest.length := (Nat.dvd_add_right ⟨_, rfl⟩).mp (hlength ▸ hwhole)
    exact List.length_eq_zero_iff.mp (Nat.eq_zero_of_dvd_of_lt hdvd hrest)
  have hdigits : digits width bs = groups := by
    rw [digits, flatMap_toNat, hcut]
    rfl
  rw [hdigits]
  rw [List.append_nil] at hbits
  constructor
  · rintro rfl
    exact ⟨hbits, hlt⟩
  · rintro ⟨hds, hdlt⟩
    exact flatMap_ofNat_inj hwidth hlt hdlt (hbits.trans hds.symm)

theorem map_toNat_map_ofNat {groups : List Nat} (h : ∀ group ∈ groups, group < 2 ^ 8) :
    (groups.map UInt8.ofNat).map UInt8.toNat = groups := by
  rw [List.map_map]
  exact (List.map_congr_left fun group hgroup => Nat.mod_eq_of_lt (h group hgroup)).trans
    (List.map_id groups)

/-- **The bytes of some digits** are those that have the bits of the digits, but for less than a
byte. -/
theorem bytes_eq_iff {width : Nat} {ds : List Nat} {bs : Bytes} {rest : List Bool} :
    bytes width ds = (bs, rest) ↔
      ds.flatMap (ofNat width) = ofBytes bs ++ rest ∧ rest.length < 8 := by
  obtain ⟨⟨groups, left⟩, hcut⟩ : ∃ cut, regroup 8 (ds.flatMap (ofNat width)) = cut := ⟨_, rfl⟩
  have hbytes : bytes width ds = (groups.map UInt8.ofNat, left) := by
    rw [bytes, hcut]
  rw [hbytes, Prod.mk.injEq]
  constructor
  · rintro ⟨rfl, rfl⟩
    obtain ⟨hbits, hlt, hleft⟩ := of_regroup_eq (by decide) hcut
    rw [ofBytes, map_toNat_map_ofNat hlt]
    exact ⟨hbits.symm, hleft⟩
  · rintro ⟨hbits, hrest⟩
    have hlt : ∀ group ∈ bs.map UInt8.toNat, group < 2 ^ 8 := by
      intro group hgroup
      obtain ⟨b, -, rfl⟩ := List.mem_map.mp hgroup
      exact b.toNat_lt
    rw [(regroup_eq_iff (by decide)).mpr ⟨hbits.symm, hlt, hrest⟩] at hcut
    obtain ⟨rfl, rfl⟩ := Prod.mk.inj hcut
    refine ⟨?_, rfl⟩
    rw [List.map_map]
    exact (List.map_congr_left fun b _ => UInt8.ofNat_toNat).trans (List.map_id bs)

end Availability.Bits
