import Availability.Proofs.Merkle.Place
import Availability.Proofs.Nmt.SubtreeProof

/-!
# Where subtree roots are in a row

Subtree roots that verify are somewhere in the row, side by side. How wide the subtrees under them
are is not known from this: the tree of the row is not known to whoever checks them, and only the
shape that is planned for the range says where they would be. The plan is as good as the nodes that
come with it. When there are as many of them as the row has beside the range, all of the plan has
the shape of the row.

* `NamespaceProof.Fits` – **as many nodes as there are beside the range**, in a row that has room
  for the range;
* `PutsInPlace` – what one subtree of the plan does then: it uses up its own subtree roots and
  nodes, and puts the subtree roots at the places of their ranges;
* `putsInPlace` – and every aligned one does this, by induction on its height;
* `exists_spine` – what the row has to the right of the plan is given by the nodes that are left;
* `eq_rootsAt_of_verify` – so subtree roots that verify are **those of the leaves of the range**.

The row may have any number of leaves. The same two shapes are compared as in
`Availability.Proofs.Nmt.SubtreeProof`, but all that is known of the nodes here is their number.
-/

namespace Availability

/-- A range proof fits a row of some number of leaves: the row has room for the range, and as many
nodes beside it as the proof has. -/
def NamespaceProof.Fits (proof : NamespaceProof) (width : Nat) : Prop :=
  proof.stop.toNat ≤ width ∧
    proof.nodes.length = Merkle.besideCount proof.start.toNat proof.stop.toNat 0 width

/-- **The proof of a range fits its tree.** -/
theorem Nmt.fits_proveRange {tree : Nmt} {start stop : Nat} (hlt : start < stop)
    (hstop : stop ≤ tree.leaves.length) (hsize : stop < UInt32.size) :
    (tree.proveRange start stop).Fits tree.leaves.length := by
  have hstart : (UInt32.ofNat start).toNat = start := UInt32.toNat_ofNat_of_lt' (by omega)
  have hstop' : (UInt32.ofNat stop).toNat = stop := UInt32.toNat_ofNat_of_lt' hsize
  rw [NamespaceProof.Fits, proveRange, NamespaceProof.ofRange, hstart, hstop']
  refine ⟨hstop, ?_⟩
  rw [rangeNodes, Merkle.length_siblings, leafHashes, List.length_map]

namespace SubtreeRoots

open Merkle (splitPoint splitPoint_eq besideCount besideCount_of_outside besideCount_of_inside
  besideCount_of_two_le Opening)
open Nmt (Leaf rootOver slice)

/-- A list is cut in two by the lengths of its parts. -/
theorem exists_append_of_length_eq_add {α : Type} {xs : List α} {a b : Nat}
    (h : xs.length = a + b) :
    ∃ left right, xs = left ++ right ∧ left.length = a ∧ right.length = b := by
  refine ⟨xs.take a, xs.drop a, (List.take_append_drop a xs).symm, ?_, ?_⟩
  · rw [List.length_take]
    omega
  · rw [List.length_drop]
    omega

/-! ### One subtree of the plan -/

/-- **A subtree of the plan puts the subtree roots in their places**: it uses up the ranges that
begin in it, as many subtree roots, and as many nodes as there are beside the range. It is known
that nothing is left when leaves are missing at its right end. -/
def PutsInPlace (width w start stop k offset : Nat) : Prop :=
  ∃ here, rangesFrom w start stop offset = here ++ rangesFrom w start stop (offset + 2 ^ k) ∧
    ∀ roots nodes roots' nodes' : List NamespacedHash, roots.length = here.length →
      nodes.length = besideCount start stop offset (min (2 ^ k) (width - offset)) →
      (width < offset + 2 ^ k → nodes' = []) →
      ∃ o, plan start stop (2 ^ k) offset
            ⟨rangesFrom w start stop offset, roots ++ roots', nodes ++ nodes'⟩ =
          (some o, ⟨rangesFrom w start stop (offset + 2 ^ k), roots', nodes'⟩) ∧
        ∀ place ∈ roots.zip here, (place.1, place.2.1, place.2.2 - place.2.1) ∈
          o.places offset (min (2 ^ k) (width - offset))

section Places

variable {width w start stop k offset : Nat} (hstop : stop ≤ width)
include hstop

omit hstop in
/-- Outside of the range, the plan takes the next node. -/
theorem putsInPlace_of_outside
    (h : offset + 2 ^ k ≤ start ∨ stop ≤ offset) : PutsInPlace width w start stop k offset := by
  refine ⟨[], (rangesFrom_eq_of_outside h).symm,
    fun roots nodes roots' nodes' hroots hnodes _ => ?_⟩
  obtain rfl := List.length_eq_zero_iff.mp hroots
  rw [besideCount_of_outside (by omega)] at hnodes
  obtain ⟨node, rfl⟩ := List.length_eq_one_iff.mp hnodes
  refine ⟨.given node, ?_, by simp⟩
  rw [plan, if_pos h, rangesFrom_eq_of_outside h]
  rfl

/-- At the place of the next subtree of the range, the plan takes its root. -/
theorem putsInPlace_of_range (hstart : start ≤ offset)
    (hnext : nextWidth offset stop (2 ^ w) = 2 ^ k) (hfit : offset + 2 ^ k ≤ stop) :
    PutsInPlace width w start stop k offset := by
  have hpos := Nat.two_pow_pos k
  have hranges : rangesFrom w start stop offset =
      (offset, offset + 2 ^ k) :: rangesFrom w start stop (offset + 2 ^ k) := by
    rw [rangesFrom, rangesFrom, max_eq_left hstart, max_eq_left (by omega),
      coverRange_cons w (by omega), hnext]
  refine ⟨[(offset, offset + 2 ^ k)], hranges, fun roots nodes roots' nodes' hroots hnodes _ => ?_⟩
  obtain ⟨root, rfl⟩ := List.length_eq_one_iff.mp hroots
  rw [besideCount_of_inside (by omega) hstart (by omega)] at hnodes
  obtain rfl := List.length_eq_zero_iff.mp hnodes
  refine ⟨.given root, ?_, ?_⟩
  · rw [plan, if_neg (by omega), if_pos (by rw [hranges]; rfl), hranges]
    rfl
  · simp only [List.zip_cons_cons, List.zip_nil_right, List.mem_singleton, forall_eq,
      Opening.places, Nat.add_sub_cancel_left]
    rw [min_eq_left (by omega)]

section Halves

variable (hin : ¬(offset + 2 ^ (k + 1) ≤ start ∨ stop ≤ offset))
  (hhead : (rangesFrom w start stop offset).head? ≠ some (offset, offset + 2 ^ (k + 1)))
include hin hhead

omit hstop in
/-- The plan for two halves, one after the other. -/
theorem plan_halves (roots nodes : List NamespacedHash) :
    plan start stop (2 ^ (k + 1)) offset ⟨rangesFrom w start stop offset, roots, nodes⟩ =
      planSides (plan start stop (2 ^ k) offset ⟨rangesFrom w start stop offset, roots, nodes⟩)
        (plan start stop (2 ^ k) (offset + 2 ^ k)) := by
  have hpos := Nat.two_pow_pos k
  have hsplit := Merkle.splitPoint_two_pow k
  rw [plan, if_neg hin, if_neg hhead, dif_pos (by omega), hsplit,
    show 2 ^ (k + 1) - 2 ^ k = 2 ^ k by omega]

/-- With leaves in both halves, each of them puts its own subtree roots in their places. -/
theorem putsInPlace_of_halves (hlt : start < stop) (hboth : offset + 2 ^ k < width)
    (hleft : PutsInPlace width w start stop k offset)
    (hright : PutsInPlace width w start stop k (offset + 2 ^ k)) :
    PutsInPlace width w start stop (k + 1) offset := by
  have hpos := Nat.two_pow_pos k
  have hpow := Nat.two_pow_succ k
  obtain ⟨hereL, hrangesL, hplanL⟩ := hleft
  obtain ⟨hereR, hrangesR, hplanR⟩ := hright
  rw [Nat.add_assoc, ← hpow] at hrangesR hplanR
  -- the row is split at the same place as the plan
  have hsplit : splitPoint (min (2 ^ (k + 1)) (width - offset)) = 2 ^ k :=
    splitPoint_eq (by omega) (by omega)
  have hsizeL : min (2 ^ k) (width - offset) = 2 ^ k := by omega
  have hsizeR : min (2 ^ k) (width - (offset + 2 ^ k)) =
      min (2 ^ (k + 1)) (width - offset) - 2 ^ k := by omega
  rw [hsizeL] at hplanL
  rw [hsizeR] at hplanR
  refine ⟨hereL ++ hereR, by rw [hrangesL, hrangesR, List.append_assoc],
    fun roots nodes roots' nodes' hroots hnodes hrest => ?_⟩
  rw [List.length_append] at hroots
  rw [besideCount_of_two_le (by omega) (by omega), hsplit] at hnodes
  obtain ⟨rootsL, rootsR, rfl, hrootsL, hrootsR⟩ := exists_append_of_length_eq_add hroots
  obtain ⟨nodesL, nodesR, rfl, hnodesL, hnodesR⟩ := exists_append_of_length_eq_add hnodes
  obtain ⟨left, hleft, hplacesL⟩ := hplanL rootsL nodesL (rootsR ++ roots') (nodesR ++ nodes')
    hrootsL hnodesL fun h => by omega
  obtain ⟨right, hright, hplacesR⟩ := hplanR rootsR nodesR roots' nodes' hrootsR hnodesR hrest
  refine ⟨.join left right, ?_, fun place hplace => ?_⟩
  · rw [plan_halves hin hhead, List.append_assoc, List.append_assoc, hleft, planSides, hright]
    rfl
  · rw [Opening.places, hsplit, List.mem_append]
    rw [List.zip_append hrootsL, List.mem_append] at hplace
    exact hplace.imp (hplacesL place) (hplacesR place)

/-- Without leaves in the right half, the left one is all there is. -/
theorem putsInPlace_of_left (hshort : width ≤ offset + 2 ^ k)
    (hleft : PutsInPlace width w start stop k offset) :
    PutsInPlace width w start stop (k + 1) offset := by
  have hpos := Nat.two_pow_pos k
  have hpow := Nat.two_pow_succ k
  have hsize : min (2 ^ (k + 1)) (width - offset) = min (2 ^ k) (width - offset) := by omega
  have hout : offset + 2 ^ k + 2 ^ k ≤ start ∨ stop ≤ offset + 2 ^ k := Or.inr (by omega)
  have hranges := rangesFrom_eq_of_outside (w := w) hout
  obtain ⟨here, hhere, hplan⟩ := hleft
  rw [PutsInPlace, hpow, ← Nat.add_assoc, hranges, ← hpow, hsize]
  refine ⟨here, hhere, fun roots nodes roots' nodes' hroots hnodes hrest => ?_⟩
  obtain rfl := hrest (by omega)
  obtain ⟨left, hleft, hplaces⟩ := hplan roots nodes roots' [] hroots hnodes fun _ => rfl
  refine ⟨left, ?_, hplaces⟩
  -- no node is left for the right half, so it gives nothing
  rw [plan_halves hin hhead, hleft, planSides, plan, if_pos hout]
  rfl

end Halves

end Places

/-- **Every subtree that is reached puts the subtree roots in their places.** -/
theorem putsInPlace {width w start stop : Nat} (hstop : stop ≤ width) (hlt : start < stop)
    {k offset : Nat} (h : Reached width w start stop k offset) :
    PutsInPlace width w start stop k offset :=
  h.induct (PutsInPlace width w start stop) hlt putsInPlace_of_outside
    (fun hstart hnext hfit => putsInPlace_of_range hstop hstart hnext hfit)
    (fun hin hhead hboth => putsInPlace_of_halves hstop hin hhead hlt hboth)
    fun hin hhead hshort => putsInPlace_of_left hstop hin hhead hshort

/-! ### The whole row -/

/-- **What the row has beyond the plan** has one node for each subtree to the right. With all of
them, the plan is in its place in the row. -/
theorem exists_spine {start stop : Nat} (hlt : start < stop) {k width : Nat} (hk : stop ≤ 2 ^ k)
    (hstop : stop ≤ width) :
    ∃ count, besideCount start stop 0 width =
        besideCount start stop 0 (min (2 ^ k) width) + count ∧
      (width < 2 ^ k → count = 0) ∧
      ∀ (o : Opening NamespacedHash) (rest : List NamespacedHash), rest.length = count →
        o.places 0 (min (2 ^ k) width) ⊆ (appendNodes o rest).places 0 width := by
  induction width using Nat.strong_induction_on with
  | _ width ih =>
    rcases Nat.lt_or_ge (2 ^ k) width with hlong | hshort
    · -- the plan is within the left side, and the right side is one more node
      have hpos := Nat.two_pow_pos k
      have htwo : 2 ≤ width := by omega
      obtain ⟨j, hlow, hhigh⟩ := Merkle.exists_lt_le_two_pow htwo
      have hsplit := splitPoint_eq hlow hhigh
      have hkj : 2 ^ k ≤ 2 ^ j := by
        have : k < j + 1 := (Nat.pow_lt_pow_iff_right (by norm_num)).mp (hlong.trans_le hhigh)
        exact Nat.pow_le_pow_right (by norm_num) (by omega)
      obtain ⟨count, hcount, -, hplaces⟩ := ih (2 ^ j) hlow (by omega)
      rw [min_eq_left hkj] at hcount hplaces
      rw [min_eq_left hlong.le]
      refine ⟨count + 1, ?_, fun h => by omega, fun o rest hrest => ?_⟩
      · have hright : besideCount start stop (0 + 2 ^ j) (width - 2 ^ j) = 1 :=
          besideCount_of_outside (Or.inl (by omega))
        rw [besideCount_of_two_le (by omega) htwo, hsplit, hcount, hright, Nat.add_assoc]
      · obtain ⟨rest, last, rfl, hlength, hlast⟩ := exists_append_of_length_eq_add hrest
        obtain ⟨node, rfl⟩ := List.length_eq_one_iff.mp hlast
        rw [appendNodes_concat, Opening.places, hsplit]
        exact List.subset_append_of_subset_left _ (hplaces o rest hlength)
    · refine ⟨0, by rw [min_eq_right hshort, Nat.add_zero], fun _ => rfl, fun o rest hrest => ?_⟩
      obtain rfl := List.length_eq_zero_iff.mp hrest
      rw [min_eq_right hshort]
      exact List.Subset.refl _

/-- **A range proof that fits a row puts the subtree roots in their places**: there is something to
compute, and each subtree root is where the range that it is checked for would be in the row. -/
theorem mem_places_of_fits {proof : NamespaceProof} {roots : List NamespacedHash} {w width : Nat}
    (hlt : proof.start.toNat < proof.stop.toNat) (hfits : proof.Fits width)
    (hroots : roots.length = (coverRange (2 ^ w) proof.start.toNat proof.stop.toNat).length) :
    ∃ o, opening proof roots (2 ^ w) = some o ∧
      ∀ place ∈ roots.zip (coverRange (2 ^ w) proof.start.toNat proof.stop.toNat),
        (place.1, place.2.1, place.2.2 - place.2.1) ∈ o.places 0 width := by
  obtain ⟨hstop, hnodes⟩ := hfits
  obtain ⟨k, hplan, hk⟩ := exists_planSize_eq proof.stop.toNat
  obtain ⟨count, hcount, hrest, hspine⟩ := exists_spine hlt hk hstop
  obtain ⟨here, hhere, hputs⟩ :=
    putsInPlace (w := w) hstop hlt (.root hlt hstop hk)
  have hranges : rangesFrom w proof.start.toNat proof.stop.toNat 0 =
      coverRange (2 ^ w) proof.start.toNat proof.stop.toNat := by
    rw [rangesFrom, Nat.zero_max]
  -- the plan has room for the range, so no subtree of the range begins behind it
  have hbehind : rangesFrom w proof.start.toNat proof.stop.toNat (0 + 2 ^ k) = [] :=
    coverRange_of_le (by omega)
  rw [hranges, hbehind, List.append_nil] at hhere
  subst hhere
  rw [hcount] at hnodes
  obtain ⟨nodes, rest, hnodesEq, hnodesLen, hrestLen⟩ := exists_append_of_length_eq_add hnodes
  obtain ⟨o, ho, hplaces⟩ := hputs roots nodes [] rest hroots (by rwa [Nat.sub_zero]) fun h =>
    List.length_eq_zero_iff.mp (hrestLen.trans (hrest (by omega)))
  rw [hranges, List.append_nil, ← hnodesEq, hbehind] at ho
  refine ⟨appendNodes o rest, ?_, fun place hplace => ?_⟩
  · rw [opening, hplan, ho]
    rfl
  · exact hspine o rest hrestLen (by simpa using hplaces place hplace)

section Row

variable {all : List Bytes} (free : ¬Collides all) {proof : NamespaceProof}
  {roots : List NamespacedHash} {w : Nat} {ns : Namespace} {leaves : List Leaf}
  (hproof : texts proof roots (2 ^ w) ⊆ all) (hleaves : Nmt.texts leaves ⊆ all)
  (hfits : proof.Fits leaves.length) (h : verify proof roots (2 ^ w) ns (rootOver leaves) = .ok ())
include free hproof hleaves hfits h

/-- **Subtree roots that verify are those of the leaves of the range**, unless two of the hashed
strings collide, when the range proof fits the row. -/
theorem eq_rootsAt_of_verify :
    roots = rootsAt leaves (coverRange (2 ^ w) proof.start.toNat proof.stop.toNat) ∧
      ∀ range ∈ coverRange (2 ^ w) proof.start.toNat proof.stop.toNat,
        Nmt.texts (slice leaves range.1 (range.2 - range.1)) ⊆ all := by
  obtain ⟨-, -, -, -, ranges, hranges, hcount, -⟩ := verify_eq_ok_iff.mp h
  obtain ⟨hlt, -, hcover⟩ := leafRanges_eq_ok_iff.mp hranges
  rw [← hcover] at hcount
  obtain ⟨o, ho, hplaces⟩ := mem_places_of_fits hlt hfits hcount.symm
  obtain ⟨o', ho', hvalue, -⟩ := exists_opening_of_verify h
  obtain rfl : o = o' := Option.some.inj (ho.symm.trans ho')
  rw [texts, ho, Option.map_some, Option.getD_some] at hproof
  rw [Nmt.rootOver_eq] at hvalue
  rw [hcover] at hplaces hcount ⊢
  -- what the opening took on faith at these places is what the row has there
  have hplace (i : Nat) (hi : i < roots.length) (hi' : i < ranges.length) :
      roots[i] = rootOver (slice leaves ranges[i].1 (ranges[i].2 - ranges[i].1)) ∧
        Nmt.texts (slice leaves ranges[i].1 (ranges[i].2 - ranges[i].1)) ⊆ all := by
    have hzip : (roots[i], ranges[i]) ∈ roots.zip ranges :=
      List.mem_of_getElem? (List.getElem?_zip_eq_some.mpr
        ⟨List.getElem?_eq_getElem hi, List.getElem?_eq_getElem hi'⟩)
    obtain ⟨-, -, hroot, hsub⟩ := (Nmt.hashing true).root_of_mem_places
      (Nmt.hashing proof.ignoreMax) rfl rfl free hproof hleaves hvalue (hplaces _ hzip)
    rw [Nmt.rootOver_eq]
    exact ⟨hroot, hsub⟩
  refine ⟨List.ext_getElem (by rw [rootsAt, List.length_map, hcount]) fun i hi hi' => ?_,
    fun range hrange => ?_⟩
  · simp only [rootsAt, List.getElem_map]
    exact (hplace i hi (hcount ▸ hi)).1
  · obtain ⟨i, hi, rfl⟩ := List.getElem_of_mem hrange
    exact (hplace i (hcount ▸ hi) hi).2

/-- **Lists whose roots verify are the leaves of the range**, cut along its subtrees. -/
theorem eq_slices_of_verify {xss : List (List Leaf)} (hroots : roots = xss.map rootOver)
    (hxss : xss.flatMap Nmt.texts ⊆ all) :
    xss = (coverRange (2 ^ w) proof.start.toNat proof.stop.toNat).map
      fun range => slice leaves range.1 (range.2 - range.1) := by
  obtain ⟨heq, htexts⟩ := eq_rootsAt_of_verify free hproof hleaves hfits h
  refine Nmt.eq_of_map_rootOver_eq free hxss ?_ ?_
  · rw [List.flatMap_map]
    intro text htext
    obtain ⟨range, hrange, htext⟩ := List.mem_flatMap.mp htext
    exact htexts range hrange htext
  · rw [← hroots, heq, List.map_map]
    rfl

/-- **The leaves under subtree roots that verify are as many as the range claims.** -/
theorem sum_length_of_verify {xss : List (List Leaf)} (hroots : roots = xss.map rootOver)
    (hxss : xss.flatMap Nmt.texts ⊆ all) : (xss.map List.length).sum = proof.leafCount := by
  have hslices := eq_slices_of_verify free hproof hleaves hfits h hroots hxss
  have hwidths : xss.map List.length = (coverRange (2 ^ w) proof.start.toNat proof.stop.toNat).map
      fun range => range.2 - range.1 := by
    rw [hslices, List.map_map]
    refine List.map_congr_left fun range hrange => ?_
    obtain ⟨-, -, hhigh⟩ := mem_coverRange hrange
    have := hfits.1
    rw [Function.comp_apply, Nmt.length_slice]
    omega
  rw [hwidths, sum_coverRange, NamespaceProof.leafCount]

end Row

end SubtreeRoots

end Availability
