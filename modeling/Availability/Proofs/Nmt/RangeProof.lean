import Availability.Proofs.Merkle.Place
import Availability.Proofs.Nmt.RangePlan

/-!
# Nothing of a namespace is left out

A range proof shows more than that some leaves are there: the nodes next to the range tell the
namespaces on both sides, so that no other leaf can be of the namespace of the range. Leaves of the
parity namespace need not count for the largest namespace of a node, and may therefore be under a
node to the left; but then the order of the leaves leaves nothing but parity for the range itself.

* `NamespaceProof.texts` – the strings that are hashed to check a range proof;
* `exists_parts_of_checkLeaves` – what verifies are the roots of **parts of the leaves, side by
  side**, and the nodes are told apart in the right place;
* `ns_ne_of_mem_before`, `ns_ne_of_mem_after` – no leaf beside the range is of the namespace;
* `filter_eq_of_verifyComplete` – leaves that are shown to be all of their namespace **are all of
  it**, and a namespace that is shown to be absent has none.
-/

namespace Availability

open Merkle (Opening)
open Nmt (Leaf rootOver)

namespace Nmt

@[simp] theorem rootOver_nil : rootOver [] = .empty :=
  Merkle.combine_nil _ _

/-- Only the tree without leaves has the root of it, unless two of the hashed strings collide. -/
theorem eq_nil_of_rootOver_eq_empty {all : List Bytes} (free : ¬Collides all) (hempty : [] ∈ all)
    {leaves : List Leaf} (hleaves : texts leaves ⊆ all) (h : rootOver leaves = .empty) :
    leaves = [] := by
  refine leaves_eq_of_rootOver_eq free hleaves ?_ (h.trans rootOver_nil.symm)
  rw [texts, Merkle.LeafTree.ofList_nil]
  exact List.cons_subset.mpr ⟨hempty, List.nil_subset all⟩

/-! ### Leaves beside a range -/

/-- The leaves of a namespace, when they stand side by side. -/
theorem filter_ns_eq {ns : Namespace} {before run after : List Leaf}
    (hbefore : ∀ leaf ∈ before, leaf.ns ≠ ns) (hrun : ∀ leaf ∈ run, leaf.ns = ns)
    (hafter : ∀ leaf ∈ after, leaf.ns ≠ ns) :
    ((before ++ run ++ after).filter fun leaf => leaf.ns = ns) = run := by
  rw [List.filter_append, List.filter_append, List.filter_eq_nil_iff.mpr (by simpa using hbefore),
    List.filter_eq_self.mpr (by simpa using hrun),
    List.filter_eq_nil_iff.mpr (by simpa using hafter), List.nil_append, List.append_nil]

section Beside

variable {ns : Namespace} {parts : List (List Leaf)} (hparts : ∀ part ∈ parts, part ≠ [])
  (hasc : parts.flatten.Pairwise fun a b => a.ns ≤ b.ns)
include hparts hasc

/-- **No leaf before the range is of the namespace**, when the last node before it ends below it. -/
theorem ns_ne_of_mem_before (hns : ns ≠ .parity)
    (hlast : ∀ node ∈ (parts.map rootOver).getLast?, node.max < ns) {leaf : Leaf}
    (hleaf : leaf ∈ parts.flatten) : leaf.ns ≠ ns := by
  rcases List.eq_nil_or_concat parts with rfl | ⟨init, last, rfl⟩
  · simp at hleaf
  simp only [List.concat_eq_append] at hparts hasc hlast hleaf
  rw [List.map_append, List.map_singleton, List.getLast?_concat] at hlast
  rw [List.flatten_append, List.flatten_singleton] at hasc hleaf
  have hmax : (rootOver last).max < ns := hlast _ rfl
  rcases List.mem_append.mp hleaf with hinit | hmem
  · -- some leaf under the last node is of its largest namespace, and comes later
    obtain ⟨top, htop, htopmax⟩ := exists_ns_eq_rootOver_max (hparts last (by simp))
    have hle := (List.pairwise_append.mp hasc).2.2 leaf hinit top htop
    exact (hle.trans_lt (htopmax ▸ hmax)).ne
  · rintro rfl
    exact absurd (le_rootOver_max hmem hns) (not_le.mpr hmax)

/-- **No leaf after the range is of the namespace**, when the first node after it begins above
it. -/
theorem ns_ne_of_mem_after (hfirst : ∀ node ∈ (parts.map rootOver).head?, ns < node.min)
    {leaf : Leaf} (hleaf : leaf ∈ parts.flatten) : leaf.ns ≠ ns := by
  rcases parts with _ | ⟨first, rest⟩
  · simp at hleaf
  rw [List.flatten_cons] at hasc hleaf
  have hmin : ns < (rootOver first).min := hfirst _ rfl
  rcases List.mem_append.mp hleaf with hfirst | hrest
  · exact (hmin.trans_le (rootOver_min_le hfirst)).ne'
  · obtain ⟨bottom, hbottom, hbottommin⟩ := exists_ns_eq_rootOver_min (hparts first (by simp))
    have hle := (List.pairwise_append.mp hasc).2.2 bottom hbottom leaf hrest
    exact ((hbottommin ▸ hmin).trans_le hle).ne'

end Beside

end Nmt

namespace NamespaceProof

/-! ### What is hashed -/

/-- The upper part of the tree that is computed to check a range proof for some leaf hashes. -/
def opening (proof : NamespaceProof) (hashes : List NamespacedHash) :
    Except RangeFault (Opening NamespacedHash) := do
  let start := proof.start.toNat
  let size ← treeSize (proof.nodes.length - leftNodes start) (start + hashes.length - 1)
  Prod.fst <$> plan start size 0 ⟨hashes.reverse, proof.nodes.reverse⟩

/-- The strings that are hashed to check a range proof for some leaf hashes. -/
def texts (proof : NamespaceProof) (hashes : List NamespacedHash) : List Bytes :=
  match proof.opening hashes with
  | .ok o => (Nmt.hashing proof.ignoreMax).openingTexts o
  | .error _ => []

/-- The leaf hashes that a proof is checked for: those of the given leaves, or the one that comes
with a proof of absence. -/
def hashesFor (proof : NamespaceProof) (ns : Namespace) (leaves : List Bytes) :
    List NamespacedHash :=
  match proof.goal with
  | .presence => leaves.map (.ofLeaf ns)
  | .absence leaf => leaf.toList

theorem hashesFor_of_presence {proof : NamespaceProof} (h : proof.goal = .presence) (ns : Namespace)
    (leaves : List Bytes) : proof.hashesFor ns leaves = leaves.map (.ofLeaf ns) := by
  rw [hashesFor, h]

theorem hashesFor_of_absence {proof : NamespaceProof} {leaf? : Option NamespacedHash}
    (h : proof.goal = .absence leaf?) (ns : Namespace) (leaves : List Bytes) :
    proof.hashesFor ns leaves = leaf?.toList := by
  rw [hashesFor, h]

/-- The strings that are hashed to check that some leaves are all of their namespace. -/
def completeTexts (proof : NamespaceProof) (ns : Namespace) (leaves : List Bytes) : List Bytes :=
  [] :: (leaves.map (fun data => 0 :: (ns.bytes ++ data)) ++
    proof.texts (proof.hashesFor ns leaves))

/-! ### What is checked -/

/-- A range without nodes beside it is the whole tree. -/
theorem checkLeaves_singleton {proof : NamespaceProof} (hnodes : proof.nodes = [])
    {root leaf : NamespacedHash} {complete : Bool} :
    proof.checkLeaves root [leaf] = .ok complete ↔
      leaf = root ∧ proof.start = 0 ∧ complete = true := by
  simp only [checkLeaves, hnodes]
  split
  case isTrue h => simp [h, eq_comm]
  case isFalse h => simp only [reduceCtorEq, false_iff]; tauto

/-- **Every other range is checked with the tree that is made up for it.** -/
theorem checkLeaves_eq_ok_iff {proof : NamespaceProof} {root : NamespacedHash}
    {hashes : List NamespacedHash} (hne : hashes ≠ [])
    (hmany : proof.nodes = [] → 2 ≤ hashes.length) {complete : Bool} :
    proof.checkLeaves root hashes = .ok complete ↔
      leftNodes proof.start.toNat ≤ proof.nodes.length ∧
      (∃ size rest, treeSize (proof.nodes.length - leftNodes proof.start.toNat)
          (proof.start.toNat + hashes.length - 1) = .ok size ∧
        rebuild proof.ignoreMax proof.start.toNat size 0 ⟨hashes.reverse, proof.nodes.reverse⟩ =
          .ok (root, rest)) ∧
      isComplete hashes (proof.nodes.take (leftNodes proof.start.toNat))
        (proof.nodes.drop (leftNodes proof.start.toNat)) = complete := by
  rw [checkLeaves]
  · simp only [Checked.throw_bind, Checked.ite_throw_eq_ok_iff, Checked.bind_eq_ok_iff,
      Checked.pure_eq_ok_iff, Prod.exists, not_lt, ne_eq, not_not]
    constructor
    · rintro ⟨hcount, size, hsize, computed, rest, hrebuild, rfl, hcomplete⟩
      exact ⟨hcount, ⟨size, rest, hsize, hrebuild⟩, hcomplete⟩
    · rintro ⟨hcount, ⟨size, rest, hsize, hrebuild⟩, hcomplete⟩
      exact ⟨hcount, size, hsize, root, rest, hrebuild, rfl, hcomplete⟩
  · exact hne
  · rintro leaf rfl hnodes
    exact absurd (hmany hnodes) (by simp)

/-- The counted nodes are in order when their neighbours in the range are. -/
theorem isComplete_eq_true_iff {leaves left right : List NamespacedHash} {ns : Namespace}
    (hne : leaves ≠ []) (hleaves : ∀ leaf ∈ leaves, leaf.min = ns ∧ leaf.max = ns) :
    isComplete leaves left right = true ↔
      (∀ node ∈ left.getLast?, node.max < ns) ∧ ∀ node ∈ right.head?, ns < node.min := by
  obtain ⟨first, hfirst⟩ := Option.ne_none_iff_exists'.mp (mt List.head?_eq_none_iff.mp hne)
  obtain ⟨last, hlast⟩ := Option.ne_none_iff_exists'.mp (mt List.getLast?_eq_none_iff.mp hne)
  obtain ⟨hmin, -⟩ := hleaves first (List.mem_of_head? hfirst)
  obtain ⟨-, hmax⟩ := hleaves last (List.mem_of_getLast? hlast)
  simp only [isComplete, hfirst, hlast, hmin, hmax, Bool.and_eq_true, Option.all_eq_true,
    Option.mem_def, decide_eq_true_eq]

section Verify

variable {proof : NamespaceProof} {root : NamespacedHash} {ns : Namespace} {leaves : List Bytes}

/-- What is checked of leaves that are meant to be all of their namespace. -/
theorem verifyComplete_eq_ok_iff_of_presence (hgoal : proof.goal = .presence) :
    proof.verifyComplete root leaves ns = .ok () ↔
      leaves.length = proof.leafCount ∧ ((root = .empty ∧ leaves = []) ∨
        (root.contains ns = true ∧
          proof.checkLeaves root (leaves.map (.ofLeaf ns)) = .ok true)) := by
  have habsence : proof.isOfAbsence = false := by simp [isOfAbsence, hgoal]
  simp only [verifyComplete, hgoal, habsence]
  by_cases hcount : leaves.length = proof.leafCount
  · by_cases hempty : root = .empty ∧ leaves = []
    · simp [hempty, ← hcount]
    · simp only [hcount, hempty, Bool.not_false, ne_eq, not_true_eq_false, decide_false,
        Bool.and_false, Bool.false_eq_true, if_false, false_or, true_and, Checked.throw_bind,
        Checked.ite_throw_eq_ok_iff, Checked.bind_eq_ok_iff, Bool.not_eq_true', Bool.not_eq_false]
      constructor
      · rintro ⟨hin, complete, hcheck, hcomplete, -⟩
        exact ⟨hin, by rw [hcheck, hcomplete]⟩
      · rintro ⟨hin, hcheck⟩
        exact ⟨hin, true, hcheck, rfl, rfl⟩
  · simp [hcount]

/-- What is checked of a namespace that is meant to be absent. -/
theorem verifyComplete_eq_ok_iff_of_absence {leaf? : Option NamespacedHash}
    (hgoal : proof.goal = .absence leaf?) :
    proof.verifyComplete root [] ns = .ok () ↔
      root.contains ns = false ∨ ∃ leaf, leaf? = some leaf ∧ ns < leaf.min ∧
        (∀ node ∈ (proof.nodes.take (leftNodes proof.start.toNat)).getLast?, node.max < ns) ∧
        ∃ complete, proof.checkLeaves root [leaf] = .ok complete := by
  have habsence : proof.isOfAbsence = true := by simp [isOfAbsence, hgoal]
  have hany (before : Option NamespacedHash) :
      (before.any fun node => ns ≤ node.max) = false ↔ ∀ node ∈ before, node.max < ns := by
    cases before <;> simp
  simp only [verifyComplete, hgoal, habsence]
  by_cases hin : root.contains ns = true
  · have hnonempty : root ≠ .empty := (NamespacedHash.contains_iff.mp hin).2.2
    rcases leaf? with _ | leaf
    · simp [hin, hnonempty]
    · simp only [hin, hnonempty, Bool.not_true, Bool.false_and, Bool.false_eq_true, if_false,
        false_and, List.isEmpty_nil, Checked.throw_bind, Checked.ite_throw_eq_ok_iff,
        Checked.bind_eq_ok_iff, not_le, Bool.not_eq_true, hany, Option.some.injEq,
        Bool.true_eq_false, false_or, exists_eq_left', Checked.pure_eq_ok_iff]
      tauto
  · have hout : root.contains ns = false := by simpa using hin
    refine iff_of_true ?_ (Or.inl hout)
    simp only [hout, Bool.not_true, Bool.not_false, Bool.false_and, Bool.false_eq_true, if_false,
      if_true]
    split <;> rfl

end Verify

/-! ### What it shows -/

section Soundness

variable {all : List Bytes} (free : ¬Collides all) {proof : NamespaceProof} {leaves : List Leaf}
  (hleaves : Nmt.texts leaves ⊆ all)
include free hleaves

/-- **Leaf hashes that verify are the roots of parts of the leaves, side by side**, unless two of
the hashed strings collide. The nodes before and after them are those that are counted as such. -/
theorem exists_parts_of_checkLeaves {hashes : List NamespacedHash}
    (hproof : proof.texts hashes ⊆ all) (hne : leaves ≠ []) (hhashes : hashes ≠ []) {complete : Bool}
    (h : proof.checkLeaves (rootOver leaves) hashes = .ok complete) :
    ∃ before run after : List (List Leaf), run.map rootOver = hashes ∧
      before.flatten ++ run.flatten ++ after.flatten = leaves ∧
      (∀ part ∈ before ++ run ++ after, part ≠ [] ∧ Nmt.texts part ⊆ all) ∧
      before.map rootOver = proof.nodes.take (leftNodes proof.start.toNat) ∧
      complete = isComplete hashes (before.map rootOver) (after.map rootOver) := by
  by_cases hsingle : proof.nodes = [] ∧ hashes.length < 2
  · -- the range is the whole tree
    obtain ⟨hnodes, hlength⟩ := hsingle
    obtain ⟨leaf, rfl⟩ : ∃ leaf, hashes = [leaf] :=
      List.length_eq_one_iff.mp (by have := List.length_pos_iff.mpr hhashes; omega)
    obtain ⟨rfl, -, rfl⟩ := (checkLeaves_singleton hnodes).mp h
    refine ⟨[], [leaves], [], rfl, by simp, ?_, by simp [hnodes], rfl⟩
    intro part hpart
    obtain rfl : part = leaves := by simpa using hpart
    exact ⟨hne, hleaves⟩
  have hmany : proof.nodes = [] → 2 ≤ hashes.length := fun hnodes => by
    by_contra hlength
    exact hsingle ⟨hnodes, by omega⟩
  obtain ⟨hcount, ⟨size, rest, hsize, hrebuild⟩, hcomplete⟩ :=
    (checkLeaves_eq_ok_iff hhashes hmany).mp h
  obtain ⟨o, hplan, hvalue⟩ := exists_plan hrebuild
  obtain ⟨hlt, hright⟩ := treeSize_spec hsize
  have hpos := List.length_pos_iff.mpr hhashes
  obtain ⟨left, used, right, hfrontier, hused, hrest, hnodes, hleftCount, hrightCount⟩ :=
    frontier_plan hplan (by simpa using hhashes) (by rw [List.length_reverse]; omega)
      (by rw [List.length_reverse]; omega)
  -- everything at hand is used up, and the nodes are told apart by their numbers
  rw [Nat.zero_sub, List.length_eq_zero_iff] at hrest
  rw [hrest, List.append_nil] at hused
  obtain rfl := List.reverse_injective hused
  have hstart : proof.start.toNat < 2 ^ 64 := proof.start.toNat_lt.trans (by norm_num)
  rw [Nat.sub_zero, Merkle.count_true_turns (by omega) hstart] at hleftCount
  rw [List.length_reverse, Nat.sub_zero, hright] at hrightCount
  have hleft : left.length = leftNodes proof.start.toNat := hleftCount
  have hlengths := congrArg List.length hnodes
  simp only [List.length_reverse, List.length_append] at hlengths
  have hrestNodes : rest.nodes = [] := List.length_eq_zero_iff.mp (by omega)
  rw [hrestNodes, List.append_nil] at hnodes
  have hsplit : proof.nodes = left ++ right := List.reverse_injective hnodes
  rw [hsplit, List.take_left' hleft, List.drop_left' hleft] at hcomplete
  -- what was taken on faith are the roots of parts of the leaves
  have hopening : proof.opening hashes = .ok o := by
    simp only [opening, hsize]
    exact Checked.map_eq_ok_iff.mpr ⟨(o, rest), hplan, rfl⟩
  rw [texts, hopening] at hproof
  rw [Nmt.rootOver_eq] at hvalue
  obtain ⟨parts, hparts, hflatten, htexts⟩ := (Nmt.hashing true).exists_parts
    (Nmt.hashing proof.ignoreMax) rfl rfl free hproof hleaves hvalue hne
  have hroots : parts.map rootOver = left ++ hashes ++ right := by
    rw [← hfrontier, ← hparts]
    exact List.map_congr_left fun part _ => Nmt.rootOver_eq part
  obtain ⟨upto, after, rfl, hupto, rfl⟩ := List.map_eq_append_iff.mp hroots
  obtain ⟨before, run, rfl, rfl, hrun⟩ := List.map_eq_append_iff.mp hupto
  refine ⟨before, run, after, hrun, ?_, htexts, ?_, hcomplete.symm⟩
  · rw [← hflatten, List.flatten_append, List.flatten_append]
  · rw [hsplit, List.take_left' hleft]

variable {ns : Namespace} {data : List Bytes} (hproof : proof.completeTexts ns data ⊆ all)
  (hasc : leaves.Pairwise fun a b => a.ns ≤ b.ns) (hns : ns ≠ .parity)
  (hin : ns.isOutside (rootOver leaves) (rootOver leaves) = false)
include hproof hasc hns hin

/-- Leaves that verify are all of their namespace. -/
theorem filter_eq_of_verifyComplete_of_presence (hgoal : proof.goal = .presence) (hdata : data ≠ [])
    (h : proof.verifyComplete (rootOver leaves) data ns = .ok ()) :
    (leaves.filter fun leaf => leaf.ns = ns) = data.map fun bytes => ⟨ns, bytes⟩ := by
  rw [completeTexts, List.cons_subset, List.append_subset, hashesFor_of_presence hgoal] at hproof
  obtain ⟨-, hdataTexts, hproofTexts⟩ := hproof
  obtain ⟨-, h⟩ := (verifyComplete_eq_ok_iff_of_presence hgoal).mp h
  obtain ⟨hcontains, hcheck⟩ := h.resolve_left fun h => hdata h.2
  have hne : leaves ≠ [] := by
    rintro rfl
    exact (NamespacedHash.contains_iff.mp hcontains).2.2 Nmt.rootOver_nil
  have hhashes : data.map (NamespacedHash.ofLeaf ns) ≠ [] := by simpa using hdata
  obtain ⟨before, run, after, hrun, hflatten, hparts, -, hcomplete⟩ :=
    exists_parts_of_checkLeaves free hleaves hproofTexts hne hhashes hcheck
  have hashNs : ∀ hash ∈ data.map (NamespacedHash.ofLeaf ns), hash.min = ns ∧ hash.max = ns := by
    simp [NamespacedHash.ofLeaf]
  obtain ⟨hbefore, hafter⟩ := (isComplete_eq_true_iff hhashes hashNs).mp hcomplete.symm
  -- the parts in the range are the given leaves
  have hleafTexts : (data.map fun bytes => [(⟨ns, bytes⟩ : Leaf)]).flatMap Nmt.texts ⊆ all := by
    intro text htext
    obtain ⟨part, hpart, htext⟩ := List.mem_flatMap.mp htext
    obtain ⟨bytes, hbytes, rfl⟩ := List.mem_map.mp hpart
    rw [Nmt.texts, Merkle.LeafTree.ofList_singleton] at htext
    obtain rfl := List.mem_singleton.mp htext
    exact hdataTexts (List.mem_map.mpr ⟨bytes, hbytes, rfl⟩)
  have hrunTexts : run.flatMap Nmt.texts ⊆ all := by
    intro text htext
    obtain ⟨part, hpart, htext⟩ := List.mem_flatMap.mp htext
    exact (hparts part (by simp [hpart])).2 htext
  have hrunEq : run = data.map fun bytes => [⟨ns, bytes⟩] := by
    refine Nmt.eq_of_map_rootOver_eq free hrunTexts hleafTexts ?_
    rw [hrun, List.map_map]
    exact List.map_congr_left fun bytes _ => (Nmt.rootOver_singleton ⟨ns, bytes⟩).symm
  have hrunFlatten : run.flatten = data.map fun bytes => ⟨ns, bytes⟩ := by
    rw [hrunEq, ← List.flatMap_def, List.map_eq_flatMap]
  rw [← hflatten] at hasc ⊢
  obtain ⟨hascUpto, hascAfter, -⟩ := List.pairwise_append.mp hasc
  obtain ⟨hascBefore, -, -⟩ := List.pairwise_append.mp hascUpto
  rw [hrunFlatten]
  refine Nmt.filter_ns_eq ?_ (by simp) ?_
  · exact fun leaf hleaf => Nmt.ns_ne_of_mem_before
      (fun part hpart => (hparts part (by simp [hpart])).1) hascBefore hns hbefore hleaf
  · exact fun leaf hleaf => Nmt.ns_ne_of_mem_after
      (fun part hpart => (hparts part (by simp [hpart])).1) hascAfter hafter hleaf

/-- A namespace that is shown to be absent has no leaves. -/
theorem filter_eq_nil_of_verifyComplete {leaf? : Option NamespacedHash}
    (hgoal : proof.goal = .absence leaf?) (hdata : data = [])
    (h : proof.verifyComplete (rootOver leaves) data ns = .ok ()) :
    (leaves.filter fun leaf => leaf.ns = ns) = [] := by
  subst hdata
  rw [completeTexts, List.cons_subset, List.append_subset, hashesFor_of_absence hgoal] at hproof
  obtain ⟨hempty, -, hproofTexts⟩ := hproof
  rcases (verifyComplete_eq_ok_iff_of_absence hgoal).mp h with
    hcontains | ⟨leaf, rfl, hleaf, hbefore, complete, hcheck⟩
  · -- the namespace is within the range of the root, so this is that of the empty tree
    have hroot : rootOver leaves = .empty := by
      by_contra hroot
      obtain ⟨hmin, hmax⟩ := NamespacedHash.isOutside_eq_false_iff.mp hin
      rw [NamespacedHash.contains_iff.mpr ⟨hmin, hmax, hroot⟩] at hcontains
      cases hcontains
    rw [Nmt.eq_nil_of_rootOver_eq_empty free hempty hleaves hroot, List.filter_nil]
  · rcases eq_or_ne leaves [] with rfl | hne
    · exact List.filter_nil
    obtain ⟨before, run, after, hrun, hflatten, hparts, hnodes, -⟩ :=
      exists_parts_of_checkLeaves free hleaves hproofTexts hne (by simp) hcheck
    obtain ⟨part, rfl, hpart⟩ := List.map_eq_singleton_iff.mp hrun
    rw [← hnodes] at hbefore
    -- the part that the hash of a leaf stands for, and all after it, come after the namespace
    rw [List.append_assoc, ← List.flatten_append] at hflatten
    rw [← hflatten] at hasc ⊢
    obtain ⟨hascBefore, hascRest, -⟩ := List.pairwise_append.mp hasc
    rw [← List.append_nil before.flatten]
    refine Nmt.filter_ns_eq ?_ (by simp) ?_
    · exact fun leaf hmem => Nmt.ns_ne_of_mem_before
        (fun part hpart => (hparts part (by simp [hpart])).1) hascBefore hns hbefore hmem
    · refine fun leaf' hmem => Nmt.ns_ne_of_mem_after (fun part hpart => (hparts part ?_).1)
        hascRest ?_ hmem
      · rw [List.append_assoc]
        exact List.mem_append_right _ hpart
      · simpa [hpart] using hleaf

/-- **Nothing is left out**: the leaves that verify are all leaves of the namespace, in order, when
there are none of them exactly if the proof is one of absence. This holds unless two of the hashed
strings collide. -/
theorem filter_eq_of_verifyComplete (hkind : data.isEmpty = proof.isOfAbsence)
    (h : proof.verifyComplete (rootOver leaves) data ns = .ok ()) :
    (leaves.filter fun leaf => leaf.ns = ns) = data.map fun bytes => ⟨ns, bytes⟩ := by
  cases hgoal : proof.goal with
  | presence =>
    have hdata : data ≠ [] := by simpa [isOfAbsence, hgoal] using hkind
    exact filter_eq_of_verifyComplete_of_presence free hleaves hproof hasc hns hin hgoal hdata h
  | absence leaf? =>
    have hdata : data = [] := by simpa [isOfAbsence, hgoal] using hkind
    rw [filter_eq_nil_of_verifyComplete free hleaves hproof hasc hns hin hgoal hdata h, hdata,
      List.map_nil]

end Soundness

end NamespaceProof

end Availability
