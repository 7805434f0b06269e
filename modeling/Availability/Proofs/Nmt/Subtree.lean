import Availability.Nmt.Subtree
import Availability.Proofs.Nmt.LeafRange
import Availability.Proofs.Nmt.Tree

/-!
# Subtree roots that verify are under the row root

Whoever checks subtree roots recomputes the root of a row over a range of leaves, with the subtree
roots in the place of the leaves. Range, nodes and even the rule for the largest namespace are
chosen by the maker of the proof; nodes may be missing and others may be left over. All of this only
decides which upper part of a tree is computed. What matters is that it is computed **from left to
right**.

* `joinSides`, `rebuild_eq_ok_iff` – one step of the computation;
* `opening` – the upper part of a tree that is computed;
* `frontier_plan` – the subtree roots stand side by side in it;
* `exists_run_of_verify` – subtree roots that verify are those of consecutive leaves.
-/

namespace Availability.SubtreeRoots

open Merkle (splitPoint splitPoint_pos splitPoint_lt Opening LeafTree Hashing)

/-! ### One step -/

/-- Joins what was found on both sides of a node. The right side may be missing. -/
def joinSides (ignoreMax : Bool) :
    Option NamespacedHash → Option NamespacedHash → Except Error (Option NamespacedHash)
  | some left, some right => some <$> join ignoreMax left right
  | left, none => .ok left
  | none, some _ => .error (.refuted .missingLeftNode)

theorem validateOrder_eq_ok_iff {node : NamespacedHash} :
    node.validateOrder = .ok () ↔ node.min ≤ node.max := by
  simp [NamespacedHash.validateOrder, NamespacedHash.isOrdered]

/-- Two nodes are joined when their namespaces are in order. -/
theorem join_eq_ok_iff {ignoreMax : Bool} {left right node : NamespacedHash} :
    join ignoreMax left right = .ok node ↔
      left.min ≤ left.max ∧ right.min ≤ right.max ∧ left.max ≤ right.min ∧
        NamespacedHash.node ignoreMax left right = node := by
  simp only [join, Checked.throw_bind, Checked.bind_eq_ok_iff, Checked.exists_unit_iff,
    Checked.ite_throw_eq_ok_iff, Checked.pure_eq_ok_iff, not_lt, validateOrder_eq_ok_iff]

section Rebuild

variable {ignoreMax : Bool} {start stop size offset : Nat} {s : Supply}

/-- Outside of the range stands a node. -/
theorem rebuild_of_outside (h : offset + size ≤ start ∨ stop ≤ offset) :
    rebuild ignoreMax start stop size offset s = .ok s.takeNode := by
  rw [rebuild, if_pos h]

/-- At the place of the next subtree stands its root. -/
theorem rebuild_of_range (h : ¬(offset + size ≤ start ∨ stop ≤ offset))
    (hrange : s.ranges.head? = some (offset, offset + size)) :
    rebuild ignoreMax start stop size offset s =
      .ok ({ s with ranges := s.ranges.tail } : Supply).takeRoot := by
  rw [rebuild, if_neg h, if_pos hrange]

/-- A single leaf of the range is given by a subtree root. -/
theorem rebuild_of_one (h : ¬(offset + size ≤ start ∨ stop ≤ offset))
    (hrange : s.ranges.head? ≠ some (offset, offset + size)) (hsize : ¬2 ≤ size) :
    rebuild ignoreMax start stop size offset s = .ok s.takeRoot := by
  rw [rebuild, if_neg h, if_neg hrange, dif_neg hsize]

/-- **Everything else is computed**, the left side first. -/
theorem rebuild_eq_ok_iff (h : ¬(offset + size ≤ start ∨ stop ≤ offset))
    (hrange : s.ranges.head? ≠ some (offset, offset + size)) (hsize : 2 ≤ size)
    {root? : Option NamespacedHash} {s' : Supply} :
    rebuild ignoreMax start stop size offset s = .ok (root?, s') ↔
      ∃ left? right? s₁,
        rebuild ignoreMax start stop (splitPoint size) offset s = .ok (left?, s₁) ∧
        rebuild ignoreMax start stop (size - splitPoint size) (offset + splitPoint size) s₁ =
          .ok (right?, s') ∧
        joinSides ignoreMax left? right? = .ok root? := by
  rw [rebuild, if_neg h, if_neg hrange, dif_pos hsize]
  simp only [Checked.bind_eq_ok_iff, Prod.exists]
  constructor
  · rintro ⟨left?, s₁, hleft, right?, s₂, hright, hjoin⟩
    refine ⟨left?, right?, s₁, hleft, ?_⟩
    rcases left? with _ | left <;> rcases right? with _ | right
    · obtain ⟨rfl, rfl⟩ := Prod.mk.inj (Except.ok.inj hjoin)
      exact ⟨hright, rfl⟩
    · cases hjoin
    · obtain ⟨rfl, rfl⟩ := Prod.mk.inj (Except.ok.inj hjoin)
      exact ⟨hright, rfl⟩
    · obtain ⟨node, hnode, hpair⟩ := Checked.bind_eq_ok_iff.mp hjoin
      obtain ⟨rfl, rfl⟩ := Prod.mk.inj (Except.ok.inj hpair)
      exact ⟨hright, Checked.map_eq_ok_iff.mpr ⟨node, hnode, rfl⟩⟩
  · rintro ⟨left?, right?, s₁, hleft, hright, hjoin⟩
    refine ⟨left?, s₁, hleft, right?, s', hright, ?_⟩
    rcases left? with _ | left <;> rcases right? with _ | right
    · rw [← Except.ok.inj hjoin]
      rfl
    · cases hjoin
    · rw [← Except.ok.inj hjoin]
      rfl
    · obtain ⟨node, hnode, rfl⟩ := Checked.map_eq_ok_iff.mp hjoin
      simp only [hnode]
      rfl

end Rebuild

/-! ### The opening -/

/-- Two parts of a tree side by side, if both are there. -/
def joinOpenings : Option (Opening NamespacedHash) → Option (Opening NamespacedHash) →
    Option (Opening NamespacedHash)
  | some left, some right => some (.join left right)
  | left, none => left
  | none, right => right

/-- Plans the left side, and then the right side with what is left over. -/
def planSides (left : Option (Opening NamespacedHash) × Supply)
    (right : Supply → Option (Opening NamespacedHash) × Supply) :
    Option (Opening NamespacedHash) × Supply :=
  (joinOpenings left.1 (right left.2).1, (right left.2).2)

/-- The upper part of a tree that is computed over the range, without any checks. -/
def plan (start stop : Nat) (size offset : Nat) (s : Supply) :
    Option (Opening NamespacedHash) × Supply :=
  if offset + size ≤ start ∨ stop ≤ offset then (s.takeNode.1.map .given, s.takeNode.2)
  else if s.ranges.head? = some (offset, offset + size) then
    let s : Supply := { s with ranges := s.ranges.tail }
    (s.takeRoot.1.map .given, s.takeRoot.2)
  else if _ : 2 ≤ size then
    planSides (plan start stop (splitPoint size) offset s)
      (plan start stop (size - splitPoint size) (offset + splitPoint size))
  else (s.takeRoot.1.map .given, s.takeRoot.2)
termination_by size
decreasing_by
  all_goals
    have := splitPoint_pos ‹2 ≤ size›
    have := splitPoint_lt ‹2 ≤ size›
    omega

theorem value_joinOpenings {ignoreMax : Bool} {left right : Option (Opening NamespacedHash)}
    {root? : Option NamespacedHash}
    (h : joinSides ignoreMax (left.map (Nmt.hashing ignoreMax).value)
      (right.map (Nmt.hashing ignoreMax).value) = .ok root?) :
    (joinOpenings left right).map (Nmt.hashing ignoreMax).value = root? := by
  rcases left with _ | left <;> rcases right with _ | right
  · exact Except.ok.inj h
  · cases h
  · exact Except.ok.inj h
  · obtain ⟨node, hnode, rfl⟩ := Checked.map_eq_ok_iff.mp h
    obtain ⟨-, -, -, rfl⟩ := join_eq_ok_iff.mp hnode
    rfl

/-- **What is recomputed is the value of the plan**, whenever no check fails. -/
theorem value_plan {ignoreMax : Bool} {start stop size offset : Nat} {s s' : Supply}
    {root? : Option NamespacedHash}
    (h : rebuild ignoreMax start stop size offset s = .ok (root?, s')) :
    (plan start stop size offset s).1.map (Nmt.hashing ignoreMax).value = root? ∧
      (plan start stop size offset s).2 = s' := by
  -- a node that is taken on faith has itself as its value
  have hgiven {taken : Option NamespacedHash × Supply} {root? : Option NamespacedHash} {s' : Supply}
      (h : (.ok taken : Except Error _) = .ok (root?, s')) :
      (taken.1.map Opening.given).map (Nmt.hashing ignoreMax).value = root? ∧ taken.2 = s' := by
    obtain rfl := Except.ok.inj h
    cases root? <;> exact ⟨rfl, rfl⟩
  induction size, offset, s using plan.induct start stop generalizing root? s' with
  | case1 size offset s hout =>
    rw [rebuild_of_outside hout] at h
    rw [plan, if_pos hout]
    exact hgiven h
  | case2 size offset s hin hrange =>
    rw [rebuild_of_range hin hrange] at h
    rw [plan, if_neg hin, if_pos hrange]
    exact hgiven h
  | case3 size offset s hin hrange hsize ihl ihr =>
    obtain ⟨left?, right?, s₁, hleft, hright, hjoin⟩ := (rebuild_eq_ok_iff hin hrange hsize).mp h
    obtain ⟨hlvalue, hlsupply⟩ := ihl hleft
    rw [← hlsupply] at hright
    obtain ⟨hrvalue, hrsupply⟩ := ihr _ hright
    rw [plan, if_neg hin, if_neg hrange, dif_pos hsize]
    refine ⟨value_joinOpenings ?_, hrsupply⟩
    rw [← hlvalue, ← hrvalue] at hjoin
    exact hjoin
  | case4 size offset s hin hrange hsize =>
    rw [rebuild_of_one hin hrange hsize] at h
    rw [plan, if_neg hin, if_neg hrange, dif_neg hsize]
    exact hgiven h

/-- What a part of the plan takes on faith. -/
def frontier (o? : Option (Opening NamespacedHash)) : List NamespacedHash :=
  (o?.map Opening.frontier).getD []

theorem frontier_joinOpenings (left right : Option (Opening NamespacedHash)) :
    frontier (joinOpenings left right) = frontier left ++ frontier right := by
  rcases left with _ | left <;> rcases right with _ | right <;>
    simp [frontier, joinOpenings, Opening.frontier]

theorem frontier_map_given (a? : Option NamespacedHash) :
    frontier (a?.map .given) = a?.toList := by
  cases a? <;> rfl

/-- **The subtree roots stand side by side**: what is taken on faith are nodes to the left, then the
subtree roots that are used up, then nodes to the right. There is nothing to the right of the range
before its end, and nothing else after it. -/
theorem frontier_plan {start stop size offset : Nat} (s : Supply) (hlt : start < stop)
    (hpos : 0 < size) :
    ∃ left used right, frontier (plan start stop size offset s).1 = left ++ used ++ right ∧
      s.roots = used ++ (plan start stop size offset s).2.roots ∧
      (offset + size ≤ start → used = [] ∧ right = []) ∧ (stop ≤ offset → left = [] ∧ used = []) ∧
      (start ≤ offset → left = []) ∧ (offset + size ≤ stop → right = []) := by
  have htake (roots : List NamespacedHash) : roots = roots.head?.toList ++ roots.tail := by
    cases roots <;> rfl
  induction size, offset, s using plan.induct start stop with
  | case1 size offset s hout =>
    rw [plan, if_pos hout, frontier_map_given]
    rcases hout with hout | hout
    · exact ⟨s.nodes.head?.toList, [], [], by simp [Supply.takeNode], rfl, fun _ => ⟨rfl, rfl⟩,
        fun _ => by omega, fun _ => by omega, fun _ => rfl⟩
    · exact ⟨[], [], s.nodes.head?.toList, by simp [Supply.takeNode], rfl, fun _ => by omega,
        fun _ => ⟨rfl, rfl⟩, fun _ => rfl, fun _ => by omega⟩
  | case2 size offset s hin hrange =>
    rw [plan, if_neg hin, if_pos hrange, frontier_map_given]
    exact ⟨[], s.roots.head?.toList, [], by simp [Supply.takeRoot], htake s.roots,
      fun _ => by omega, fun _ => by omega, fun _ => rfl, fun _ => rfl⟩
  | case3 size offset s hin hrange hsize ihl ihr =>
    have hk := splitPoint_pos hsize
    have hlt' := splitPoint_lt hsize
    obtain ⟨l₁, u₁, r₁, hf₁, hu₁, ha₁, hb₁, hc₁, hd₁⟩ := ihl hk
    obtain ⟨l₂, u₂, r₂, hf₂, hu₂, ha₂, hb₂, hc₂, hd₂⟩ :=
      ihr (plan start stop (splitPoint size) offset s).2 (by omega)
    rw [plan, if_neg hin, if_neg hrange, dif_pos hsize, planSides, frontier_joinOpenings, hf₁, hf₂,
      hu₁, hu₂]
    rcases le_total (offset + splitPoint size) start with hs | hs
    · -- the left side is outside
      obtain ⟨rfl, rfl⟩ := ha₁ hs
      exact ⟨l₁ ++ l₂, u₂, r₂, by simp, by simp, fun h => ha₂ (by omega), fun h => by omega,
        fun h => by omega, fun h => hd₂ (by omega)⟩
    · obtain rfl := hc₂ hs
      rcases le_total (offset + splitPoint size) stop with ht | ht
      · -- the range goes on from the left side into the right one
        obtain rfl := hd₁ ht
        exact ⟨l₁, u₁ ++ u₂, r₂, by simp, by simp, fun h => by omega, fun h => by omega,
          fun h => hc₁ h, fun h => hd₂ (by omega)⟩
      · -- the right side is outside
        obtain ⟨-, rfl⟩ := hb₂ ht
        exact ⟨l₁, u₁, r₁ ++ r₂, by simp, by simp, fun h => by omega, fun h => by omega,
          fun h => hc₁ h, fun h => by omega⟩
  | case4 size offset s hin hrange hsize =>
    rw [plan, if_neg hin, if_neg hrange, dif_neg hsize, frontier_map_given]
    exact ⟨[], s.roots.head?.toList, [], by simp [Supply.takeRoot], htake s.roots,
      fun _ => by omega, fun _ => by omega, fun _ => rfl, fun _ => rfl⟩

/-! ### The whole row -/

/-- Appends roots of subtrees to the right. -/
def appendNodes (o : Opening NamespacedHash) (nodes : List NamespacedHash) :
    Opening NamespacedHash :=
  nodes.foldl (fun o node => .join o (.given node)) o

/-- The last of the nodes is the right half of the whole. -/
theorem appendNodes_concat (o : Opening NamespacedHash) (nodes : List NamespacedHash)
    (node : NamespacedHash) :
    appendNodes o (nodes ++ [node]) = .join (appendNodes o nodes) (.given node) := by
  rw [appendNodes, List.foldl_append]
  rfl

theorem frontier_appendNodes (o : Opening NamespacedHash) (nodes : List NamespacedHash) :
    (appendNodes o nodes).frontier = o.frontier ++ nodes := by
  induction nodes generalizing o with
  | nil => simp [appendNodes]
  | cons node nodes ih =>
    rw [appendNodes, List.foldl_cons, ← appendNodes, ih]
    simp [Opening.frontier]

theorem value_appendNodes {ignoreMax : Bool} {o : Opening NamespacedHash}
    {nodes : List NamespacedHash} {root : NamespacedHash}
    (h : nodes.foldlM (join ignoreMax) ((Nmt.hashing ignoreMax).value o) = .ok root) :
    (Nmt.hashing ignoreMax).value (appendNodes o nodes) = root := by
  induction nodes generalizing o with
  | nil => exact Except.ok.inj h
  | cons node nodes ih =>
    rw [List.foldlM_cons] at h
    obtain ⟨joined, hjoin, h⟩ := Checked.bind_eq_ok_iff.mp h
    obtain ⟨-, -, -, rfl⟩ := join_eq_ok_iff.mp hjoin
    exact ih h

/-- The number of leaves of the tree that is planned for: the smallest power of two with room for
the range. -/
def planSize (stop : Nat) : Nat :=
  max (2 * splitPoint stop) 1

/-- The upper part of the tree of a row that is computed to check subtree roots. -/
def opening (proof : NamespaceProof) (roots : List NamespacedHash) (width : Nat) :
    Option (Opening NamespacedHash) :=
  let planned := plan proof.start.toNat proof.stop.toNat (planSize proof.stop.toNat) 0
    ⟨coverRange width proof.start.toNat proof.stop.toNat, roots, proof.nodes⟩
  planned.1.map (appendNodes · planned.2.nodes)

/-- The strings that are hashed to check subtree roots. -/
def texts (proof : NamespaceProof) (roots : List NamespacedHash) (width : Nat) : List Bytes :=
  ((opening proof roots width).map (Nmt.hashing proof.ignoreMax).openingTexts).getD []

/-- Subtree roots are of a namespace when it is the smallest and the largest of each of them. -/
theorem checkNamespace_eq_ok_iff {ns : Namespace} {roots : List NamespacedHash} :
    checkNamespace ns roots = .ok () ↔ ∀ root ∈ roots, root.min = ns ∧ root.max = ns := by
  simp [checkNamespace]

/-- Everything that is checked of subtree roots. -/
theorem verify_eq_ok_iff {proof : NamespaceProof} {roots : List NamespacedHash} {width : Nat}
    {ns : Namespace} {rowRoot : NamespacedHash} :
    verify proof roots width ns rowRoot = .ok () ↔
      proof.isOfAbsence = false ∧ rowRoot.validateOrder = .ok () ∧
      ns.isOutside rowRoot rowRoot = false ∧ checkNamespace ns roots = .ok () ∧
      ∃ ranges, leafRanges proof.start.toNat proof.stop.toNat width = .ok ranges ∧
        ranges.length = roots.length ∧
        ∃ root rest, rebuild proof.ignoreMax proof.start.toNat proof.stop.toNat
            (planSize proof.stop.toNat) 0 ⟨ranges, roots, proof.nodes⟩ = .ok (some root, rest) ∧
          rest.roots = [] ∧ rest.nodes.foldlM (join proof.ignoreMax) root = .ok rowRoot := by
  have htail (root : NamespacedHash) (rest : Supply) :
      (do
        if !rest.roots.isEmpty then throw (.refuted .unusedRoots)
        let root ← rest.nodes.foldlM (join proof.ignoreMax) root
        if root ≠ rowRoot then throw (.refuted .otherRowRoot) : Except Error Unit) = .ok () ↔
        rest.roots = [] ∧ rest.nodes.foldlM (join proof.ignoreMax) root = .ok rowRoot := by
    simp only [Checked.throw_bind, Checked.bind_eq_ok_iff, Checked.ite_throw_eq_ok_iff]
    simp
  simp only [verify, Checked.throw_bind, Checked.bind_eq_ok_iff, Checked.exists_unit_iff,
    Checked.ite_throw_eq_ok_iff, Checked.mapError_eq_ok_iff, Bool.not_eq_true, ne_eq, not_not,
    Prod.exists, planSize]
  constructor
  · rintro ⟨habsence, horder, hinside, hns, ranges, hranges, hcount, root?, rest, hrebuild, h⟩
    rcases root? with _ | root
    · simp at h
    · exact ⟨habsence, horder, hinside, hns, ranges, hranges, hcount, root, rest, hrebuild,
        (htail root rest).mp h⟩
  · rintro ⟨habsence, horder, hinside, hns, ranges, hranges, hcount, root, rest, hrebuild, h⟩
    exact ⟨habsence, horder, hinside, hns, ranges, hranges, hcount, some root, rest, hrebuild,
      (htail root rest).mpr h⟩

/-- Subtree roots that verify stand side by side in an opening with the row root. -/
theorem exists_opening_of_verify {proof : NamespaceProof} {roots : List NamespacedHash}
    {width : Nat} {ns : Namespace} {rowRoot : NamespacedHash}
    (h : verify proof roots width ns rowRoot = .ok ()) :
    ∃ o, opening proof roots width = some o ∧ (Nmt.hashing proof.ignoreMax).value o = rowRoot ∧
      ∃ left right, o.frontier = left ++ roots ++ right := by
  obtain ⟨-, -, -, -, ranges, hranges, -, root, rest, hrebuild, hused, hfold⟩ :=
    verify_eq_ok_iff.mp h
  obtain ⟨hlt, -, rfl⟩ := leafRanges_eq_ok_iff.mp hranges
  obtain ⟨hvalue, rfl⟩ := value_plan hrebuild
  obtain ⟨o, ho, rfl⟩ := Option.map_eq_some_iff.mp hvalue
  refine ⟨_, by rw [opening, ho, Option.map_some], value_appendNodes hfold, ?_⟩
  obtain ⟨left, used, right, hfrontier, hroots, -⟩ := frontier_plan
    ⟨coverRange width proof.start.toNat proof.stop.toNat, roots, proof.nodes⟩ hlt
    (show 0 < planSize proof.stop.toNat from lt_max_of_lt_right one_pos)
  -- no subtree root is left over, so the run of those that are used up is all of them
  rw [hused, List.append_nil] at hroots
  rw [ho, ← hroots] at hfrontier
  have happend (nodes : List NamespacedHash) :
      (appendNodes o nodes).frontier = left ++ roots ++ (right ++ nodes) := by
    rw [frontier_appendNodes, ← List.append_assoc]
    exact congrArg (· ++ nodes) hfrontier
  exact ⟨left, _, happend _⟩

section Soundness

variable {all : List Bytes} (free : ¬Collides all) {proof : NamespaceProof}
  {roots : List NamespacedHash} {width : Nat} {ns : Namespace} {leaves : List Nmt.Leaf}
  (hproof : texts proof roots width ⊆ all) (hleaves : Nmt.texts leaves ⊆ all)
  (h : verify proof roots width ns (Nmt.rootOver leaves) = .ok ())
include free hproof hleaves h

/-- **Subtree roots that verify are roots of subtrees side by side**, unless two of the hashed
strings collide: nothing else has the same value at their places. -/
theorem exists_subtrees_of_verify :
    ∃ before run after : List (LeafTree Nmt.Leaf), run.map (Nmt.hashing true).root = roots ∧
      (before ++ run ++ after).flatMap LeafTree.leaves = leaves ∧
      ∀ subtree ∈ run, (Nmt.hashing true).texts subtree ⊆ all := by
  obtain ⟨o, ho, hvalue, left, right, hfrontier⟩ := exists_opening_of_verify h
  rw [texts, ho] at hproof
  rw [Nmt.rootOver_eq] at hvalue
  obtain ⟨subtrees, hroots, hsubleaves, hsubtexts⟩ :=
    (Nmt.hashing true).exists_subtrees (Nmt.hashing proof.ignoreMax) rfl rfl free hproof hleaves
      hvalue
  -- the run of subtrees at the places of the subtree roots
  rw [hfrontier] at hroots
  obtain ⟨upto, after, rfl, hupto, -⟩ := List.map_eq_append_iff.mp hroots
  obtain ⟨before, run, rfl, -, hrun⟩ := List.map_eq_append_iff.mp hupto
  refine ⟨before, run, after, hrun, by rw [hsubleaves, LeafTree.leaves_ofList], fun s hs => ?_⟩
  exact hsubtexts s (by simp [hs])

/-- **Roots of lists that verify are those of consecutive leaves**, unless two of the hashed strings
collide. -/
theorem exists_run_of_verify (xss : List (List Nmt.Leaf)) (hroots : roots = xss.map Nmt.rootOver)
    (hxss : xss.flatMap Nmt.texts ⊆ all) :
    ∃ before after, leaves = before ++ xss.flatten ++ after := by
  obtain ⟨before, run, after, hrun, hsubleaves, hsubtexts⟩ :=
    exists_subtrees_of_verify free hproof hleaves h
  have hlists := Nmt.eq_map_ofList free hsubtexts hxss (hrun.trans hroots)
  refine ⟨before.flatMap LeafTree.leaves, after.flatMap LeafTree.leaves, ?_⟩
  rw [← hsubleaves, List.flatMap_append, List.flatMap_append, hlists, List.flatMap_map]
  simp [List.flatMap_def]

end Soundness

end Availability.SubtreeRoots
