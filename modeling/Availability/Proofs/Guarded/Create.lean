import Availability.Proofs.Guarded.Commitment
import Availability.Proofs.Guarded.Splitter
import Availability.Proofs.MountainRange

/-!
# Commitments are made of all shares

To make a commitment, the shares of a blob are cut off group by group from the front of what is
left, and pushed into a tree for each group. Nothing checks that there are enough shares for the
next group, or that none is left in the end. It is the widths of a mountain range that have to add
up, for every number of shares and every threshold, and the namespace of all leaves that has to be
the same.

* `mountainRange?_eq` – the widths are found without going below zero;
* `treeRoot_eq`, `groupRoot_eq` – leaves of one namespace **can all be pushed**, and are hashed in
  order;
* `groupRoots_eq` – no group is cut behind the end of the shares;
* `CutAlong` – groups as wide as a mountain range says: all shares, in groups that **begin at
  multiples of their width**;
* `commit_of_all_shares` – a commitment is made for exactly the blobs that are valid, and of exactly
  their shares.
-/

namespace Availability

namespace Guarded

/-! ### Mountain ranges -/

/-- The widths of the subtrees for what is left of the leaves. -/
def mountainRange (largest total : Nat) : Except Stop (Option (List Nat)) :=
  if total = 0 then .ok (some [])
  else
    match if largest ≤ total then some largest else roundDown? total with
    | none => .ok none
    | some width => do
      let rest ← sub total width
      ensure (rest < total) .endless fun _ => do
        return (← mountainRange largest rest).map (width :: ·)
termination_by total

/-- The widths of subtrees that hold `total` leaves. -/
def mountainRange? (total largest : Nat) : Except Stop (Option (List Nat)) :=
  if largest = 0 then .ok none else mountainRange largest total

/-- What is left of the leaves becomes less with every subtree, and never less than nothing. -/
theorem mountainRange_eq {largest : Nat} (hlargest : largest ≠ 0) (total : Nat) :
    mountainRange largest total = .ok (some (Availability.mountainRange largest total)) := by
  induction total using Nat.strong_induction_on with
  | _ total ih =>
    rw [mountainRange, Availability.mountainRange]
    by_cases hzero : total = 0
    · rw [if_pos hzero, dif_pos (.inl hzero)]
    · have hwidth : (if largest ≤ total then some largest else roundDown? total) =
          some (if largest ≤ total then largest else 1 <<< total.log2) := by
        rw [roundDown?, if_neg hzero, apply_ite some]
      -- what is taken off is neither more than there is nor nothing
      have hlog : 1 <<< total.log2 ≤ total ∧ 0 < 1 <<< total.log2 := by
        rw [Nat.one_shiftLeft]
        exact ⟨Nat.log2_self_le hzero, Nat.two_pow_pos _⟩
      have hle : (if largest ≤ total then largest else 1 <<< total.log2) ≤ total := by
        split
        case isTrue h => exact h
        case isFalse => exact hlog.1
      have hpos : 0 < if largest ≤ total then largest else 1 <<< total.log2 := by
        split
        case isTrue => exact Nat.pos_of_ne_zero hlargest
        case isFalse => exact hlog.2
      rw [if_neg hzero, dif_neg (not_or_intro hzero hlargest), hwidth]
      change (sub total _ >>= _) = _
      rw [sub_eq hle, Checked.ok_bind, ensure_of (by omega), ih _ (by omega)]
      rfl

/-- **Finding the widths never breaks a run.** -/
theorem mountainRange?_eq (total largest : Nat) :
    mountainRange? total largest = .ok (Availability.mountainRange? total largest) := by
  rw [mountainRange?, Availability.mountainRange?]
  by_cases hzero : largest = 0
  · rw [if_pos hzero, if_pos hzero]
  · rw [if_neg hzero, if_neg hzero, mountainRange_eq hzero]

/-! ### The roots of groups -/

/-- The root of the namespaced tree over some leaves. -/
def treeRoot (leaves : List Nmt.Leaf) : Except Stop NamespacedHash :=
  if leaves.length = 0 then .ok .empty
  else if leaves.length = 1 then
    ensure (leaves ≠ []) .outside fun h => .ok (.ofLeaf (leaves.head h).ns (leaves.head h).data)
  else do
    let k ← splitPoint leaves.length
    ensure (k ≤ leaves.length) .outside fun _ =>
      ensure (0 < k ∧ k < leaves.length) .endless fun _ => do
        let left ← treeRoot (leaves.take k)
        let right ← treeRoot (leaves.drop k)
        hashNodes true left right
termination_by leaves.length
decreasing_by
  all_goals
    simp only [List.length_take, List.length_drop]
    omega

/-- Pushes shares into a tree, all with one namespace. -/
def pushShares (ns : Namespace) (tree : Nmt) (shares : List Share) : Except Stop Nmt :=
  shares.foldlM (fun tree share =>
    (tree.push ⟨ns, share.bytes⟩).mapError fun fault => .refused (.malformed fault)) tree

/-- The root of the tree over a group. -/
def groupRoot (ns : Namespace) (group : List Share) : Except Stop NamespacedHash := do
  treeRoot (← pushShares ns .empty group).leaves

/-- The roots of the trees over the groups, which are cut off one after the other. -/
def groupRoots (ns : Namespace) : (sizes : List Nat) → List Share →
    Except Stop (List NamespacedHash)
  | [], _ => .ok []
  | size :: sizes, shares => do
    let (group, rest) ← ensure (size ≤ shares.length) .outside fun _ =>
      .ok (shares.take size, shares.drop size)
    let root ← groupRoot ns group
    return root :: (← groupRoots ns sizes rest)

/-- **Leaves of one namespace are hashed in order.** -/
theorem treeRoot_eq {ns : Namespace} {leaves : List Nmt.Leaf} (h : ∀ leaf ∈ leaves, leaf.ns = ns) :
    treeRoot leaves = .ok (Nmt.rootOver leaves) := by
  induction hlength : leaves.length using Nat.strong_induction_on generalizing leaves with
  | _ n ih =>
    subst hlength
    rw [treeRoot]
    rcases Nat.lt_or_ge leaves.length 2 with hsmall | htwo
    · rcases leaves with _ | ⟨leaf, rest⟩
      · rw [if_pos List.length_nil]
        exact congrArg Except.ok (Merkle.combine_nil _ _).symm
      · obtain rfl : rest = [] :=
          List.eq_nil_of_length_eq_zero (by rw [List.length_cons] at hsmall; omega)
        rw [if_neg (by simp), if_pos List.length_singleton, ensure_of (List.cons_ne_nil _ _),
          Nmt.rootOver_singleton]
        rfl
    · have hpos := Merkle.splitPoint_pos htwo
      have hlt := Merkle.splitPoint_lt htwo
      have hleft : ∀ leaf ∈ leaves.take (Merkle.splitPoint leaves.length), leaf.ns = ns :=
        fun leaf hmem => h leaf (List.mem_of_mem_take hmem)
      have hright : ∀ leaf ∈ leaves.drop (Merkle.splitPoint leaves.length), leaf.ns = ns :=
        fun leaf hmem => h leaf (List.mem_of_mem_drop hmem)
      -- the one namespace of all leaves is between the two nodes
      have horder : (Nmt.rootOver (leaves.take (Merkle.splitPoint leaves.length))).max ≤
          (Nmt.rootOver (leaves.drop (Merkle.splitPoint leaves.length))).min := by
        refine (Nmt.rootOver_max_le ?_ fun leaf hmem => (hleft leaf hmem).le).trans
          (Nmt.le_rootOver_min ?_ fun leaf hmem => (hright leaf hmem).ge)
        · exact List.ne_nil_of_length_pos (by rw [List.length_take]; omega)
        · exact List.ne_nil_of_length_pos (by rw [List.length_drop]; omega)
      rw [if_neg (by omega), if_neg (by omega), splitPoint_eq, Nmt.rootOver_of_two_le htwo]
      change ensure _ _ _ = _
      rw [ensure_of hlt.le, ensure_of ⟨hpos, hlt⟩,
        ih _ (by rw [List.length_take]; omega) hleft rfl, Checked.ok_bind,
        ih _ (by rw [List.length_drop]; omega) hright rfl, Checked.ok_bind, hashNodes,
        ensure_of horder]

/-- **Leaves of one namespace can all be pushed.** -/
theorem exists_pushShares_eq_ok {ns : Namespace} {tree : Nmt}
    (h : ∀ leaf ∈ tree.leaves, leaf.ns = ns) (shares : List Share) :
    ∃ tree', pushShares ns tree shares = .ok tree' ∧
      tree'.leaves = tree.leaves ++ groupLeaves ns shares := by
  induction shares generalizing tree with
  | nil => exact ⟨tree, rfl, (List.append_nil _).symm⟩
  | cons share shares ih =>
    have hall : ∀ leaf ∈ tree.leaves ++ [⟨ns, share.bytes⟩], leaf.ns = ns := by
      intro leaf hmem
      rcases List.mem_append.mp hmem with hmem | hmem
      · exact h leaf hmem
      · rw [List.mem_singleton.mp hmem]
    obtain ⟨pushed, hpush⟩ := Nmt.exists_ofLeaves_eq_ok
      (List.pairwise_of_forall_mem_list fun a ha b hb => ((hall a ha).trans (hall b hb).symm).le)
    have hleaves : pushed.leaves = tree.leaves ++ [⟨ns, share.bytes⟩] :=
      Nmt.ofLeaves_eq_ok_iff.mp hpush
    obtain ⟨tree', hrest, hall'⟩ := ih (show ∀ leaf ∈ pushed.leaves, leaf.ns = ns by rwa [hleaves])
    refine ⟨tree', ?_, ?_⟩
    · rw [pushShares, List.foldlM_cons, Nmt.push, hpush]
      exact hrest
    · rw [hall', hleaves, List.append_assoc]
      rfl

theorem groupRoot_eq (ns : Namespace) (group : List Share) :
    groupRoot ns group = .ok (Nmt.rootOver (groupLeaves ns group)) := by
  obtain ⟨tree, hpush, hleaves⟩ : ∃ tree, pushShares ns .empty group = .ok tree ∧
      tree.leaves = groupLeaves ns group :=
    exists_pushShares_eq_ok (List.forall_mem_nil _) group
  have hns : ∀ leaf ∈ groupLeaves ns group, leaf.ns = ns := by
    intro leaf hmem
    obtain ⟨share, -, rfl⟩ := List.mem_map.mp hmem
    rfl
  rw [groupRoot, hpush, Checked.ok_bind, hleaves]
  exact treeRoot_eq hns

/-- **No group is cut behind the end of the shares**, when there are enough of them. -/
theorem groupRoots_eq (ns : Namespace) {sizes : List Nat} {shares : List Share}
    (h : sizes.sum ≤ shares.length) :
    groupRoots ns sizes shares = .ok (Availability.groupRoots ns (cut sizes shares)) := by
  induction sizes generalizing shares with
  | nil => rfl
  | cons size sizes ih =>
    rw [List.sum_cons] at h
    rw [groupRoots, ensure_of (by omega), Checked.ok_bind]
    change (groupRoot ns (shares.take size) >>= _) = _
    rw [groupRoot_eq, Checked.ok_bind, ih (by rw [List.length_drop]; omega)]
    rfl

/-! ### The commitment -/

/-- The roots of the subtrees over some shares. -/
def subtreeRoots (ns : Namespace) (shares : List Share) (threshold : Nat) :
    Except Stop (List NamespacedHash) := do
  let some width ← subtreeWidth? shares.length threshold
    | throw (.refused (.malformed (.threshold threshold)))
  let some sizes ← mountainRange? shares.length width
    | throw (.refused (.malformed (.subtreeWidth width)))
  groupRoots ns sizes shares

/-- The commitment to a blob. -/
def commit (ns : Namespace) (data : Bytes) (version : UInt8) (threshold : Nat) :
    Except Stop Commitment := do
  (validateBlob ns data version).mapError .refused
  let (_, splitter) ← (write ns version data).on .empty
  let roots ← subtreeRoots ns splitter.shares threshold
  root (roots.map NamespacedHash.toBytes)

/-- **All shares are used up** when their subtrees are hashed, and no more than there are. -/
theorem subtreeRoots_eq (ns : Namespace) {shares : List Share} (hs : shares.length ≤ 2 ^ 63)
    (threshold : Nat) :
    subtreeRoots ns shares threshold =
      (Availability.subtreeRoots ns shares threshold).mapError .refused := by
  rw [subtreeRoots, subtreeWidth?_eq (hs.trans_lt (by decide)), Checked.ok_bind]
  rcases eq_or_ne threshold 0 with rfl | ht
  · rw [Availability.subtreeRoots, Availability.subtreeWidth?]
    rfl
  · obtain ⟨k, hwidth, hgroups⟩ := exists_shareGroups_eq hs ht
    have hsizes : Availability.mountainRange? shares.length (2 ^ k) =
        some (Availability.mountainRange (2 ^ k) shares.length) :=
      if_neg (Nat.two_pow_pos k).ne'
    have hroots : Availability.subtreeRoots ns shares threshold = .ok _ :=
      (subtreeRoots_eq_ok_iff hs).mpr ⟨ht, rfl⟩
    rw [hroots, hwidth, hgroups]
    change (mountainRange? shares.length (2 ^ k) >>= _) = _
    rw [mountainRange?_eq, hsizes]
    exact groupRoots_eq ns (sum_mountainRange k shares.length).le

/-- **Making a commitment never breaks a run**, whatever the blob and the threshold are. -/
theorem commit_eq (ns : Namespace) (data : Bytes) (version : UInt8) (threshold : Nat) :
    commit ns data version threshold =
      (Availability.commit ns data version threshold).mapError .refused := by
  rw [commit, Availability.commit]
  cases hvalid : validateBlob ns data version with
  | error error => rfl
  | ok =>
    have hwrite := write_of_validateBlob hvalid
    have hrun := run_write ns version data .empty
    rw [hwrite] at hrun
    rw [hwrite, Checked.ok_bind, Checked.ok_bind]
    change ((write ns version data).on .empty >>= _) = _
    rw [on_of_ok hrun, Checked.ok_bind]
    change (subtreeRoots ns (Share.split ns version data) threshold >>= _) = _
    rw [subtreeRoots_eq ns (length_split_le_two_pow hvalid)]
    cases Availability.subtreeRoots ns (Share.split ns version data) threshold with
    | error error => rfl
    | ok roots => exact root_eq _

end Guarded

/-! ### The groups of shares -/

section Cut

variable {α : Type}

theorem map_length_cut {sizes : List Nat} {xs : List α} (h : sizes.sum ≤ xs.length) :
    (cut sizes xs).map List.length = sizes := by
  induction sizes generalizing xs with
  | nil => rfl
  | cons size sizes ih =>
    rw [List.sum_cons] at h
    rw [cut, List.map_cons, List.length_take_of_le (by omega),
      ih (by rw [List.length_drop]; omega)]

end Cut

/-- **Shares in groups** for trees that are no wider than some width. -/
structure CutAlong (width : Nat) (shares : List Share) (groups : List (List Share)) : Prop where
  /-- The groups are all shares, in order. -/
  flatten_eq : groups.flatten = shares
  /-- No group is empty. -/
  ne_nil : ∀ group ∈ groups, group ≠ []
  /-- The number of shares in a group is a power of two. -/
  exists_length_eq : ∀ group ∈ groups, ∃ i, group.length = 2 ^ i
  /-- No group is too wide. -/
  length_le : ∀ group ∈ groups, group.length ≤ width
  /-- Groups do not become wider. -/
  pairwise_le : groups.Pairwise fun before group => group.length ≤ before.length
  /-- A group begins at a multiple of its width. -/
  length_dvd : ∀ before group after, groups = before ++ group :: after →
    group.length ∣ before.flatten.length

/-- Shares that are cut along a mountain range. -/
theorem cutAlong_mountainRange (k : Nat) (shares : List Share) :
    CutAlong (2 ^ k) shares (cut (mountainRange (2 ^ k) shares.length) shares) := by
  have hsum := sum_mountainRange k shares.length
  have hlengths := map_length_cut hsum.le
  have hmem : ∀ group ∈ cut (mountainRange (2 ^ k) shares.length) shares,
      ∃ i ≤ k, group.length = 2 ^ i := by
    intro group hgroup
    refine exists_of_mem_mountainRange (n := shares.length) ?_
    rw [← hlengths]
    exact List.mem_map_of_mem hgroup
  have hdvd : (cut (mountainRange (2 ^ k) shares.length) shares).Pairwise fun before group =>
      group.length ∣ before.length := by
    have hsizes := pairwise_dvd_mountainRange k shares.length
    rwa [← hlengths, List.pairwise_map] at hsizes
  have hne : ∀ group ∈ cut (mountainRange (2 ^ k) shares.length) shares, group ≠ [] :=
    fun group hgroup => ne_nil_of_mem_cut hsum (fun size => pos_of_mem_mountainRange) hgroup
  constructor
  case flatten_eq => exact flatten_cut hsum
  case ne_nil => exact hne
  case exists_length_eq =>
    intro group hgroup
    obtain ⟨i, -, hi⟩ := hmem group hgroup
    exact ⟨i, hi⟩
  case length_le =>
    intro group hgroup
    obtain ⟨i, hik, hi⟩ := hmem group hgroup
    rw [hi]
    exact Nat.pow_le_pow_right Nat.two_pos hik
  case pairwise_le =>
    refine hdvd.imp_of_mem fun hbefore _ h => Nat.le_of_dvd ?_ h
    exact List.length_pos_iff.mpr (hne _ hbefore)
  case length_dvd =>
    -- the offset is the sum of the groups before it, all of which are multiples of the width
    intro before group after hgroups
    rw [hgroups, List.pairwise_append] at hdvd
    rw [List.length_flatten]
    refine List.dvd_sum fun length hlength => ?_
    obtain ⟨other, hother, rfl⟩ := List.mem_map.mp hlength
    exact hdvd.2.2 other hother group List.mem_cons_self

/-- What a commitment is refused for: the parts of the blob, or a threshold of zero. -/
theorem of_commit_eq_error {ns : Namespace} {data : Bytes} {version : UInt8} {threshold : Nat}
    {error : Error} (h : commit ns data version threshold = .error error) :
    validateBlob ns data version = .error error ∨
      threshold = 0 ∧ error = .malformed (.threshold 0) := by
  cases hvalid : validateBlob ns data version with
  | error cause =>
    rw [commit, hvalid] at h
    cases h
    exact .inl rfl
  | ok =>
    rcases eq_or_ne threshold 0 with rfl | ht
    · rw [commit, hvalid, write_of_validateBlob hvalid, Checked.ok_bind, Checked.ok_bind,
        subtreeRoots, subtreeWidth?] at h
      cases h
      exact .inr ⟨rfl, rfl⟩
    · cases h.symm.trans (commit_eq_ok_iff.mpr ⟨hvalid, ht, rfl⟩)

/-- **A commitment is made of all shares of a valid blob.** It is made on a machine just as it is
made here, so that no step of it can break: there is one exactly when the data is neither empty nor
too long, the namespace is one for blobs, the version of the shares is known and the threshold is
not zero. It is refused for nothing else, and never for a leaf that could not be pushed. The groups
that are hashed for it are cut along the mountain range of the shares. -/
theorem commit_of_all_shares (ns : Namespace) (data : Bytes) (version : UInt8) (threshold : Nat) :
    Guarded.commit ns data version threshold =
        (commit ns data version threshold).mapError .refused ∧
      ((∃ c, commit ns data version threshold = .ok c) ↔
        1 ≤ data.length ∧ data.length ≤ maxBlobSize ∧ ns.validateForBlob = .ok () ∧
          version ∈ Share.supportedVersions ∧ 1 ≤ threshold) ∧
      (∀ error, commit ns data version threshold = .error error →
        validateBlob ns data version = .error error ∨
          threshold = 0 ∧ error = .malformed (.threshold 0)) ∧
      ∀ c, commit ns data version threshold = .ok c →
        ∃ width sizes, subtreeWidth? (Share.split ns version data).length threshold = some width ∧
          mountainRange? (Share.split ns version data).length width = some sizes ∧
          CutAlong width (Share.split ns version data) (cut sizes (Share.split ns version data)) ∧
          c = commitmentOf (groupRoots ns (cut sizes (Share.split ns version data))) := by
  refine ⟨Guarded.commit_eq ns data version threshold, ?_, fun _ => of_commit_eq_error, ?_⟩
  · simp only [commit_eq_ok_iff, validateBlob_eq_ok_iff, ← List.length_pos_iff, exists_and_left,
      exists_eq, and_true, and_assoc, Nat.one_le_iff_ne_zero, Nat.pos_iff_ne_zero]
  · intro c hcommit
    obtain ⟨hvalid, ht, rfl⟩ := commit_eq_ok_iff.mp hcommit
    obtain ⟨k, hwidth, hgroups⟩ := exists_shareGroups_eq (length_split_le_two_pow hvalid) ht
    refine ⟨2 ^ k, _, hwidth, if_neg (Nat.two_pow_pos k).ne', cutAlong_mountainRange k _, ?_⟩
    rw [hgroups]

end Availability
