import Availability.Proofs.Nmt.Tree
import Availability.Proofs.Share.Split
import Availability.Proofs.Width

/-!
# Commitments bind blobs

A commitment is made of a blob in three layers: the data is framed in shares, the shares are grouped
under namespaced trees, and the roots of these are the leaves of a plain tree. Each layer tells what
it was made of. How the shares are grouped does not have to be known for this: the number of shares
may be another one on the other side, and with it the width of the subtrees.

* `validateBlob_eq_ok_iff`, `length_split_le` – what is known of the parts of a blob;
* `flatten_cut`, `ne_nil_of_mem_cut` – cutting a list along a mountain range loses nothing;
* `shareGroups`, `groupRoots` – the groups of the shares of a blob, and their roots;
* `commit_eq_ok_iff` – **when there is a commitment, and which one it is**;
* `commitTexts` – all strings that are hashed for a commitment;
* `commit_binding` – blobs with the same commitment are the same.
-/

namespace Availability

/-! ### The parts of a blob -/

/-- What makes a blob: data that is neither empty nor too long, in a namespace for blobs and in a
version of shares that is known. -/
theorem validateBlob_eq_ok_iff {ns : Namespace} {data : Bytes} {version : UInt8} :
    validateBlob ns data version = .ok () ↔
      data ≠ [] ∧ data.length ≤ maxBlobSize ∧ ns.validateForBlob = .ok () ∧
        version ∈ Share.supportedVersions := by
  simp only [validateBlob, Checked.throw_bind, Checked.bind_eq_ok_iff, Checked.exists_unit_iff,
    Checked.ite_throw_eq_ok_iff, Checked.pure_eq_ok_iff, List.isEmpty_iff, Nat.not_lt, not_not,
    and_true]

section Parts

variable {ns : Namespace} {data : Bytes} {version : UInt8}
  (h : validateBlob ns data version = .ok ())
include h

/-- The length of the data of a blob can be written in a share. -/
theorem length_lt_of_validateBlob : data.length < UInt32.size :=
  (validateBlob_eq_ok_iff.mp h).2.1.trans_lt (by decide)

/-- The version of the shares of a blob fits into the info byte. -/
theorem version_le_of_validateBlob : version ≤ InfoByte.maxVersion := by
  have hversion : version ∈ [0] := (validateBlob_eq_ok_iff.mp h).2.2.2
  rw [List.mem_singleton.mp hversion]
  decide

/-- A blob can be written in shares. -/
theorem write_of_validateBlob :
    ShareSplitter.empty.write ns version data = .ok ⟨Share.split ns version data⟩ := by
  have hversion := (validateBlob_eq_ok_iff.mp h).2.2.2
  rw [ShareSplitter.write, if_neg (not_not.mpr hversion),
    if_neg (not_le.mpr (length_lt_of_validateBlob h))]
  rfl

/-- The shares of the longest blob are one more than a square of width 64 has: each of them was
counted as one that does not start a sequence. -/
theorem length_split_le : (Share.split ns version data).length ≤ 64 * 64 + 1 := by
  obtain ⟨-, hlen, hns, -⟩ := validateBlob_eq_ok_iff.mp h
  rw [Share.length_split (Namespace.not_isCompact hns), sharesNeeded]
  rw [maxBlobSize] at hlen
  split <;> omega

/-- The shares of a blob are few enough for the widths of their subtrees to be computed. -/
theorem length_split_le_two_pow : (Share.split ns version data).length ≤ 2 ^ 63 :=
  (length_split_le h).trans (by norm_num)

end Parts

/-! ### Cutting a list -/

section Cut

variable {α β : Type}

theorem cut_map (f : α → β) (sizes : List Nat) (xs : List α) :
    cut sizes (xs.map f) = (cut sizes xs).map (List.map f) := by
  induction sizes generalizing xs with
  | nil => rfl
  | cons size sizes ih => simp only [cut, List.map_cons, List.map_take, ← List.map_drop, ih]

theorem length_cut (sizes : List Nat) (xs : List α) : (cut sizes xs).length = sizes.length := by
  induction sizes generalizing xs with
  | nil => rfl
  | cons size sizes ih => rw [cut, List.length_cons, ih, List.length_cons]

/-- Cutting may be done in two steps. -/
theorem cut_append (sizes more : List Nat) (xs : List α) :
    cut (sizes ++ more) xs = cut sizes xs ++ cut more (xs.drop sizes.sum) := by
  induction sizes generalizing xs with
  | nil => rfl
  | cons size sizes ih =>
    rw [List.cons_append, cut, cut, ih, List.drop_drop, List.sum_cons, List.cons_append]

/-- What comes after the groups does not matter. -/
theorem cut_take {sizes : List Nat} {n : Nat} (h : sizes.sum ≤ n) (xs : List α) :
    cut sizes (xs.take n) = cut sizes xs := by
  induction sizes generalizing n xs with
  | nil => rfl
  | cons size sizes ih =>
    rw [List.sum_cons] at h
    rw [cut, cut, List.take_take, min_eq_left (by omega), List.drop_take, ih (by omega)]

/-- The groups are all of the list, when there are as many places in them. -/
theorem flatten_cut {sizes : List Nat} {xs : List α} (h : sizes.sum = xs.length) :
    (cut sizes xs).flatten = xs := by
  induction sizes generalizing xs with
  | nil => exact (List.length_eq_zero_iff.mp h.symm).symm
  | cons size sizes ih =>
    rw [List.sum_cons] at h
    rw [cut, List.flatten_cons, ih (by rw [List.length_drop]; omega), List.take_append_drop]

/-- Groups with places in them have members. -/
theorem ne_nil_of_mem_cut {sizes : List Nat} {xs : List α} (h : sizes.sum = xs.length)
    (hpos : ∀ size ∈ sizes, 0 < size) {group : List α} (hmem : group ∈ cut sizes xs) :
    group ≠ [] := by
  induction sizes generalizing xs with
  | nil => simp [cut] at hmem
  | cons size sizes ih =>
    rw [List.sum_cons] at h
    rw [cut, List.mem_cons] at hmem
    rcases hmem with rfl | hmem
    · have := hpos size (by simp)
      refine List.ne_nil_of_length_pos ?_
      rw [List.length_take]
      omega
    · refine ih (by rw [List.length_drop]; omega) (fun s hs => hpos s (by simp [hs])) hmem

end Cut

/-! ### The groups of a blob -/

/-- The shares of a blob in groups, one for each subtree. -/
def shareGroups (shares : List Share) (threshold : Nat) : List (List Share) :=
  match subtreeWidth? shares.length threshold with
  | none => []
  | some width => cut (mountainRange width shares.length) shares

/-- The leaves of the namespaced tree over some shares of a namespace. -/
def groupLeaves (ns : Namespace) (shares : List Share) : List Nmt.Leaf :=
  shares.map fun share => ⟨ns, share.bytes⟩

/-- The roots of the trees over the groups. -/
def groupRoots (ns : Namespace) (groups : List (List Share)) : List NamespacedHash :=
  groups.map fun group => Nmt.rootOver (groupLeaves ns group)

theorem groupLeaves_injective (ns : Namespace) : Function.Injective (groupLeaves ns) := by
  refine List.map_injective_iff.mpr fun a b h => ?_
  obtain ⟨bytes, _⟩ := a
  obtain rfl : bytes = b.bytes := (Nmt.Leaf.mk.inj h).2
  rfl

theorem groupLeaves_flatten (ns : Namespace) (groups : List (List Share)) :
    groupLeaves ns groups.flatten = (groups.map (groupLeaves ns)).flatten :=
  List.map_flatten

/-- Leaves of one namespace are in order. -/
theorem groupRoot_eq (ns : Namespace) (shares : List Share) :
    groupRoot ns shares = .ok (Nmt.rootOver (groupLeaves ns shares)) := by
  obtain ⟨tree, htree⟩ := Nmt.exists_ofLeaves_eq_ok
    (show (groupLeaves ns shares).Pairwise fun a b => a.ns ≤ b.ns from
      List.pairwise_map.mpr (List.pairwise_of_forall fun _ _ => le_rfl))
  rw [groupRoot, ← groupLeaves, htree, ← Nmt.ofLeaves_eq_ok_iff.mp htree]
  rfl

section Groups

variable {shares : List Share} {threshold : Nat} (hs : shares.length ≤ 2 ^ 63)
include hs

/-- Every threshold but zero cuts the shares along a mountain range. -/
theorem exists_shareGroups_eq (ht : threshold ≠ 0) :
    ∃ k, subtreeWidth? shares.length threshold = some (2 ^ k) ∧
      shareGroups shares threshold = cut (mountainRange (2 ^ k) shares.length) shares := by
  obtain ⟨k, hk, -⟩ := exists_subtreeWidth? hs ht
  exact ⟨k, hk, by rw [shareGroups, hk]⟩

/-- **The groups are all shares, in order.** -/
theorem flatten_shareGroups (ht : threshold ≠ 0) :
    (shareGroups shares threshold).flatten = shares := by
  obtain ⟨k, -, hgroups⟩ := exists_shareGroups_eq hs ht
  rw [hgroups, flatten_cut (sum_mountainRange k shares.length)]

/-- Some shares have at least one group. -/
theorem groupRoots_shareGroups_ne_nil (ht : threshold ≠ 0) (hne : shares ≠ []) (ns : Namespace) :
    groupRoots ns (shareGroups shares threshold) ≠ [] := by
  intro h
  have hflatten := flatten_shareGroups hs ht
  rw [List.map_eq_nil_iff.mp h, List.flatten_nil] at hflatten
  exact hne hflatten.symm

/-- **No group is empty.** -/
theorem ne_nil_of_mem_shareGroups (ht : threshold ≠ 0) {group : List Share}
    (h : group ∈ shareGroups shares threshold) : group ≠ [] := by
  obtain ⟨k, -, hgroups⟩ := exists_shareGroups_eq hs ht
  rw [hgroups] at h
  exact ne_nil_of_mem_cut (sum_mountainRange k shares.length)
    (fun size hsize => pos_of_mem_mountainRange hsize) h

/-- The roots of the subtrees of some shares. -/
theorem subtreeRoots_eq_ok_iff {ns : Namespace} {roots : List NamespacedHash} :
    subtreeRoots ns shares threshold = .ok roots ↔
      threshold ≠ 0 ∧ roots = groupRoots ns (shareGroups shares threshold) := by
  rcases eq_or_ne threshold 0 with rfl | ht
  · simp [subtreeRoots, subtreeWidth?]
  · obtain ⟨k, hk, hgroups⟩ := exists_shareGroups_eq hs ht
    have hmap : (shareGroups shares threshold).mapM (groupRoot ns) =
        .ok (groupRoots ns (shareGroups shares threshold)) :=
      Checked.mapM_eq_ok_map fun group _ => groupRoot_eq ns group
    rw [hgroups] at hmap
    simp only [subtreeRoots, hk, mountainRange?, if_neg (Nat.two_pow_pos k).ne', hmap, hgroups,
      groupRoots, Except.ok.injEq, ne_eq, ht, not_false_iff, true_and]
    exact eq_comm

end Groups

/-- A single share is a group by itself. -/
theorem shareGroups_singleton (share : Share) {threshold : Nat} (ht : threshold ≠ 0) :
    shareGroups [share] threshold = [[share]] := by
  obtain ⟨k, hk, hle⟩ := exists_subtreeWidth? (show 1 ≤ 2 ^ 63 by norm_num) ht
  obtain rfl : k = 0 := by
    have hsqrt : ceilSqrt 1 = 1 := ceilSqrt_mul_self 1
    rw [hsqrt, Nat.clog_one_right] at hle
    exact Nat.le_zero.mp ((Nat.pow_le_pow_iff_right (by norm_num)).mp hle)
  have hrange : mountainRange (2 ^ 0) 1 = [1] := by
    rw [mountainRange_cons 0 one_ne_zero, Nat.zero_min, pow_zero, Nat.sub_self, mountainRange_zero]
  simp only [shareGroups, List.length_singleton, hk, hrange]
  rfl

/-! ### The commitment -/

/-- **Every blob has a commitment** for every threshold but zero, and nothing else has one. -/
theorem commit_eq_ok_iff {ns : Namespace} {data : Bytes} {version : UInt8} {threshold : Nat}
    {c : Commitment} :
    commit ns data version threshold = .ok c ↔
      validateBlob ns data version = .ok () ∧ threshold ≠ 0 ∧
        c = commitmentOf (groupRoots ns (shareGroups (Share.split ns version data) threshold)) := by
  simp only [commit, Checked.bind_eq_ok_iff, Checked.exists_unit_iff, Checked.pure_eq_ok_iff]
  constructor
  · rintro ⟨hvalid, splitter, hwrite, roots, hroots, rfl⟩
    obtain rfl := Except.ok.inj ((write_of_validateBlob hvalid).symm.trans hwrite)
    have hs := length_split_le_two_pow hvalid
    obtain ⟨ht, rfl⟩ := (subtreeRoots_eq_ok_iff hs).mp hroots
    exact ⟨hvalid, ht, rfl⟩
  · rintro ⟨hvalid, ht, rfl⟩
    have hs := length_split_le_two_pow hvalid
    exact ⟨hvalid, _, write_of_validateBlob hvalid, _,
      (subtreeRoots_eq_ok_iff hs).mpr ⟨ht, rfl⟩, rfl⟩

/-- The strings that are hashed for the root over the roots of some groups. -/
def groupTexts (ns : Namespace) (groups : List (List Share)) : List Bytes :=
  (groups.flatMap fun group => Nmt.texts (groupLeaves ns group)) ++
    Merkle.texts ((groupRoots ns groups).map NamespacedHash.toBytes)

/-- **The strings that are hashed for a commitment.** -/
def commitTexts (ns : Namespace) (data : Bytes) (version : UInt8) (threshold : Nat) : List Bytes :=
  groupTexts ns (shareGroups (Share.split ns version data) threshold)

/-- Subtree roots with the same commitment are the same, unless two of the hashed strings
collide. -/
theorem eq_of_commitmentOf_eq {all : List Bytes} (free : ¬Collides all)
    {roots roots' : List NamespacedHash}
    (hr : Merkle.texts (roots.map NamespacedHash.toBytes) ⊆ all)
    (hr' : Merkle.texts (roots'.map NamespacedHash.toBytes) ⊆ all)
    (h : commitmentOf roots = commitmentOf roots') : roots = roots' :=
  List.map_injective_iff.mpr NamespacedHash.toBytes_injective
    (Merkle.leaves_eq_of_root_eq free hr hr' h)

/-- The leaves of all groups are told by the commitment, group by group, unless two of the hashed
strings collide. -/
theorem map_groupLeaves_eq {all : List Bytes} (free : ¬Collides all) {ns ns' : Namespace}
    {groups groups' : List (List Share)} (hg : groupTexts ns groups ⊆ all)
    (hg' : groupTexts ns' groups' ⊆ all)
    (h : commitmentOf (groupRoots ns groups) = commitmentOf (groupRoots ns' groups')) :
    groups.map (groupLeaves ns) = groups'.map (groupLeaves ns') := by
  have hsplit := List.append_subset.mp hg
  have hsplit' := List.append_subset.mp hg'
  have hroots := eq_of_commitmentOf_eq free hsplit.2 hsplit'.2 h
  refine Nmt.eq_of_map_rootOver_eq free ?_ ?_ ?_
  · rw [List.flatMap_map]
    exact hsplit.1
  · rw [List.flatMap_map]
    exact hsplit'.1
  · rw [List.map_map, List.map_map]
    exact hroots

/-- **A commitment binds its blob**: whatever the thresholds are, two blobs with the same commitment
have the same namespace, data and share version, unless two of the strings that were hashed for them
collide. -/
theorem commit_binding {ns ns' : Namespace} {data data' : Bytes} {version version' : UInt8}
    {threshold threshold' : Nat} {c : Commitment}
    (h : commit ns data version threshold = .ok c)
    (h' : commit ns' data' version' threshold' = .ok c) :
    Collides (commitTexts ns data version threshold ++ commitTexts ns' data' version' threshold') ∨
      ns = ns' ∧ data = data' ∧ version = version' := by
  rw [or_iff_not_imp_left]
  intro free
  obtain ⟨hvalid, ht, rfl⟩ := commit_eq_ok_iff.mp h
  obtain ⟨hvalid', ht', hc⟩ := commit_eq_ok_iff.mp h'
  have hs := length_split_le_two_pow hvalid
  have hs' := length_split_le_two_pow hvalid'
  -- down to the leaves; the groups are forgotten
  have hleaves : groupLeaves ns (Share.split ns version data) =
      groupLeaves ns' (Share.split ns' version' data') := by
    have hgroups := map_groupLeaves_eq free (List.subset_append_left _ _)
      (List.subset_append_right _ _) hc
    have hflat := congrArg List.flatten hgroups
    rwa [← groupLeaves_flatten, ← groupLeaves_flatten, flatten_shareGroups hs ht,
      flatten_shareGroups hs' ht'] at hflat
  obtain ⟨first, rest, hsplit, -⟩ := Share.sequenceLength?_head ns version data
  obtain ⟨first', rest', hsplit', -⟩ := Share.sequenceLength?_head ns' version' data'
  obtain rfl : ns = ns' := by
    rw [hsplit, hsplit'] at hleaves
    exact (Nmt.Leaf.mk.inj (List.cons.inj hleaves).1).1
  have hshares := groupLeaves_injective ns hleaves
  refine ⟨rfl, Share.split_injective (length_lt_of_validateBlob hvalid)
    (length_lt_of_validateBlob hvalid') hshares, ?_⟩
  obtain ⟨-, isStart, hinfo⟩ := Share.of_mem_split (hsplit ▸ List.mem_cons_self : first ∈ _)
  obtain ⟨-, isStart', hinfo'⟩ := Share.of_mem_split (hshares ▸ hsplit ▸ List.mem_cons_self :
    first ∈ Share.split ns version' data')
  rw [← InfoByte.version_of (version_le_of_validateBlob hvalid) isStart, ← hinfo, hinfo',
    InfoByte.version_of (version_le_of_validateBlob hvalid')]

/-- A blob of a single byte, committed to with two thresholds. It is a single share, so the
commitment is the same. -/
theorem commit_binding_byte :
    ∃ c, (commit (.ofSuffix [1, 0]) [7] 0 1 = .ok c ∧ commit (.ofSuffix [1, 0]) [7] 0 64 = .ok c) ∧
      (Collides
        (commitTexts (.ofSuffix [1, 0]) [7] 0 1 ++ commitTexts (.ofSuffix [1, 0]) [7] 0 64) ∨
        Namespace.ofSuffix [1, 0] = .ofSuffix [1, 0] ∧ ([7] : Bytes) = [7] ∧ (0 : UInt8) = 0) := by
  obtain ⟨share, hshare⟩ := Share.exists_split_eq_singleton
    (show (Namespace.ofSuffix [1, 0]).isCompact = false by decide) 0
    (show ([7] : Bytes).length < 478 by decide)
  have hcommit (threshold : Nat) (ht : threshold ≠ 0) :
      commit (.ofSuffix [1, 0]) [7] 0 threshold =
        .ok (commitmentOf (groupRoots (.ofSuffix [1, 0]) [[share]])) :=
    commit_eq_ok_iff.mpr ⟨by decide, ht, by rw [hshare, shareGroups_singleton share ht]⟩
  have h₁ := hcommit 1 (by decide)
  have h₆₄ := hcommit 64 (by decide)
  exact ⟨_, ⟨h₁, h₆₄⟩, commit_binding h₁ h₆₄⟩

end Availability
