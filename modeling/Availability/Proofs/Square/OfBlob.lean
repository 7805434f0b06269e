import Availability.Proofs.Blob.Proof
import Availability.Square.OfBlob

/-!
# The proof of a blob in its own square

The proof of a blob is made in one way and checked in another. Whoever makes it cuts all shares
along a mountain range; whoever checks it sees one row after the other, and splits the subtrees of
each row anew. That both find the same subtrees holds row by row; what is left is that the rows of
the square of a blob begin with its shares, and that the last of them is filled with something
larger.

* `pieces_of_ne_nil`, `length_pieces`, `flatten_pieces`, `column_sublist` – rows and columns of a
  list;
* `prove_eq_proveRange` – the proof of a namespace at the front of a row is that of a range;
* `rowsProven` – the rows of the square prove the blob, **by induction on the rows**;
* `exists_header` – all lines of the square are in order, so it has a header;
* `make_eq_ok` – every blob has a square and a proof in it that verifies;
* `verify_make` – and that is refused for any other commitment or data root.
-/

namespace Availability.BlobSquare

open CommitmentProof (RowsProven)

/-! ### Rows and columns -/

section Pieces

variable {α : Type} {size : Nat}

@[simp] theorem pieces_nil (size : Nat) : pieces size ([] : List α) = [] := by
  rw [pieces, dif_pos (Or.inr rfl)]

theorem pieces_of_ne_nil (hsize : size ≠ 0) {xs : List α} (h : xs ≠ []) :
    pieces size xs = xs.take size :: pieces size (xs.drop size) := by
  rw [pieces, dif_neg (not_or.mpr ⟨hsize, h⟩)]

/-- The pieces are all of the list, in order. -/
theorem flatten_pieces (hsize : size ≠ 0) (xs : List α) : (pieces size xs).flatten = xs := by
  induction xs using pieces.induct size with
  | case1 xs h =>
    obtain rfl := h.resolve_left hsize
    rw [pieces_nil, List.flatten_nil]
  | case2 xs h ih =>
    rw [pieces_of_ne_nil hsize (not_or.mp h).2, List.flatten_cons, ih, List.take_append_drop]

theorem length_pieces (hsize : size ≠ 0) {count : Nat} {xs : List α}
    (h : xs.length = count * size) : (pieces size xs).length = count := by
  induction count generalizing xs with
  | zero =>
    obtain rfl := List.length_eq_zero_iff.mp (h.trans (Nat.zero_mul size))
    rw [pieces_nil, List.length_nil]
  | succ count ih =>
    rw [Nat.succ_mul] at h
    rw [pieces_of_ne_nil hsize (List.ne_nil_of_length_pos (by omega)), List.length_cons,
      ih (by rw [List.length_drop]; omega)]

/-- When the list has room for whole pieces only, all of them are whole. -/
theorem length_of_mem_pieces (hsize : size ≠ 0) {count : Nat} {xs piece : List α}
    (h : xs.length = count * size) (hpiece : piece ∈ pieces size xs) : piece.length = size := by
  induction count generalizing xs with
  | zero =>
    obtain rfl := List.length_eq_zero_iff.mp (h.trans (Nat.zero_mul size))
    rw [pieces_nil] at hpiece
    exact absurd hpiece List.not_mem_nil
  | succ count ih =>
    rw [Nat.succ_mul] at h
    rw [pieces_of_ne_nil hsize (List.ne_nil_of_length_pos (by omega))] at hpiece
    rcases List.mem_cons.mp hpiece with rfl | hpiece
    · rw [List.length_take]
      omega
    · exact ih (by rw [List.length_drop]; omega) hpiece

/-- The members of a column stand in the same order as in the rows. -/
theorem column_sublist (rows : List (List α)) (column : Nat) :
    (rows.filterMap (·[column]?)).Sublist rows.flatten := by
  induction rows with
  | nil => exact List.Sublist.slnil
  | cons row rows ih =>
    rw [List.flatten_cons, List.filterMap_cons]
    split
    · exact ih.trans (List.sublist_append_right row rows.flatten)
    case h_2 x hx =>
      exact (List.singleton_sublist.mpr (List.mem_of_getElem? hx)).append ih

end Pieces

/-- The leaves of a line of shares. -/
def lineLeaves (shares : List Share) : List Nmt.Leaf :=
  shares.map fun share => ⟨share.ns, share.bytes⟩

theorem lineLeaves_append (shares more : List Share) :
    lineLeaves (shares ++ more) = lineLeaves shares ++ lineLeaves more :=
  List.map_append

/-- A line of shares in order has a tree. -/
theorem exists_treeOf_eq_ok {shares : List Share} (h : shares.Pairwise fun a b => a.ns ≤ b.ns) :
    ∃ tree, treeOf shares = .ok tree := by
  obtain ⟨tree, htree⟩ := Nmt.exists_ofLeaves_eq_ok
    (show (lineLeaves shares).Pairwise fun a b => a.ns ≤ b.ns from List.pairwise_map.mpr h)
  exact ⟨tree, Checked.mapError_eq_ok_iff.mpr htree⟩

theorem leaves_of_treeOf {shares : List Share} {tree : Nmt} (h : treeOf shares = .ok tree) :
    tree.leaves = lineLeaves shares :=
  Nmt.ofLeaves_eq_ok_iff.mp (Checked.mapError_eq_ok_iff.mp h)

/-- Lines in order have trees, each with the leaves of its line. -/
theorem exists_trees (lines : List (List Share))
    (h : ∀ line ∈ lines, line.Pairwise fun a b => a.ns ≤ b.ns) :
    ∃ trees, lines.mapM treeOf = .ok trees ∧ trees.map Nmt.leaves = lines.map lineLeaves := by
  obtain ⟨trees, htrees⟩ :=
    Checked.exists_mapM_eq_ok fun line hline => exists_treeOf_eq_ok (h line hline)
  exact ⟨trees, htrees, Checked.map_of_mapM_eq_ok htrees fun _ _ => leaves_of_treeOf⟩

/-- Shares of one namespace have the leaves of a group. -/
theorem lineLeaves_of_all {ns : Namespace} {shares : List Share}
    (h : ∀ share ∈ shares, share.ns = ns) : lineLeaves shares = groupLeaves ns shares :=
  List.map_congr_left fun share hshare => by rw [h share hshare]

/-! ### The range of a blob in a row -/

/-- A namespace for blobs is within the range of a root over some leaves that it has. -/
theorem contains_of_mem {ns : Namespace} (hns : ns.validateForBlob = .ok ())
    {leaves : List Nmt.Leaf} {leaf : Nmt.Leaf} (hmem : leaf ∈ leaves) (hleaf : leaf.ns = ns) :
    (Nmt.rootOver leaves).contains ns = true := by
  have hne : leaf.ns ≠ .parity := by
    rw [hleaf]
    exact Namespace.ne_parity hns
  have hmin := Nmt.rootOver_min_le hmem
  have hmax := Nmt.le_rootOver_max hmem hne
  rw [hleaf] at hmin hmax
  -- the root of the tree without leaves only shows a namespace that is not for blobs
  have hroot : Nmt.rootOver leaves ≠ .empty := by
    intro heq
    rw [heq] at hmax
    obtain ⟨-, hlt, -⟩ := Namespace.validateForBlob_eq_ok_iff.mp hns
    exact absurd (hlt.trans_le hmax) (by decide)
  simp [NamespacedHash.contains, hmin, hmax, hroot]

/-- **The proof of a namespace at the front of a row** is that of a range of leaves. -/
theorem prove_eq_proveRange {tree : Nmt} {ns : Namespace} (hns : ns.validateForBlob = .ok ())
    {front back : List Nmt.Leaf} (hleaves : tree.leaves = front ++ back) (hne : front ≠ [])
    (hfront : ∀ leaf ∈ front, leaf.ns = ns) (hback : ∀ leaf ∈ back, ns < leaf.ns) :
    tree.prove ns = tree.proveRange 0 front.length := by
  obtain ⟨first, hfirst⟩ := List.exists_mem_of_ne_nil front hne
  have hcontains : tree.root.contains ns = true :=
    contains_of_mem hns (by rw [hleaves]; exact List.mem_append_left _ hfirst) (hfront first hfirst)
  -- the leaves of the namespace are all those at the front, and no others
  have hlower : tree.lowerBound ns = 0 := by
    rw [Nmt.lowerBound, hleaves]
    obtain ⟨leaf, rest, rfl⟩ := List.exists_cons_of_ne_nil hne
    rw [List.cons_append, List.takeWhile_cons_of_neg, List.length_nil]
    rw [hfront leaf List.mem_cons_self]
    simp
  have hcount : tree.count ns = front.length := by
    have hzero : back.countP (fun leaf => leaf.ns = ns) = 0 :=
      List.countP_eq_zero.mpr fun leaf hleaf => by simpa using (hback leaf hleaf).ne'
    have hall : front.countP (fun leaf => leaf.ns = ns) = front.length :=
      List.countP_eq_length.mpr fun leaf hleaf => by simpa using hfront leaf hleaf
    rw [Nmt.count, hleaves, List.countP_append, hzero, hall, Nat.add_zero]
  have hpos := List.length_pos_iff.mpr hne
  simp only [Nmt.prove, hcontains, hlower, hcount, hpos, Bool.not_true, Bool.false_eq_true,
    if_false, if_true, Nat.zero_add]

/-! ### Row by row -/

/-- The number of rows that some shares fill, the last one maybe in part. -/
def rowCount (width shares : Nat) : Nat :=
  (shares + width - 1) / width

theorem rowCount_zero {width : Nat} (hw : width ≠ 0) : rowCount width 0 = 0 :=
  Nat.div_eq_of_lt (by omega)

theorem rowCount_of_pos {width shares : Nat} (hw : width ≠ 0) (h : 0 < shares) :
    rowCount width shares = rowCount width (shares - width) + 1 := by
  rcases Nat.lt_or_ge shares width with hlt | hge
  · rw [Nat.sub_eq_zero_of_le hlt.le, rowCount_zero hw, rowCount]
    exact Nat.div_eq_of_lt_le (by omega) (by omega)
  · rw [rowCount, rowCount, ← Nat.add_div_right _ (Nat.pos_of_ne_zero hw)]
    congr 1
    omega

/-- A square with room for the shares has that many rows. -/
theorem rowCount_le {width shares : Nat} (hw : width ≠ 0) (h : shares ≤ width * width) :
    rowCount width shares ≤ width := by
  rw [rowCount, ← Nat.lt_succ_iff, Nat.div_lt_iff_lt_mul (Nat.pos_of_ne_zero hw), Nat.succ_mul]
  omega

/-- The tree of a line begins with the given shares, and goes on with nothing but larger
namespaces. -/
def BeginsWith (ns : Namespace) (tree : Nmt) (line : List Share) : Prop :=
  ∃ back, tree.leaves = lineLeaves line ++ back ∧ ∀ leaf ∈ back, ns < leaf.ns

/-- The trees of whole lines begin with them. -/
theorem forall₂_beginsWith (ns : Namespace) {trees : List Nmt} {lines : List (List Share)}
    (h : trees.map Nmt.leaves = lines.map lineLeaves) :
    List.Forall₂ (BeginsWith ns) trees lines := by
  rw [← List.forall₂_eq_eq_eq, List.forall₂_map_left_iff, List.forall₂_map_right_iff] at h
  refine h.imp fun tree line hleaves => ⟨[], ?_, List.forall_mem_nil _⟩
  rw [hleaves, List.append_nil]

section Rows

variable {ns : Namespace} (hns : ns.validateForBlob = .ok ()) {k width : Nat}
  (hdvd : 2 ^ k ∣ width) (hw : width ≠ 0) (hsize : width < UInt32.size)
include hns hdvd hw hsize

/-- **One more row on top**, when it begins with the shares. -/
theorem rowsProven_cons {shares : List Share} (hne : shares ≠ []) {tree : Nmt}
    {back : List Nmt.Leaf} (hleaves : tree.leaves = groupLeaves ns (shares.take width) ++ back)
    (hback : ∀ leaf ∈ back, ns < leaf.ns) {proofs : List NamespaceProof}
    {rowRoots : List NamespacedHash}
    (h : RowsProven ns (2 ^ k) (shares.drop width) proofs rowRoots) :
    RowsProven ns (2 ^ k) shares (tree.prove ns :: proofs) (tree.root :: rowRoots) := by
  have hpos := List.length_pos_iff.mpr hne
  have hlen : (shares.take width).length = min width shares.length := List.length_take
  have hfront : (groupLeaves ns (shares.take width)).length = (shares.take width).length :=
    List.length_map _
  have hall : ∀ leaf ∈ groupLeaves ns (shares.take width), leaf.ns = ns := by
    intro leaf hleaf
    obtain ⟨share, -, rfl⟩ := List.mem_map.mp hleaf
    rfl
  have hprove : tree.prove ns = tree.proveRange 0 (0 + (shares.take width).length) := by
    rw [prove_eq_proveRange hns hleaves (List.ne_nil_of_length_pos (by omega)) hall hback, hfront,
      Nat.zero_add]
  have hslice : Nmt.slice tree.leaves 0 (shares.take width).length =
      groupLeaves ns (shares.take width) := by
    rw [Nmt.slice, List.drop_zero, hleaves, List.take_left' hfront]
  -- a row that is not filled is the last one
  have hrest : shares.drop width = [] ∨ 2 ^ k ∣ (shares.take width).length := by
    rcases le_total shares.length width with hle | hle
    · exact Or.inl (List.drop_eq_nil_of_le hle)
    · rw [hlen, min_eq_left hle]
      exact Or.inr hdvd
  have hcons := RowsProven.cons (Namespace.ne_parity hns) (Nat.dvd_zero _)
    (List.ne_nil_of_length_pos (by omega)) hslice (by omega) hrest h
  rwa [List.take_append_drop, ← hprove] at hcons

/-- **All rows of a blob**: the first ones of a square that begins with the shares, whatever comes
after them and at the ends of the rows, as long as it is of larger namespaces. -/
theorem rowsProven {shares padding : List Share} (hshares : ∀ share ∈ shares, share.ns = ns)
    (hpadding : ∀ share ∈ padding, ns < share.ns) {trees : List Nmt}
    (htrees : List.Forall₂ (BeginsWith ns) trees (pieces width (shares ++ padding))) :
    RowsProven ns (2 ^ k) shares ((trees.take (rowCount width shares.length)).map (·.prove ns))
      ((trees.take (rowCount width shares.length)).map Nmt.root) := by
  induction h : shares.length using Nat.strong_induction_on generalizing shares padding trees with
  | _ n ih =>
    subst h
    rcases eq_or_ne shares [] with rfl | hne
    · rw [List.length_nil, rowCount_zero hw]
      exact RowsProven.nil ns (2 ^ k)
    · -- the first row is cut off the shares, and off the padding if the shares do not fill it
      have hpos := List.length_pos_iff.mpr hne
      rw [pieces_of_ne_nil hw (List.append_ne_nil_of_left_ne_nil hne _), List.take_append,
        List.drop_append] at htrees
      obtain ⟨tree, trees, ⟨back, htree, hback⟩, hrest, rfl⟩ :=
        List.forall₂_cons_right_iff.mp htrees
      have hdropped := ih (shares.drop width).length (by rw [List.length_drop]; omega)
        (fun share hshare => hshares share (List.mem_of_mem_drop hshare))
        (fun share hshare => hpadding share (List.mem_of_mem_drop hshare)) hrest rfl
      have hcount := rowCount_of_pos hw hpos
      rw [← List.length_drop] at hcount
      rw [hcount, List.take_succ_cons, List.map_cons, List.map_cons]
      have hleaves : tree.leaves = groupLeaves ns (shares.take width) ++
          (lineLeaves (padding.take (width - shares.length)) ++ back) := by
        rw [htree, lineLeaves_append, List.append_assoc,
          lineLeaves_of_all fun share hshare => hshares share (List.mem_of_mem_take hshare)]
      refine rowsProven_cons hns hdvd hw hsize hne hleaves ?_ hdropped
      intro leaf hleaf
      rcases List.mem_append.mp hleaf with hleaf | hleaf
      · obtain ⟨share, hshare, rfl⟩ := List.mem_map.mp hleaf
        exact hpadding share (List.mem_of_mem_take hshare)
      · exact hback leaf hleaf

end Rows

/-! ### The square -/

/-- The width of the square of a blob is a power of two of at most 128, with room for the
shares. -/
theorem exists_width?_eq {shares : Nat} (h : shares ≤ 64 * 64 + 1) :
    ∃ j, width? shares = some (2 ^ j) ∧ shares ≤ 2 ^ j * 2 ^ j ∧ 2 ^ j ≤ 2 ^ 7 := by
  have hroom := le_minSquare shares
  have hleast : 2 ^ Nat.clog 2 (ceilSqrt shares) ≤ 2 ^ 7 := minSquare_le (by omega)
  have hwidth : width? shares = some (max 2 (2 ^ Nat.clog 2 (ceilSqrt shares))) := by
    rw [width?, minSquare?_of_le (by omega)]
    rfl
  rcases le_total (2 ^ Nat.clog 2 (ceilSqrt shares)) 2 with hle | hle
  · refine ⟨1, by rw [hwidth, max_eq_left hle, pow_one], ?_, by decide⟩
    exact hroom.trans (Nat.mul_le_mul hle hle)
  · exact ⟨_, by rw [hwidth, max_eq_right hle], hroom, hleast⟩

/-- All shares of the square of a blob: those of the blob, and padding up to its width. -/
def allShares (width : Nat) (shares : List Share) : List Share :=
  shares ++ List.replicate (width * width - shares.length) (Share.padding .tailPadding)

theorem length_allShares {width : Nat} {shares : List Share} (h : shares.length ≤ width * width) :
    (allShares width shares).length = width * width := by
  rw [allShares, List.length_append, List.length_replicate]
  omega

theorem ns_of_mem_padding {count : Nat} {share : Share}
    (h : share ∈ List.replicate count (Share.padding .tailPadding)) : share.ns = .tailPadding := by
  rw [List.eq_of_mem_replicate h, Share.ns_padding]

/-- The shares of the square are in order: the padding is of a larger namespace than any blob. -/
theorem pairwise_allShares {ns : Namespace} (hns : ns.validateForBlob = .ok ()) (width : Nat)
    {shares : List Share} (hshares : ∀ share ∈ shares, share.ns = ns) :
    (allShares width shares).Pairwise fun a b => a.ns ≤ b.ns := by
  refine List.pairwise_append.mpr ⟨?_, ?_, fun a ha b hb => ?_⟩
  · exact List.Pairwise.imp_of_mem (fun ha hb _ => by rw [hshares _ ha, hshares _ hb])
      (List.pairwise_of_forall fun _ _ => trivial)
  · exact List.Pairwise.imp_of_mem
      (fun ha hb _ => by rw [ns_of_mem_padding ha, ns_of_mem_padding hb])
      (List.pairwise_of_forall fun _ _ => trivial)
  · rw [hshares a ha, ns_of_mem_padding hb]
    exact (Namespace.lt_tailPadding hns).le

/-- **The trees of all lines** of a list in order, and its header. -/
theorem exists_header {width : Nat} (hw : width ≠ 0) {shares : List Share}
    (hlen : shares.length = width * width) (hasc : shares.Pairwise fun a b => a.ns ≤ b.ns) :
    ∃ rows columns header, (pieces width shares).mapM treeOf = .ok rows ∧
      ((List.range width).map fun column => (pieces width shares).filterMap (·[column]?)).mapM
        treeOf = .ok columns ∧
      AvailabilityHeader.make (rows.map Nmt.root) (columns.map Nmt.root) = .ok header ∧
      header.rowRoots = rows.map Nmt.root ∧ rows.length = width ∧
      rows.map Nmt.leaves = (pieces width shares).map lineLeaves := by
  have hflatten := flatten_pieces hw shares
  obtain ⟨rows, hrows, hleaves⟩ := exists_trees (pieces width shares) fun row hrow => by
    refine hasc.sublist ?_
    rw [← hflatten]
    exact List.sublist_flatten_of_mem hrow
  obtain ⟨columns, hcolumns, -⟩ := exists_trees
    ((List.range width).map fun column => (pieces width shares).filterMap (·[column]?))
    fun column hcolumn => by
      obtain ⟨index, -, rfl⟩ := List.mem_map.mp hcolumn
      refine hasc.sublist ?_
      have h := column_sublist (pieces width shares) index
      rwa [hflatten] at h
  have hrowCount : rows.length = width := by
    rw [Checked.length_of_mapM_eq_ok hrows, length_pieces hw hlen]
  have hcolumnCount : columns.length = width := by
    rw [Checked.length_of_mapM_eq_ok hcolumns, List.length_map, List.length_range]
  refine ⟨rows, columns, ⟨rows.map Nmt.root, columns.map Nmt.root⟩, hrows, hcolumns, ?_, rfl,
    hrowCount, hleaves⟩
  rw [AvailabilityHeader.make, if_pos (by rw [List.length_map, List.length_map, hrowCount,
    hcolumnCount])]

/-- The trees over the groups of a blob have the roots that its commitment is made of. -/
theorem exists_subtrees {ns : Namespace} {shares : List Share}
    (hshares : ∀ share ∈ shares, share.ns = ns) (hs : shares.length ≤ 2 ^ 63) {threshold : Nat}
    (ht : threshold ≠ 0) :
    ∃ k subtrees, subtreeWidth? shares.length threshold = some (2 ^ k) ∧
      (cut (mountainRange (2 ^ k) shares.length) shares).mapM treeOf = .ok subtrees ∧
      subtrees.map Nmt.root = groupRoots ns (shareGroups shares threshold) ∧
      groupRoots ns (shareGroups shares threshold) =
        groupRoots ns (cut (mountainRange (2 ^ k) shares.length) shares) := by
  obtain ⟨k, hk, hgroups⟩ := exists_shareGroups_eq hs ht
  have hmem : ∀ group ∈ shareGroups shares threshold, ∀ share ∈ group, share.ns = ns := by
    intro group hgroup share hshare
    refine hshares share ?_
    rw [← flatten_shareGroups hs ht]
    exact List.mem_flatten.mpr ⟨group, hgroup, hshare⟩
  obtain ⟨subtrees, hsubtrees, hleaves⟩ := exists_trees (shareGroups shares threshold)
    fun group hgroup => by
      refine List.Pairwise.imp_of_mem (fun ha hb _ => ?_)
        (List.pairwise_of_forall fun _ _ => trivial)
      rw [hmem group hgroup _ ha, hmem group hgroup _ hb]
  refine ⟨k, subtrees, hk, hgroups ▸ hsubtrees, ?_, by rw [hgroups]⟩
  have hlines : (shareGroups shares threshold).map lineLeaves =
      (shareGroups shares threshold).map (groupLeaves ns) :=
    List.map_congr_left fun group hgroup => lineLeaves_of_all (hmem group hgroup)
  have hroots := congrArg (List.map Nmt.rootOver) (hleaves.trans hlines)
  rw [List.map_map, List.map_map] at hroots
  exact hroots

/-- What the square of a blob and its proof are put together from. -/
theorem make_of_parts {blob : Blob} {threshold width largest : Nat} {shares : List Share}
    (hshares : blob.shares = .ok shares) (hwidth : width? shares.length = some width)
    {lines : List (List Share)}
    (hlines : pieces width (allShares width shares) = lines)
    {rows columns subtrees : List Nmt} (hrows : lines.mapM treeOf = .ok rows)
    (hcolumns : ((List.range width).map fun column => lines.filterMap (·[column]?)).mapM treeOf =
      .ok columns)
    {header : AvailabilityHeader}
    (hheader : AvailabilityHeader.make (rows.map Nmt.root) (columns.map Nmt.root) = .ok header)
    (hlargest : subtreeWidth? shares.length threshold = some largest) (hne : largest ≠ 0)
    (hsubtrees : (cut (mountainRange largest shares.length) shares).mapM treeOf = .ok subtrees)
    {rowProof : RowProof}
    (hrowProof : header.rowProof 0 (rowCount width shares.length - 1) = .ok rowProof)
    {proof : CommitmentProof}
    (hproof : CommitmentProof.make (subtrees.map Nmt.root)
      ((rows.take (rowCount width shares.length)).map (·.prove blob.ns)) blob.ns rowProof =
        .ok proof) :
    make blob threshold = .ok (header, proof) := by
  have hsizes : mountainRange? shares.length largest =
      some (mountainRange largest shares.length) := if_neg hne
  rw [make, Checked.bind_eq_ok_iff]
  refine ⟨shares, hshares, ?_⟩
  rw [allShares] at hlines
  simp only [hwidth, hlines, hlargest, hsizes, Checked.bind_eq_ok_iff, Checked.mapError_eq_ok_iff]
  exact ⟨rows, hrows, columns, hcolumns, header, hheader, subtrees, hsubtrees, rowProof, hrowProof,
    proof, hproof, rfl⟩

/-- **Every blob has a square of its own, and a proof in it that verifies** for its commitment. -/
theorem make_eq_ok {blob : Blob} {threshold : Nat} {c : Commitment}
    (h : commit blob.ns blob.data blob.version threshold = .ok c) :
    ∃ header proof, make blob threshold = .ok (header, proof) ∧
      proof.verify c header.hash threshold = .ok () := by
  obtain ⟨hvalid, ht, rfl⟩ := commit_eq_ok_iff.mp h
  have hns := (validateBlob_eq_ok_iff.mp hvalid).2.2.1
  have hcount := length_split_le hvalid
  have hwrite : blob.shares = .ok (Share.split blob.ns blob.version blob.data) := by
    rw [Blob.shares, write_of_validateBlob hvalid]
    rfl
  have hshares : ∀ share ∈ Share.split blob.ns blob.version blob.data, share.ns = blob.ns :=
    fun share hshare => (Share.of_mem_split hshare).1
  have hpos := List.length_pos_iff.mpr (Share.split_ne_nil blob.ns blob.version blob.data)
  generalize Share.split blob.ns blob.version blob.data = shares at hcount hwrite hshares hpos ⊢
  have hs : shares.length ≤ 2 ^ 63 := by omega
  obtain ⟨j, hwidth, hroom, hsize⟩ := exists_width?_eq hcount
  have hw := (Nat.two_pow_pos j).ne'
  obtain ⟨rows, columns, header, hrows, hcolumns, hheader, hrowRoots, hrowCount, hleaves⟩ :=
    exists_header hw (length_allShares hroom) (pairwise_allShares hns (2 ^ j) hshares)
  -- the subtrees of the commitment are those of the rows
  obtain ⟨k, subtrees, hk, hsubtrees, hroots, hgroups⟩ := exists_subtrees hshares hs ht
  have hpadding (share : Share) (h : share ∈ List.replicate (2 ^ j * 2 ^ j - shares.length)
      (Share.padding .tailPadding)) : blob.ns < share.ns := by
    rw [ns_of_mem_padding h]
    exact Namespace.lt_tailPadding hns
  have hfew : 2 ^ j < UInt32.size := hsize.trans_lt (by decide)
  have hproven := rowsProven hns (subtreeWidth?_dvd hs hk hroom) hw hfew hshares hpadding
    (forall₂_beginsWith blob.ns hleaves)
  have hused : 0 < rowCount (2 ^ j) shares.length := by
    rw [rowCount_of_pos hw hpos]
    omega
  have hne : subtrees.map Nmt.root ≠ [] :=
    hroots ▸ groupRoots_shareGroups_ne_nil hs ht (List.ne_nil_of_length_pos hpos) blob.ns
  have hle : rowCount (2 ^ j) shares.length ≤ rows.length := by
    rw [hrowCount]
    exact rowCount_le hw hroom
  have hheaderCount : header.rowRoots.length = rows.length := by
    rw [hrowRoots, List.length_map]
  have htop : (rows.take (rowCount (2 ^ j) shares.length)).map Nmt.root =
      (header.rowRoots.drop 0).take (rowCount (2 ^ j) shares.length) := by
    rw [List.drop_zero, hrowRoots, List.map_take]
  rw [htop] at hproven
  obtain ⟨rowProof, proof, hrowProof, hproof, -, -, hverify⟩ :=
    hproven.exists_proof hused (by omega) (by omega)
      (by rw [List.length_map, List.length_take]; omega) hk (hroots.trans hgroups) hne
  rw [Nat.zero_add] at hrowProof
  refine ⟨header, proof, make_of_parts hwrite hwidth rfl hrows hcolumns hheader hk
    (Nat.two_pow_pos k).ne' hsubtrees hrowProof hproof, ?_⟩
  rw [← hroots]
  exact hverify

end Availability.BlobSquare
