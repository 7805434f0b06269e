import Availability.Proofs.Foundations
import Availability.Proofs.Square.OfRows
import Availability.Proofs.Square.Quadrant
import Availability.Square.NamespaceData

/-!
# The data of a namespace

An answer for a namespace has one row for each row root with the namespace in its range. The answer
that a square gives itself has the shares that the search of its rows finds, and whoever knows the
header alone can tell that it is complete: no other answer verifies.

* `ExtendedSquare.collect_eq_ok` – searching a row, which ends at the first larger namespace, finds
  all shares;
* `ExtendedSquare.proves_of_mem_rowsOf` – the trees of the rows prove what these have of the
  namespace, with **one thing taken on faith** for the namespace of zeros;
* `ExtendedSquare.proves_of_not_collides` – which is true, too, unless hashed strings collide;
* `ExtendedSquare.verify_namespaceData` – so the answer that a square gives **verifies**, and has
  all shares of the namespace;
* `NamespaceData.shares_eq_of_verify` – whatever verifies has **exactly the shares** of the
  namespace.
-/

namespace Availability

variable {square : ExtendedSquare} {ns : Namespace}

/-! ### What is checked -/

theorem NamespaceRow.verify_eq_ok_iff {answer : NamespaceRow} {root : NamespacedHash} :
    answer.verify ns root = .ok () ↔ answer.shares.isEmpty = answer.proof.isOfAbsence ∧
      answer.proof.verifyComplete root (answer.shares.map Share.bytes) ns = .ok () := by
  rw [NamespaceRow.verify]
  split
  case isTrue h => simp [h]
  case isFalse h =>
    rw [Checked.mapError_eq_ok_iff, and_iff_right (not_not.mp h)]

namespace NamespaceData

theorem verifyRows_eq_ok_iff {rows : List NamespaceRow} {roots : List NamespacedHash}
    (h : roots.length = rows.length) :
    verifyRows ns rows roots = .ok () ↔
      List.Forall₂ (fun row root => row.verify ns root = .ok ()) rows roots := by
  induction rows generalizing roots with
  | nil =>
    obtain rfl := List.eq_nil_of_length_eq_zero h
    simp [verifyRows]
  | cons row rows ih =>
    obtain ⟨root, roots, rfl⟩ := List.exists_cons_of_length_eq_add_one h
    rw [verifyRows, Checked.bind_eq_ok_iff, Checked.exists_unit_iff, ih (Nat.succ.inj h),
      List.forall₂_cons]

variable {app : AppVersion} {header : AvailabilityHeader} {data : NamespaceData}

/-- **An answer is checked row by row**, against the rows of the namespace. -/
theorem verify_eq_ok_iff (hheader : square.header app = .ok header) (hns : ns ≠ .parity) :
    data.verify ns header = .ok () ↔
      List.Forall₂ (fun answer row => answer.verify ns (square.rowRoot row) = .ok ()) data.rows
        (square.rowsOf ns) := by
  rw [verify, ExtendedSquare.filter_rowRoots hheader hns]
  split
  case isTrue hcount =>
    refine iff_of_false (by simp) fun h => hcount ?_
    rw [List.length_map]
    exact h.length_eq.symm
  case isFalse hcount =>
    rw [verifyRows_eq_ok_iff (not_not.mp hcount), List.forall₂_map_right_iff]

end NamespaceData

/-! ### The answer of a square -/

namespace ExtendedSquare

/-- **Searching a row finds all shares of a namespace**, though it ends at the first larger one. -/
theorem collect_eq_ok {row : Nat} {columns : List Nat} {shares : List Share}
    (hshares : columns.mapM (square.share row) = .ok shares)
    (hasc : shares.Pairwise fun a b => a.ns ≤ b.ns) :
    square.collect ns row columns = .ok (shares.filter fun share => share.ns = ns) := by
  induction columns generalizing shares with
  | nil =>
    obtain rfl := List.forall₂_nil_left_iff.mp (Checked.mapM_eq_ok_iff.mp hshares)
    rfl
  | cons column columns ih =>
    obtain ⟨share, rest, hshare, hrest, rfl⟩ :=
      List.forall₂_cons_left_iff.mp (Checked.mapM_eq_ok_iff.mp hshares)
    obtain ⟨hfirst, hasc⟩ := List.pairwise_cons.mp hasc
    have hcollect := ih (Checked.mapM_eq_ok_iff.mpr hrest) hasc
    by_cases hlt : ns < share.ns
    · have hnone : ((share :: rest).filter fun share => share.ns = ns) = [] := by
        rw [List.filter_eq_nil_iff]
        intro other hother
        rw [decide_eq_true_eq]
        rcases List.mem_cons.mp hother with rfl | hother
        · exact hlt.ne'
        · exact (hlt.trans_le (hfirst other hother)).ne'
      rw [hnone]
      exact Checked.bind_eq_ok_iff.mpr ⟨share, hshare, if_pos hlt⟩
    · refine Checked.bind_eq_ok_iff.mpr ⟨share, hshare, (if_neg hlt).trans ?_⟩
      refine Checked.bind_eq_ok_iff.mpr ⟨_, hcollect, congrArg Except.ok ?_⟩
      rw [List.filter_cons]
      by_cases heq : share.ns = ns <;> simp [heq]

theorem zip_map_append {α β : Type} (f : α → β) (xs : List α) (ys : List β) :
    xs.zip (xs.map f ++ ys) = xs.map fun x => (x, f x) := by
  induction xs with
  | nil => rfl
  | cons x xs ih => rw [List.map_cons, List.cons_append, List.zip_cons_cons, ih, List.map_cons]

section Header

variable {app : AppVersion} {header : AvailabilityHeader}
  (hheader : square.header app = .ok header) {row : Nat}
include hheader

/-- A square answers with the rows of the namespace. -/
theorem namespaceData_eq_ok_iff {data : NamespaceData} :
    square.namespaceData ns header = .ok data ↔
      (square.rowsOf ns).mapM (square.namespaceRow ns) = .ok data.rows := by
  have hrows : header.rowRoots = (List.range square.dataWidth).map square.rowRoot ++
      ((List.range (square.width - square.dataWidth)).map (square.dataWidth + ·)).map
        square.rowRoot := by
    rw [rowRoots_eq hheader, ← List.map_append, ← List.range_add,
      Nat.add_sub_cancel' square.dataWidth_le]
  rw [namespaceData, hrows, zip_map_append, List.filter_map]
  simp only [Checked.bind_eq_ok_iff, List.mapM_map, Checked.pure_eq_ok_iff]
  constructor
  · rintro ⟨rows, hrows, rfl⟩
    exact hrows
  · intro h
    exact ⟨data.rows, h, rfl⟩

/-- What a square answers for a row of the data quadrant. -/
theorem exists_namespaceRow_eq_ok (hrow : row < square.dataWidth) :
    ∃ tree, square.tree .row row = .ok tree ∧ square.namespaceRow ns row =
      .ok ⟨(square.rowShares row).filter fun share => share.ns = ns, tree.prove ns⟩ := by
  obtain ⟨tree, htree, -⟩ :=
    exists_tree_of_header hheader .row (hrow.trans_le square.dataWidth_le)
  obtain ⟨hshares, -⟩ := exists_lineLeaves_eq hheader hrow
  refine ⟨tree, htree, ?_⟩
  rw [namespaceRow, collect_eq_ok hshares (pairwise_rowShares hheader hrow), htree]
  rfl

/-- A root of other namespaces than that of zeros is not the root of the tree without leaves, and so
the tree proves what the row has. -/
theorem proves_of_root_ne_empty (hrow : row ∈ square.rowsOf ns) {tree : Nmt}
    (htree : square.tree .row row = .ok tree) (hroot : tree.root ≠ .empty) : tree.Proves ns := by
  obtain ⟨hmin, hmax⟩ := NamespacedHash.isOutside_eq_false_iff.mp (mem_rowsOf.mp hrow).2
  rw [rowRoot_of_tree htree] at hmin hmax
  refine Nmt.proves_of_contains (NamespacedHash.contains_iff.mpr ⟨hmin, hmax, hroot⟩) ?_
  rw [length_leaves_of_tree htree]
  exact (of_header hheader).1.trans (by cases app <;> decide)

/-- **The tree of a row proves what the row has** of a namespace in its range. Only for the
namespace of zeros this is to be known before. -/
theorem proves_of_mem_rowsOf (hrow : row ∈ square.rowsOf ns) {tree : Nmt}
    (htree : square.tree .row row = .ok tree) (hzero : ns = default → tree.Proves ns) :
    tree.Proves ns := by
  by_cases hroot : tree.root = .empty
  · -- the range of this root is the namespace of zeros alone
    obtain ⟨hmin, hmax⟩ := NamespacedHash.isOutside_eq_false_iff.mp (mem_rowsOf.mp hrow).2
    rw [rowRoot_of_tree htree, hroot] at hmin hmax
    exact hzero (le_antisymm hmax hmin)
  · exact proves_of_root_ne_empty hheader hrow htree hroot

/-- It is true of every row that has a share of some other namespace. -/
theorem proves_of_mem_rowShares (hrow : row ∈ square.rowsOf ns) {tree : Nmt}
    (htree : square.tree .row row = .ok tree) {share : Share}
    (hshare : share ∈ square.rowShares row) (hzero : share.ns ≠ default)
    (hparity : share.ns ≠ .parity) : tree.Proves ns := by
  refine proves_of_root_ne_empty hheader hrow htree fun hroot => hzero ?_
  have hleaf := toLeaf_mem_lineLeaves hheader (mem_rowsOf.mp hrow).1 hshare
  rw [lineLeaves_of_tree htree] at hleaf
  have hmin : tree.root.min ≤ share.ns := Nmt.rootOver_min_le hleaf
  have hmax : share.ns ≤ tree.root.max := Nmt.le_rootOver_max hleaf hparity
  rw [hroot] at hmin hmax
  exact le_antisymm hmax hmin

/-- **And it is true of all rows**, unless two of the hashed strings collide, one of which may be
the string without bytes. -/
theorem proves_of_not_collides (free : ¬Collides ([] :: square.texts))
    (hrow : row ∈ square.rowsOf ns) {tree : Nmt} (htree : square.tree .row row = .ok tree) :
    tree.Proves ns := by
  refine proves_of_root_ne_empty hheader hrow htree fun hroot => ?_
  have hwidth := (mem_rowsOf.mp hrow).1.trans_le square.dataWidth_le
  refine lineLeaves_ne_nil hheader .row hwidth ?_
  rw [← rowRoot_of_tree htree] at hroot
  exact Nmt.eq_nil_of_rootOver_eq_empty free List.mem_cons_self
    (fun text htext => List.mem_cons_of_mem _ (texts_lineLeaves_subset .row hwidth htext)) hroot

/-- **The answer for a row verifies**, when the tree of the row proves what it has. -/
theorem verify_namespaceRow (hrow : row ∈ square.rowsOf ns) (hns : ns ≠ .parity)
    (hproves : ∀ tree, square.tree .row row = .ok tree → tree.Proves ns) {answer : NamespaceRow}
    (h : square.namespaceRow ns row = .ok answer) :
    answer.verify ns (square.rowRoot row) = .ok () := by
  have hrow := (mem_rowsOf.mp hrow).1
  obtain ⟨tree, htree, hanswer⟩ := exists_namespaceRow_eq_ok hheader hrow
  obtain rfl := Except.ok.inj (h.symm.trans hanswer)
  have hdata : tree.dataOf ns =
      ((square.rowShares row).filter fun share => share.ns = ns).map Share.bytes := by
    rw [Nmt.dataOf, ← lineLeaves_of_tree htree, filter_lineLeaves hheader hns hrow, List.map_map]
    rfl
  obtain ⟨hkind, haccepted⟩ := hproves tree htree
  rw [hdata] at hkind haccepted
  rw [rowRoot_of_tree htree]
  refine NamespaceRow.verify_eq_ok_iff.mpr ⟨?_, haccepted⟩
  rw [hkind, List.isEmpty_map]

/-- **A square has an answer for every namespace**, with all of its shares row by row. -/
theorem exists_namespaceData (ns : Namespace) :
    ∃ data, square.namespaceData ns header = .ok data ∧
      data.rows.map NamespaceRow.shares = (square.rowsOf ns).map fun row =>
        (square.rowShares row).filter fun share => share.ns = ns := by
  obtain ⟨rows, hrows⟩ : ∃ rows, (square.rowsOf ns).mapM (square.namespaceRow ns) = .ok rows := by
    refine Checked.exists_mapM_eq_ok fun row hrow => ?_
    obtain ⟨tree, -, h⟩ := exists_namespaceRow_eq_ok hheader (mem_rowsOf.mp hrow).1
    exact ⟨_, h⟩
  refine ⟨⟨rows⟩, (namespaceData_eq_ok_iff hheader).mpr hrows, ?_⟩
  rw [← List.forall₂_eq_eq_eq, List.forall₂_map_left_iff, List.forall₂_map_right_iff]
  refine (Checked.forall₂_of_mapM_eq_ok hrows fun row hrow answer h => ?_).flip
  obtain ⟨tree, -, hanswer⟩ := exists_namespaceRow_eq_ok hheader (mem_rowsOf.mp hrow).1
  exact congrArg NamespaceRow.shares (Except.ok.inj (h.symm.trans hanswer))

/-- The answer verifies, when the trees of its rows prove what these have. -/
theorem verify_of_namespaceData (hns : ns ≠ .parity)
    (hproves : ∀ row ∈ square.rowsOf ns, ∀ tree, square.tree .row row = .ok tree → tree.Proves ns)
    {data : NamespaceData} (h : square.namespaceData ns header = .ok data) :
    data.verify ns header = .ok () := by
  have hrows := (namespaceData_eq_ok_iff hheader).mp h
  refine (NamespaceData.verify_eq_ok_iff hheader hns).mpr ?_
  exact (Checked.forall₂_of_mapM_eq_ok hrows fun row hrow answer h =>
    verify_namespaceRow hheader hrow hns (hproves row hrow) h).flip

end Header

/-! ### Two rows of padding -/

section Padding

variable {app : AppVersion} {header : AvailabilityHeader}
  (hheader : (ofRows paddingRows "Leopard").header app = .ok header)
include hheader

/-- The trees of these rows prove whatever is in their range, as none is of zeros alone. -/
theorem proves_paddingRows (ns : Namespace) :
    ∀ row ∈ (ofRows paddingRows "Leopard").rowsOf ns, ∀ tree,
      (ofRows paddingRows "Leopard").tree .row row = .ok tree → tree.Proves ns := by
  intro row hrow tree htree
  obtain ⟨-, -, last, hlast, -, -, hzero, hparity⟩ := exists_le_of_mem_paddingRows _
    (rowShares_ofRows_mem _ isQuadrant_paddingRows (mem_rowsOf.mp hrow).1)
  exact proves_of_mem_rowShares hheader hrow htree hlast hzero hparity

/-- The answer has two rows, and the lower one has no share. -/
theorem exists_namespaceData_paddingRows :
    ∃ found absent,
      (ofRows paddingRows "Leopard").namespaceData .maxPrimaryReserved header =
        .ok ⟨[found, absent]⟩ ∧
      found.shares = [.padding .maxPrimaryReserved] ∧ absent.shares = [] := by
  obtain ⟨⟨rows⟩, hdata, hshares⟩ := exists_namespaceData hheader .maxPrimaryReserved
  have hall : (ofRows paddingRows "Leopard").rowsOf .maxPrimaryReserved =
      List.range (ofRows paddingRows "Leopard").dataWidth := by
    refine List.filter_eq_self.mpr fun row hrow => ?_
    have hlt := List.mem_range.mp hrow
    obtain ⟨first, hfirst, last, hlast, hlow, hhigh, -, hparity⟩ := exists_le_of_mem_paddingRows _
      (rowShares_ofRows_mem _ isQuadrant_paddingRows hlt)
    rw [(mem_rowsOf.mp (mem_rowsOf_of_le hheader hlt hfirst hlast hlow hhigh hparity)).2]
    rfl
  have hfilter : rows.map NamespaceRow.shares = [[.padding .maxPrimaryReserved], []] := by
    have hrows := map_rowShares_ofRows "Leopard" isQuadrant_paddingRows
    rw [hshares, hall]
    change (List.range _).map ((fun shares : List Share =>
      shares.filter fun share => share.ns = .maxPrimaryReserved) ∘ _) = _
    rw [← List.map_map, hrows]
    have hothers : ∀ ns ∈ [default, .intermediateStateRoots, .tailPadding],
        ns ≠ Namespace.maxPrimaryReserved := by decide
    simp only [List.forall_mem_cons] at hothers
    simp [paddingRows, hothers]
  obtain ⟨found, rest, rfl, hfound, hrest⟩ := List.map_eq_cons_iff.mp hfilter
  obtain ⟨absent, none, rfl, habsent, hnone⟩ := List.map_eq_cons_iff.mp hrest
  obtain rfl := List.map_eq_nil_iff.mp hnone
  exact ⟨found, absent, hdata, hfound, habsent⟩

end Padding

/-- **The answer of a square for a namespace verifies and is complete.** It has one row for each row
root with the namespace in its range, and its shares are all of the namespace in the square, row by
row. What does not have a share of the namespace is shown by a proof of absence.

Of the trees, this takes for granted that they prove the namespace of zeros, where it is in their
range; that they prove all others is shown. -/
theorem verify_namespaceData {app : AppVersion} {header : AvailabilityHeader}
    (hheader : square.header app = .ok header) (hns : ns ≠ .parity)
    (hzero : ns = default → ∀ row ∈ square.rowsOf ns, ∀ tree,
      square.tree .row row = .ok tree → tree.Proves ns) :
    ∃ data all, square.namespaceData ns header = .ok data ∧ square.shares = .ok all ∧
      data.rows.length = (header.rowRoots.filter fun root => !ns.isOutside root root).length ∧
      data.shares = (all.filter fun share => share.ns = ns) ∧ data.verify ns header = .ok () ∧
      ∀ row ∈ data.rows, row.proof.isOfAbsence = row.shares.isEmpty := by
  obtain ⟨data, hdata, hshares⟩ := exists_namespaceData hheader ns
  have hok : data.verify ns header = .ok () :=
    verify_of_namespaceData hheader hns (fun row hrow tree htree =>
      proves_of_mem_rowsOf hheader hrow htree fun hdefault =>
        hzero hdefault row hrow tree htree) hdata
  refine ⟨data, _, hdata, shares_eq_ok hheader, ?_, ?_, hok, fun answer hanswer => ?_⟩
  · have hlength := congrArg List.length hshares
    rwa [List.length_map, List.length_map, ← List.length_map square.rowRoot,
      ← filter_rowRoots hheader hns] at hlength
  · rw [← flatMap_rowsOf hheader hns, NamespaceData.shares, List.flatMap_def, hshares,
      ← List.flatMap_def]
  · have hchecked := (NamespaceData.verify_eq_ok_iff hheader hns).mp hok
    obtain ⟨i, hi, rfl⟩ := List.mem_iff_getElem.mp hanswer
    exact (NamespaceRow.verify_eq_ok_iff.mp (hchecked.get hi (hchecked.length_eq ▸ hi))).1.symm

/-- Two rows of padding, asked for a namespace that is in the range of both but only in the upper
one, and for the namespace of zeros. -/
theorem verify_namespaceData_padding :
    ∃ header : AvailabilityHeader,
      ((ofRows paddingRows "Leopard").header .v1 = .ok header ∧
        ∀ ns ∈ [.maxPrimaryReserved, default], ns ≠ Namespace.parity ∧
          (ns = default → ∀ row ∈ (ofRows paddingRows "Leopard").rowsOf ns, ∀ tree,
            (ofRows paddingRows "Leopard").tree .row row = .ok tree → tree.Proves ns)) ∧
      (∃ found absent,
        (ofRows paddingRows "Leopard").namespaceData .maxPrimaryReserved header =
          .ok ⟨[found, absent]⟩ ∧
        found.shares = [.padding .maxPrimaryReserved] ∧ absent.proof.isOfAbsence = true) ∧
      ∀ ns ∈ [.maxPrimaryReserved, default], ∃ data all,
        (ofRows paddingRows "Leopard").namespaceData ns header = .ok data ∧
        (ofRows paddingRows "Leopard").shares = .ok all ∧
        data.rows.length = (header.rowRoots.filter fun root => !ns.isOutside root root).length ∧
        data.shares = (all.filter fun share => share.ns = ns) ∧ data.verify ns header = .ok () ∧
        ∀ row ∈ data.rows, row.proof.isOfAbsence = row.shares.isEmpty := by
  obtain ⟨header, hheader⟩ := exists_header_ofRows "Leopard" isQuadrant_paddingRows
    (show _ ≤ AppVersion.v1.extendedBound by decide)
  have hparity : ∀ ns ∈ [.maxPrimaryReserved, default], ns ≠ Namespace.parity := by decide
  have hzero (ns : Namespace) (_ : ns = default) := proves_paddingRows hheader ns
  have hall := fun ns hns => verify_namespaceData hheader (hparity ns hns) (hzero ns)
  refine ⟨header, ⟨hheader, fun ns hns => ⟨hparity ns hns, hzero ns⟩⟩, ?_, hall⟩
  obtain ⟨found, absent, hdata, hfound, habsent⟩ := exists_namespaceData_paddingRows hheader
  obtain ⟨data, -, hsame, -, -, -, -, hkinds⟩ := hall _ List.mem_cons_self
  obtain rfl := Except.ok.inj (hdata.symm.trans hsame)
  have hkind := hkinds absent (List.mem_cons_of_mem _ List.mem_cons_self)
  rw [habsent] at hkind
  exact ⟨found, absent, hdata, hfound, hkind⟩

end ExtendedSquare

/-! ### Any other answer -/

theorem Share.bytes_injective : Function.Injective Share.bytes :=
  fun _ _ => Share.ext

namespace NamespaceData

/-- The strings that are hashed to check an answer. -/
def texts (data : NamespaceData) (ns : Namespace) : List Bytes :=
  data.rows.flatMap fun row => row.proof.completeTexts ns (row.shares.map Share.bytes)

section Header

variable {app : AppVersion} {header : AvailabilityHeader}
  (hheader : square.header app = .ok header) (hns : ns ≠ .parity)
include hheader hns

/-- A row that verifies has all shares of the namespace, unless two of the hashed strings
collide. -/
theorem shares_eq_of_verify_row {all : List Bytes} (free : ¬Collides all)
    (hsquare : square.texts ⊆ all) {row : Nat} (hrow : row ∈ square.rowsOf ns)
    {answer : NamespaceRow}
    (hanswer : answer.proof.completeTexts ns (answer.shares.map Share.bytes) ⊆ all)
    (h : answer.verify ns (square.rowRoot row) = .ok ()) :
    answer.shares = (square.rowShares row).filter fun share => share.ns = ns := by
  obtain ⟨hrow, hin⟩ := ExtendedSquare.mem_rowsOf.mp hrow
  have hwidth := hrow.trans_le square.dataWidth_le
  obtain ⟨hkind, hverify⟩ := NamespaceRow.verify_eq_ok_iff.mp h
  have hfilter := foundations.sound free
    (fun text htext => hsquare (ExtendedSquare.texts_lineLeaves_subset .row hwidth htext)) hanswer
    (ExtendedSquare.pairwise_lineLeaves hheader hwidth) hns hin (by rw [List.isEmpty_map, hkind])
    hverify
  rw [ExtendedSquare.filter_lineLeaves hheader hns hrow] at hfilter
  have hbytes := congrArg (List.map Nmt.Leaf.data) hfilter
  rw [List.map_map, List.map_map, List.map_map] at hbytes
  exact (List.map_injective_iff.mpr Share.bytes_injective hbytes).symm

/-- Rows that verify have all shares of the namespace in these rows. -/
theorem flatMap_shares_of_verify_rows {all : List Bytes} (free : ¬Collides all)
    (hsquare : square.texts ⊆ all) {answers : List NamespaceRow} {rows : List Nat}
    (hanswers : (⟨answers⟩ : NamespaceData).texts ns ⊆ all)
    (hrows : ∀ row ∈ rows, row ∈ square.rowsOf ns)
    (h : List.Forall₂ (fun answer row => answer.verify ns (square.rowRoot row) = .ok ()) answers
      rows) :
    answers.flatMap NamespaceRow.shares =
      rows.flatMap fun row => (square.rowShares row).filter fun share => share.ns = ns := by
  induction h with
  | nil => rfl
  | cons hrow _ ih =>
    rw [texts, List.flatMap_cons, List.append_subset] at hanswers
    obtain ⟨hin, hrest⟩ := List.forall_mem_cons.mp hrows
    rw [List.flatMap_cons, List.flatMap_cons, ih hanswers.2 hrest,
      shares_eq_of_verify_row hheader hns free hsquare hin hanswers.1 hrow]

/-- **Nothing is left out of an answer that verifies**: its shares are exactly those of the
namespace in the square, row by row, unless two of the hashed strings collide. -/
theorem shares_eq_of_verify {data : NamespaceData} (hverify : data.verify ns header = .ok ()) :
    Collides (square.texts ++ data.texts ns) ∨
      ∃ all, square.shares = .ok all ∧ data.shares = all.filter fun share => share.ns = ns := by
  rw [or_iff_not_imp_left]
  intro free
  refine ⟨_, ExtendedSquare.shares_eq_ok hheader, ?_⟩
  rw [← ExtendedSquare.flatMap_rowsOf hheader hns]
  exact flatMap_shares_of_verify_rows hheader hns free (List.subset_append_left _ _)
    (List.subset_append_right _ _) (fun _ => id) ((verify_eq_ok_iff hheader hns).mp hverify)

end Header

/-- Two rows of padding, and their own answer for a namespace that is only in the upper one. -/
theorem shares_eq_of_verify_padding :
    ∃ (square : ExtendedSquare) (header : AvailabilityHeader) (found absent : NamespaceRow),
      (square.header .v1 = .ok header ∧ Namespace.maxPrimaryReserved ≠ .parity ∧
        (⟨[found, absent]⟩ : NamespaceData).verify .maxPrimaryReserved header = .ok ()) ∧
      (Collides (square.texts ++ (⟨[found, absent]⟩ : NamespaceData).texts .maxPrimaryReserved) ∨
        ∃ all, square.shares = .ok all ∧
          (⟨[found, absent]⟩ : NamespaceData).shares =
            all.filter fun share => share.ns = .maxPrimaryReserved) := by
  obtain ⟨header, hheader⟩ := ExtendedSquare.exists_header_ofRows "Leopard"
    ExtendedSquare.isQuadrant_paddingRows (show _ ≤ AppVersion.v1.extendedBound by decide)
  have hns : Namespace.maxPrimaryReserved ≠ .parity := by decide
  obtain ⟨found, absent, hdata, -⟩ := ExtendedSquare.exists_namespaceData_paddingRows hheader
  have hok := ExtendedSquare.verify_of_namespaceData hheader hns
    (ExtendedSquare.proves_paddingRows hheader _) hdata
  exact ⟨_, header, found, absent, ⟨hheader, hns, hok⟩, shares_eq_of_verify hheader hns hok⟩

end NamespaceData

end Availability
