import Availability.Proofs.Blob.Sequence
import Availability.Proofs.Guarded.Create
import Availability.Proofs.Namespace.Form

/-!
# Blobs and the reserved namespaces

Whether a namespace is one of blobs is decided in two ways. Those who write a blob ask for a
well-formed namespace of version 0 above the reserved ones; those who read blobs pass over the
namespaces that lie in one of two reserved ranges. Between the ranges there are namespaces that are
not well-formed, so the two only agree on those that are, and there they have to: what is written
under a namespace that readers take for a reserved one would be lost.

* `Namespace.validateForBlob_iff_of_validate` – the two agree on **well-formed namespaces**;
* `Blob.reconstruct_ne_blobNamespace` – reading is not refused for a namespace of blobs;
* `Blob.map_ns_of_readAll` – the blobs that are read are those that the shares start, in order;
* `Blob.count_ns_of_reconstructAll` – so **nothing is passed over** outside of the reserved
  namespaces;
* `Namespace.rules_agree` – all ways to make and to classify a namespace agree.
-/

namespace Availability

/-- **A well-formed namespace is one of blobs** exactly if its version is 0 and it lies in neither
of the reserved ranges. -/
theorem Namespace.validateForBlob_iff_of_validate {ns : Namespace} (h : ns.validate = .ok ()) :
    ns.validateForBlob = .ok () ↔ ns.version = 0 ∧ ns.isReserved = false := by
  constructor
  · intro hblob
    exact ⟨(validateForBlob_eq_ok_iff.mp hblob).2.2, not_isReserved hblob⟩
  · rintro ⟨hversion, hfree⟩
    rw [isReserved, Bool.or_eq_false_iff, decide_eq_false_iff_not, not_le] at hfree
    exact validateForBlob_eq_ok_iff.mpr ⟨h, hfree.1, hversion⟩

namespace Blob

/-! ### Reading is not refused -/

section Causes

variable {ns : Namespace} (h : ns.validateForBlob = .ok ()) (other : Namespace)
include h

/-- The parts of a blob are refused for other causes than its namespace. -/
theorem validateBlob_ne_blobNamespace (data : Bytes) (version : UInt8) :
    validateBlob ns data version ≠ .error (.blobNamespace other) := by
  rw [validateBlob, h]
  split_ifs
  all_goals
    intro heq
    cases heq

theorem make_ne_blobNamespace (data : Bytes) (version : UInt8) (app : AppVersion) :
    make ns data version app ≠ .error (.blobNamespace other) := by
  refine Checked.bind_ne_error ?_ fun commitment _ heq => by cases heq
  intro hcommit
  rcases of_commit_eq_error hcommit with hparts | ⟨-, hcause⟩
  · exact validateBlob_ne_blobNamespace h other data version hparts
  · cases hcause

omit h in
theorem checkFollowing_ne_blobNamespace (version : UInt8) (position : Nat) (shares : List Share) :
    checkFollowing ns version position shares ≠ .error (.blobNamespace other) := by
  induction shares generalizing position with
  | nil =>
    intro heq
    cases heq
  | cons share shares ih =>
    rw [checkFollowing]
    split_ifs
    case neg => exact ih (position + 1)
    all_goals
      intro heq
      cases heq

/-- **Reading is never refused for a namespace of blobs.** -/
theorem reconstruct_ne_blobNamespace {first : Share} (hfirst : first.ns = ns) (rest : List Share)
    (app : AppVersion) : reconstruct (first :: rest) app ≠ .error (.blobNamespace other) := by
  subst hfirst
  rw [reconstruct, read]
  split
  case h_1 length _ =>
    rw [Namespace.not_isReserved h]
    refine Checked.bind_ne_error (checkFollowing_ne_blobNamespace other _ _ _) fun _ _ => ?_
    dsimp only
    split
    case isTrue =>
      intro heq
      cases heq
    case isFalse => exact make_ne_blobNamespace h other _ _ app
  case h_2 =>
    intro heq
    cases heq

end Causes

/-! ### Nothing is passed over -/

/-- **The blobs that are read** are those that the shares start, in order. -/
theorem map_ns_of_readAll {app : AppVersion} {shares : List Share} {blobs : List Blob}
    (h : readAll app shares = .ok blobs) :
    blobs.map Blob.ns = (shares.filter startsBlob).map Share.ns := by
  induction shares using readAll.induct generalizing blobs with
  | case1 =>
    rw [readAll] at h
    cases h
    rfl
  | case2 share rest hstarts ih =>
    rw [readAll, if_pos hstarts] at h
    simp only [Checked.bind_eq_ok_iff, Checked.pure_eq_ok_iff] at h
    obtain ⟨blob, hblob, others, hothers, rfl⟩ := h
    obtain ⟨following, after, length, rfl, hsequence, hmake⟩ := read_eq_ok_iff.mp hblob
    -- the shares that belong to the blob start no other one
    have hnone : following.filter startsBlob = [] := by
      refine List.filter_eq_nil_iff.mpr fun member hmember => ?_
      rw [startsBlob, (hsequence.continues member hmember).isStart_eq]
      exact Bool.false_ne_true
    have hcount : followingCount share = following.length := by
      have := followingCount_add_one hsequence.starts
      have := hsequence.count
      omega
    rw [hcount, List.drop_left] at ih hothers
    rw [List.map_cons, ih hothers, List.filter_cons_of_pos hstarts, List.filter_append, hnone,
      List.nil_append, List.map_cons, (of_make_eq_ok hmake).2.1]
  | case3 share rest hstarts ih =>
    rw [readAll, if_neg hstarts] at h
    rw [List.filter_cons_of_neg hstarts, ih h]

/-- Shares outside of the reserved namespaces are all looked at. -/
theorem reconstructAll_eq_readAll {ns : Namespace} (h : ns.isReserved = false) (shares : List Share)
    (app : AppVersion) : ∃ kept, reconstructAll shares app = readAll app kept ∧
      kept.Sublist shares ∧ kept.filter (·.ns = ns) = shares.filter (·.ns = ns) := by
  refine ⟨_, rfl, List.filter_sublist, ?_⟩
  rw [List.filter_filter]
  refine List.filter_congr fun share _ => ?_
  by_cases hns : share.ns = ns
  · rw [hns, h]
    simp
  · simp [hns]

/-- **There is a blob for each share** that starts one, in a namespace that is not reserved. -/
theorem count_ns_of_reconstructAll {ns : Namespace} (h : ns.isReserved = false)
    {shares : List Share} {app : AppVersion} {blobs : List Blob}
    (hblobs : reconstructAll shares app = .ok blobs) :
    (blobs.map Blob.ns).count ns = (shares.filter startsBlob).countP (·.ns = ns) := by
  rw [map_ns_of_readAll hblobs, List.count, List.countP_map, List.filter_filter, List.countP_filter,
    List.countP_filter]
  refine List.countP_congr fun share _ => ?_
  by_cases hns : share.ns = ns
  · simp [hns, h]
  · simp [hns]

end Blob

/-! ### All rules -/

/-- **All ways to make and to classify a namespace agree.** Bytes are made into a namespace exactly
if they are those of a well-formed one, which is then made of them in every way there is. A
namespace that is made of a version and an id is well-formed, and is made again of its own version
and id. A well-formed namespace is one of blobs exactly if it has version 0 and is not reserved; so
no share is refused or passed over for its namespace if that is one in which blobs are committed
to, and there are as many blobs read of it as there are shares that start one. -/
theorem Namespace.rules_agree :
    (∀ bs, ((∃ ns, ofRaw bs = .ok ns) ↔
        ∃ h : bs.length = 29, (⟨bs, h⟩ : Namespace).validate = .ok ()) ∧
      ∀ ns, ofRaw bs = .ok ns → ns.bytes = bs ∧ ns.checked = .ok ns ∧
        Decoder.ofText JsonForm.read (Json.ofBytes bs).render = .ok ns) ∧
    (∀ version id ns, ofId version id = .ok ns →
      ns.validate = .ok () ∧ ofId ns.version ns.id = .ok ns) ∧
    (∀ ns : Namespace, ns.validate = .ok () →
      (ns.validateForBlob = .ok () ↔ ns.version = 0 ∧ ns.isReserved = false)) ∧
    ∀ ns data version threshold c, commit ns data version threshold = .ok c →
      (∀ first rest app other, first.ns = ns →
        Blob.reconstruct (first :: rest) app ≠ .error (.blobNamespace other)) ∧
      ∀ shares app,
        (∃ kept, Blob.reconstructAll shares app = Blob.readAll app kept ∧
          kept.Sublist shares ∧ kept.filter (·.ns = ns) = shares.filter (·.ns = ns)) ∧
        ∀ blobs, Blob.reconstructAll shares app = .ok blobs →
          (blobs.map Blob.ns).count ns = (shares.filter Blob.startsBlob).countP (·.ns = ns) := by
  refine ⟨fun bs => ⟨⟨?_, ?_⟩, fun ns hraw => ?_⟩, fun version id ns hid => ?_, fun ns hvalid => ?_,
    fun ns data version threshold c hcommit => ⟨?_, fun shares app => ⟨?_, fun blobs hblobs => ?_⟩⟩⟩
  · rintro ⟨ns, hraw⟩
    obtain ⟨rfl, hvalid⟩ := ofRaw_eq_ok_iff.mp hraw
    exact ⟨ns.length_bytes, hvalid⟩
  · rintro ⟨hlength, hvalid⟩
    exact ⟨⟨bs, hlength⟩, ofRaw_eq_ok_iff.mpr ⟨rfl, hvalid⟩⟩
  · obtain ⟨rfl, -⟩ := ofRaw_eq_ok_iff.mp hraw
    refine ⟨rfl, hraw, ?_⟩
    rw [ofText_render_ofBytes, hraw]
    rfl
  · exact ⟨validate_ofId hid, ofId_version_id (validate_ofId hid)⟩
  · exact validateForBlob_iff_of_validate hvalid
  all_goals have hblob : ns.validateForBlob = .ok () :=
    (validateBlob_eq_ok_iff.mp (commit_eq_ok_iff.mp hcommit).1).2.2.1
  · intro first rest app other hfirst
    exact Blob.reconstruct_ne_blobNamespace hblob other hfirst rest app
  · exact Blob.reconstructAll_eq_readAll (not_isReserved hblob) shares app
  · exact Blob.count_ns_of_reconstructAll (not_isReserved hblob) hblobs

/-- A namespace of blobs, one byte under it, and padding after this. -/
theorem Namespace.rules_agree_byte :
    ∃ ns c blob, ofRaw (ofSuffix [1, 0]).bytes = .ok ns ∧ ns.checked = .ok ns ∧
      commit ns [7] 0 64 = .ok c ∧
      Blob.reconstructAll (Share.split ns 0 [7] ++ [Share.padding .tailPadding]) .v4 =
        .ok [blob] ∧
      ((Share.split ns 0 [7] ++ [Share.padding .tailPadding]).filter Blob.startsBlob).countP
        (·.ns = ns) = 1 := by
  obtain ⟨hraw, -, -, hblobs⟩ := rules_agree
  have hmade : ofRaw (ofSuffix [1, 0]).bytes = .ok (ofSuffix [1, 0]) := rfl
  have hvalid : validateBlob (ofSuffix [1, 0]) [7] 0 = .ok () := rfl
  have hcommit := commit_eq_ok_iff.mpr ⟨hvalid, show 64 ≠ 0 by norm_num, rfl⟩
  obtain ⟨blob, hmake⟩ := Blob.exists_make_eq_ok hvalid .v4
  have hpadding : Blob.ReadAs .v4 [Share.padding .tailPadding] [] := by
    refine Blob.ReadAs.of_passed_over fun share hshare => ?_
    rw [List.mem_singleton.mp hshare]
    exact .inr (Blob.startsBlob_padding _)
  have hread := ((Blob.ReadAs.of_split hvalid hmake).append hpadding).reconstructAll_eq_ok
  refine ⟨_, _, blob, hmade, ((hraw _).2 _ hmade).2.1, hcommit, hread, ?_⟩
  rw [← ((hblobs _ _ _ _ _ hcommit).2 _ _).2 _ hread, List.append_nil, List.map_singleton,
    (Blob.of_make_eq_ok hmake).2.1]
  exact List.count_singleton_self

end Availability
