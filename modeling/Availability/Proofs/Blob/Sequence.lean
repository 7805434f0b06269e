import Availability.Proofs.Blob.Reconstruct
import Availability.Proofs.Share.Parts

/-!
# Which shares are a blob

Reading a blob checks its shares in two places: some things are looked at share by share, and the
others only when the commitment is made of what was read. Together these checks describe the shares
of a blob completely, whoever wrote them. What is left open is only what follows the data in the
last share, which is lost when the blob is written again.

* `Blob.IsSequence` – **what shares have to be** so that a blob is read from them;
* `Blob.read_eq_ok_iff`, `Blob.reconstruct_eq_ok_iff` – a blob is read from these shares and no
  others;
* `Blob.IsSequence.shares_of_make` – writing it gives the same shares, with zeros after the data;
* `Blob.reconstruct_iff_isSequence` – so reading **accepts the shares of a blob and nothing else**,
  and writing undoes it.
-/

namespace Availability

namespace Blob

/-- A blob is made of valid parts, and it has these parts. -/
theorem of_make_eq_ok {ns : Namespace} {data : Bytes} {version : UInt8} {app : AppVersion}
    {blob : Blob} (h : make ns data version app = .ok blob) :
    validateBlob ns data version = .ok () ∧
      blob.ns = ns ∧ blob.data = data ∧ blob.version = version := by
  simp only [make, Checked.bind_eq_ok_iff, Checked.pure_eq_ok_iff] at h
  obtain ⟨commitment, hcommit, rfl⟩ := h
  exact ⟨(commit_eq_ok_iff.mp hcommit).1, rfl, rfl, rfl⟩

/-! ### The shares of a blob -/

/-- The shares are those of a blob with data of some length. -/
structure IsSequence (first : Share) (following : List Share) (length : UInt32) : Prop where
  /-- The first share starts a sequence and tells its length. -/
  starts : first.sequenceLength? = some length
  /-- A blob is not empty. -/
  length_pos : 1 ≤ length.toNat
  /-- A blob is not too long. -/
  length_le : length.toNat ≤ maxBlobSize
  /-- There is one version of shares that blobs are written in. -/
  version_eq : first.info.version = 0
  /-- The namespace may be that of a blob. -/
  ns_valid : first.ns.validateForBlob = .ok ()
  /-- The other shares repeat the namespace and the version, and start nothing. -/
  continues : ∀ share ∈ following, Share.Continues first share
  /-- There are as many shares as the length needs. -/
  count : following.length + 1 = sharesNeeded length.toNat

namespace IsSequence

variable {first : Share} {following : List Share} {length : UInt32}
  (h : IsSequence first following length)
include h

theorem not_isCompact : first.ns.isCompact = false :=
  Namespace.not_isCompact h.ns_valid

theorem length_sequenceData : (Share.sequenceData first following length).length = length.toNat :=
  Share.length_sequenceData h.not_isCompact h.starts h.continues h.count

/-- The parts of the blob are valid. -/
theorem validateBlob_sequenceData :
    validateBlob first.ns (Share.sequenceData first following length) first.info.version =
      .ok () := by
  have hlength := h.length_sequenceData
  refine validateBlob_eq_ok_iff.mpr ⟨?_, ?_, h.ns_valid, ?_⟩
  · refine List.ne_nil_of_length_pos ?_
    rw [hlength]
    exact h.length_pos
  · rw [hlength]
    exact h.length_le
  · rw [h.version_eq]
    exact List.mem_singleton_self 0

/-- **The blob is written in the same shares**, with zeros after the data. -/
theorem shares_of_make {app : AppVersion} {blob : Blob}
    (hmake : make first.ns (Share.sequenceData first following length) first.info.version app =
      .ok blob) :
    blob.shares = .ok (Share.zeroAllAfter length.toNat (first :: following)) := by
  obtain ⟨hvalid, hns, hdata, hversion⟩ := of_make_eq_ok hmake
  have hwrite := write_of_validateBlob hvalid
  rw [Share.split_sequenceData h.not_isCompact h.starts h.continues h.count, ← hns, ← hdata,
    ← hversion] at hwrite
  rw [shares, hwrite]
  rfl

end IsSequence

/-! ### Reading -/

section Read

variable {first : Share} {app : AppVersion} {blob : Blob}

theorem followingCount_add_one {length : UInt32} (h : first.sequenceLength? = some length) :
    followingCount first + 1 = sharesNeeded length.toNat := by
  have hpos : 1 ≤ sharesNeeded length.toNat := by
    rw [sharesNeeded_eq]
    exact Nat.le_add_left 1 _
  rw [followingCount, h]
  exact Nat.sub_add_cancel hpos

/-- What is not looked at while the shares are read is found out with the commitment. -/
theorem isSequence_of_make {following : List Share} {length : UInt32}
    (hfirst : first.sequenceLength? = some length)
    (hcontinues : ∀ share ∈ following, Share.Continues first share)
    (hcount : following.length + 1 = sharesNeeded length.toNat)
    (hmake : make first.ns (Share.sequenceData first following length) first.info.version app =
      .ok blob) : IsSequence first following length := by
  obtain ⟨hne, hle, hvalid, hversion⟩ := validateBlob_eq_ok_iff.mp (of_make_eq_ok hmake).1
  have hlength : (Share.sequenceData first following length).length = length.toNat :=
    Share.length_sequenceData (Namespace.not_isCompact hvalid) hfirst hcontinues hcount
  refine ⟨hfirst, ?_, ?_, List.mem_singleton.mp hversion, hvalid, hcontinues, hcount⟩
  · rw [← hlength]
    exact List.length_pos_iff.mpr hne
  · rw [← hlength]
    exact hle

/-- **A blob is read from the shares of one**, and from no others. What comes after them is not
looked at. -/
theorem read_eq_ok_iff {rest : List Share} :
    read first rest app = .ok blob ↔ ∃ following after length, rest = following ++ after ∧
      IsSequence first following length ∧
      make first.ns (Share.sequenceData first following length) first.info.version app =
        .ok blob := by
  constructor
  · intro h
    rw [read] at h
    cases hfirst : first.sequenceLength? with
    | none =>
      rw [hfirst] at h
      cases h
    | some length =>
      simp only [hfirst, Checked.bind_eq_ok_iff, Checked.exists_unit_iff, Checked.throw_bind,
        Checked.ite_throw_eq_ok_iff] at h
      obtain ⟨-, hcheck, henough, hmake⟩ := h
      have hcount := followingCount_add_one hfirst
      have htake := List.length_take_le (followingCount first) rest
      refine ⟨rest.take (followingCount first), rest.drop (followingCount first), length,
        (List.take_append_drop _ _).symm, ?_, hmake⟩
      exact isSequence_of_make hfirst (checkFollowing_eq_ok_iff.mp hcheck) (by omega) hmake
  · rintro ⟨following, after, length, rfl, hsequence, hmake⟩
    have hcount := followingCount_add_one hsequence.starts
    have hlength := hsequence.count
    rw [read_append hsequence.starts (Namespace.not_isReserved hsequence.ns_valid) (by omega)
      hsequence.continues]
    exact hmake

theorem reconstruct_eq_ok_iff {shares : List Share} :
    reconstruct shares app = .ok blob ↔ ∃ first following after length,
      shares = first :: (following ++ after) ∧ IsSequence first following length ∧
      make first.ns (Share.sequenceData first following length) first.info.version app =
        .ok blob := by
  constructor
  · intro h
    cases shares with
    | nil => cases h
    | cons first rest =>
      obtain ⟨following, after, length, rfl, hsequence, hmake⟩ := read_eq_ok_iff.mp h
      exact ⟨first, following, after, length, rfl, hsequence, hmake⟩
  · rintro ⟨first, following, after, length, rfl, hsequence, hmake⟩
    exact read_eq_ok_iff.mpr ⟨following, after, length, rfl, hsequence, hmake⟩

end Read

/-- **The shares of a blob are read**, whatever comes after them, and they are what the blob is
written in, but for the bytes after the data. -/
theorem IsSequence.exists_reconstruct_eq_ok {first : Share} {following : List Share}
    {length : UInt32} (h : IsSequence first following length) (app : AppVersion) :
    ∃ blob, (∀ after, reconstruct (first :: (following ++ after)) app = .ok blob) ∧
      blob.shares = .ok (Share.zeroAllAfter length.toNat (first :: following)) := by
  obtain ⟨blob, hmake⟩ := exists_make_eq_ok h.validateBlob_sequenceData app
  refine ⟨blob, ?_, h.shares_of_make hmake⟩
  intro after
  exact reconstruct_eq_ok_iff.mpr ⟨first, following, after, length, rfl, h, hmake⟩

/-- **Reading accepts the shares of a blob and nothing else**, and the blob that is read is written
in the same shares, with zeros after the data. What comes after these shares changes nothing. -/
theorem reconstruct_iff_isSequence (app : AppVersion) :
    (∀ shares, (∃ blob, reconstruct shares app = .ok blob) ↔
      ∃ first following after length, shares = first :: (following ++ after) ∧
        IsSequence first following length) ∧
    ∀ first following length, IsSequence first following length →
      ∃ blob, (∀ after, reconstruct (first :: (following ++ after)) app = .ok blob) ∧
        blob.shares = .ok (Share.zeroAllAfter length.toNat (first :: following)) := by
  constructor
  · intro shares
    constructor
    · rintro ⟨blob, hblob⟩
      obtain ⟨first, following, after, length, hshares, hsequence, -⟩ :=
        reconstruct_eq_ok_iff.mp hblob
      exact ⟨first, following, after, length, hshares, hsequence⟩
    · rintro ⟨first, following, after, length, rfl, hsequence⟩
      obtain ⟨blob, hblob, -⟩ := hsequence.exists_reconstruct_eq_ok app
      exact ⟨blob, hblob after⟩
  · intro first following length hsequence
    exact hsequence.exists_reconstruct_eq_ok app

/-- Data of one byte more than the first share has room for: the second share has other bytes
after it, which are gone when the blob is written. -/
theorem reconstruct_iff_isSequence_pair : ∃ first second : Share,
    first.payload = List.replicate 478 7 ∧ second.payload = 7 :: List.replicate 481 9 ∧
      IsSequence first [second] 479 ∧
      ∃ blob, (∀ after, reconstruct (first :: ([second] ++ after)) .v1 = .ok blob) ∧
        blob.shares = .ok (Share.zeroAllAfter 479 [first, second]) := by
  obtain ⟨first, second, hfirst, hsecond, hsequence⟩ : ∃ first second : Share,
      first.payload = List.replicate 478 7 ∧ second.payload = 7 :: List.replicate 481 9 ∧
        IsSequence first [second] 479 := by
    refine ⟨⟨(Namespace.ofSuffix [1, 0]).bytes ++ [1, 0, 0, 1, 223] ++ List.replicate 478 7,
        by decide +kernel⟩, ⟨(Namespace.ofSuffix [1, 0]).bytes ++ [0, 7] ++ List.replicate 481 9,
        by decide +kernel⟩, by decide +kernel, by decide +kernel,
      ⟨by decide, by decide, by decide, by decide, rfl, ?_, by decide⟩⟩
    intro share hshare
    obtain rfl := List.mem_singleton.mp hshare
    exact ⟨by decide, by decide, by decide⟩
  exact ⟨first, second, hfirst, hsecond, hsequence,
    (reconstruct_iff_isSequence .v1).2 first [second] 479 hsequence⟩

end Blob

end Availability
