import Availability.Proofs.Blob.Commitment
import Availability.Proofs.Share.Parts

/-!
# Reading blobs back

Blobs, data in reserved namespaces and padding are written one after the other, and the shares are
read again without being told where one of them ends. A blob is known by its first share, which says
how many more belong to it; padding looks like the first share of an empty sequence, and reserved
namespaces are not looked at. So what is read from some shares depends on nothing that comes after
them, and each step of writing can be looked at by itself.

* `Blob.read_append`, `Blob.reconstruct_split` – a sequence is read from its shares, **whatever
  comes after them**, and so is a blob;
* `Blob.ReadAs` – shares that are read as some blobs, and can be put one after the other;
* `ShareSplitter.Step`, `ShareSplitter.run` – everything that may be written, in any order;
* `ShareSplitter.exists_readAs_after`, `ShareSplitter.exists_readAs_foldl` – what one step appends,
  and what a run does;
* `ShareSplitter.reconstructAll_run` – **what was written is read back**, and nothing else.
-/

namespace Availability

namespace Blob

/-! ### The shares of a blob -/

/-- Shares continue a sequence when they are of its namespace and version, and start nothing. -/
theorem checkFollowing_eq_ok_iff {first : Share} {position : Nat} {shares : List Share} :
    checkFollowing first.ns first.info.version position shares = .ok () ↔
      ∀ share ∈ shares, Share.Continues first share := by
  induction shares generalizing position with
  | nil => simp [checkFollowing]
  | cons share rest ih =>
    rw [checkFollowing, List.forall_mem_cons, Share.continues_iff]
    split_ifs with hns hversion hstart
    · simp [hns]
    · simp [hversion]
    · simp [hstart]
    · rw [ih, iff_and_self]
      exact fun _ => ⟨not_not.mp hns, not_not.mp hversion, Bool.eq_false_iff.mpr hstart⟩

/-- **What is read of the shares of a sequence**, whatever comes after them. -/
theorem read_append {first : Share} {following : List Share} {length : UInt32}
    (hfirst : first.sequenceLength? = some length) (hreserved : first.ns.isReserved = false)
    (hcount : followingCount first = following.length)
    (hfollowing : ∀ share ∈ following, Share.Continues first share) (rest : List Share)
    (app : AppVersion) :
    read first (following ++ rest) app =
      make first.ns (Share.sequenceData first following length) first.info.version app := by
  simp only [read, hfirst, hcount, List.take_left, hreserved,
    checkFollowing_eq_ok_iff.mpr hfollowing, Bool.false_eq_true, lt_irrefl, if_false]
  rfl

/-- What is read where a blob was written. -/
structure Restores (app : AppVersion) (written read : Blob) : Prop where
  /-- The namespace is the same. -/
  ns_eq : read.ns = written.ns
  /-- The data is the same. -/
  data_eq : read.data = written.data
  /-- The share version is the same. -/
  version_eq : read.version = written.version
  /-- The position is not known. -/
  index_eq : read.index = none
  /-- The commitment is that of the parts. -/
  commit_eq :
    commit written.ns written.data written.version app.subtreeRootThreshold = .ok read.commitment

theorem make_eq_ok_iff {app : AppVersion} {written read : Blob} :
    make written.ns written.data written.version app = .ok read ↔ Restores app written read := by
  simp only [make, Checked.bind_eq_ok_iff, Checked.pure_eq_ok_iff]
  constructor
  · rintro ⟨commitment, hcommit, rfl⟩
    exact ⟨rfl, rfl, rfl, rfl, hcommit⟩
  · rintro ⟨hns, hdata, hversion, hindex, hcommit⟩
    refine ⟨read.commitment, hcommit, ?_⟩
    rw [← hns, ← hdata, ← hversion, ← hindex]

/-- Padding is not taken for the first share of a blob. -/
theorem startsBlob_padding (ns : Namespace) : startsBlob (Share.padding ns) = false := by
  simp [startsBlob, Share.isPadding, Share.sequenceLength?_padding]

section Split

variable {ns : Namespace} {data : Bytes} {version : UInt8}
  (h : validateBlob ns data version = .ok ())
include h

/-- Parts that make a blob make one under the rules of every version of the application. -/
theorem exists_make_eq_ok (app : AppVersion) : ∃ blob, make ns data version app = .ok blob := by
  have ht : app.subtreeRootThreshold ≠ 0 := by cases app <;> decide
  have hcommit := commit_eq_ok_iff.mpr ⟨h, ht, rfl⟩
  exact ⟨_, by rw [make, hcommit]; rfl⟩

variable {first : Share} {following : List Share}
  (hsplit : Share.split ns version data = first :: following)
include hsplit

/-- The first share of a blob tells how long the data is. -/
theorem exists_sequenceLength?_of_split :
    ∃ length, first.sequenceLength? = some length ∧ length.toNat = data.length := by
  refine ⟨_, (Share.of_split_eq_cons hsplit).1.2.2, ?_⟩
  rw [UInt32.toNat_ofNat', Nat.mod_eq_of_lt (length_lt_of_validateBlob h)]

/-- It also tells how many shares follow it. -/
theorem followingCount_of_split : followingCount first = following.length := by
  obtain ⟨length, hfirst, hlength⟩ := exists_sequenceLength?_of_split h hsplit
  have hcount := Share.length_split
    (Namespace.not_isCompact (validateBlob_eq_ok_iff.mp h).2.2.1) version data
  rw [hsplit, List.length_cons] at hcount
  rw [followingCount, hfirst]
  dsimp only
  rw [hlength, ← hcount, Nat.add_sub_cancel]

/-- The first share of a blob is not taken for padding. -/
theorem startsBlob_of_split : startsBlob first = true := by
  obtain ⟨hdata, -, hvalid, -⟩ := validateBlob_eq_ok_iff.mp h
  obtain ⟨⟨hns, hinfo, -⟩, -⟩ := Share.of_split_eq_cons hsplit
  obtain ⟨length, hfirst, hlength⟩ := exists_sequenceLength?_of_split h hsplit
  have htail : ns ≠ .tailPadding := (Namespace.lt_tailPadding hvalid).ne
  have hprimary : ns ≠ .primaryReservedPadding :=
    (Namespace.validateForBlob_eq_ok_iff.mp hvalid).2.1.ne'
  have hzero : length ≠ 0 := by
    rintro rfl
    exact hdata (List.length_eq_zero_iff.mp hlength.symm)
  simp [startsBlob, Share.isStart, Share.isPadding, hns, hinfo, hfirst, htail, hprimary, hzero]

/-- **A blob is read from its shares**, whatever comes after them. -/
theorem read_of_split (rest : List Share) (app : AppVersion) :
    read first (following ++ rest) app = make ns data version app := by
  obtain ⟨-, -, hvalid, -⟩ := validateBlob_eq_ok_iff.mp h
  obtain ⟨⟨hns, hinfo, -⟩, hfollowing⟩ := Share.of_split_eq_cons hsplit
  obtain ⟨length, hfirst, hlength⟩ := exists_sequenceLength?_of_split h hsplit
  have hversion (isStart : Bool) : (InfoByte.of version isStart).version = version :=
    InfoByte.version_of (version_le_of_validateBlob h) isStart
  have hcheck : ∀ share ∈ following, Share.Continues first share := by
    intro share hmem
    obtain ⟨hns', hinfo'⟩ := hfollowing share hmem
    refine ⟨hns'.trans hns.symm, ?_, ?_⟩
    · rw [hinfo, hinfo', hversion, hversion]
    · rw [Share.isStart, hinfo', InfoByte.isStart_of]
  have hdata : Share.sequenceData first following length = data := by
    obtain ⟨n, hn⟩ := Share.flatMap_payload_split ns version data
    rw [Share.sequenceData, ← hsplit, hn, hlength, List.take_left]
  have hreserved : first.ns.isReserved = false := by
    rw [hns, Namespace.not_isReserved hvalid]
  rw [read_append hfirst hreserved (followingCount_of_split h hsplit) hcheck, hdata, hns, hinfo,
    hversion]

end Split

/-- **A blob is read back** from the shares it is split into. -/
theorem reconstruct_split {ns : Namespace} {data : Bytes} {version : UInt8}
    (h : validateBlob ns data version = .ok ()) (rest : List Share) (app : AppVersion) :
    reconstruct (Share.split ns version data ++ rest) app = make ns data version app := by
  obtain ⟨first, following, hsplit⟩ :=
    List.exists_cons_of_ne_nil (Share.split_ne_nil ns version data)
  rw [hsplit, List.cons_append, reconstruct, read_of_split h hsplit]

/-! ### Shares that are read as blobs -/

/-- The shares are read as the blobs, **whatever comes after them**. -/
def ReadAs (app : AppVersion) (shares : List Share) (blobs : List Blob) : Prop :=
  ∀ rest, reconstructAll (shares ++ rest) app = (blobs ++ ·) <$> reconstructAll rest app

namespace ReadAs

variable {app : AppVersion} {shares more : List Share} {blobs others : List Blob}

theorem nil : ReadAs app [] [] := fun rest => by
  simp

/-- What is read from shares that stand one after the other. -/
theorem append (h : ReadAs app shares blobs) (h' : ReadAs app more others) :
    ReadAs app (shares ++ more) (blobs ++ others) := fun rest => by
  rw [List.append_assoc, h, h', Functor.map_map]
  simp only [List.append_assoc]

/-- What is read when nothing comes after the shares. -/
theorem reconstructAll_eq_ok (h : ReadAs app shares blobs) :
    reconstructAll shares app = .ok blobs := by
  have hnil := h []
  rw [List.append_nil] at hnil
  rw [hnil, reconstructAll, List.filter_nil, readAll]
  simp

/-- Padding and shares of reserved namespaces are passed over. -/
theorem of_passed_over
    (h : ∀ share ∈ shares, share.ns.isReserved = true ∨ startsBlob share = false) :
    ReadAs app shares [] := by
  induction shares with
  | nil => exact nil
  | cons share shares ih =>
    obtain ⟨hshare, hshares⟩ := List.forall_mem_cons.mp h
    refine append (fun rest => ?_ : ReadAs app [share] []) (ih hshares)
    simp only [List.nil_append, id_map', List.singleton_append, reconstructAll, List.filter_cons]
    split
    case isTrue hreserved =>
      have hstart := hshare.resolve_left (by simpa using hreserved)
      rw [readAll, if_neg (Bool.eq_false_iff.mp hstart)]
    case isFalse => rfl

/-- The shares of a blob are read as this blob. -/
theorem of_split {ns : Namespace} {data : Bytes} {version : UInt8} {blob : Blob}
    (h : validateBlob ns data version = .ok ()) (hmake : make ns data version app = .ok blob) :
    ReadAs app (Share.split ns version data) [blob] := fun rest => by
  have hfilter : (Share.split ns version data).filter (fun share => !share.ns.isReserved) =
      Share.split ns version data := List.filter_eq_self.mpr fun share hmem => by
    rw [(Share.of_mem_split hmem).1,
      Namespace.not_isReserved (validateBlob_eq_ok_iff.mp h).2.2.1, Bool.not_false]
  obtain ⟨first, following, hsplit⟩ :=
    List.exists_cons_of_ne_nil (Share.split_ne_nil ns version data)
  rw [reconstructAll, List.filter_append, hfilter, hsplit, List.cons_append, readAll,
    if_pos (startsBlob_of_split h hsplit), read_of_split h hsplit, hmake,
    followingCount_of_split h hsplit, List.drop_left]
  rfl

end ReadAs

end Blob

/-! ### Writing -/

namespace ShareSplitter

theorem write_eq_ok_iff {s s' : ShareSplitter} {ns : Namespace} {version : UInt8} {data : Bytes} :
    s.write ns version data = .ok s' ↔ version ∈ Share.supportedVersions ∧
      data.length < UInt32.size ∧ s' = ⟨s.shares ++ Share.split ns version data⟩ := by
  rw [write]
  split
  case isTrue hversion => simp [hversion]
  case isFalse hversion =>
    split
    case isTrue hlength => simp [not_lt.mpr hlength]
    case isFalse hlength => simp [not_not.mp hversion, not_le.mp hlength, eq_comm]

/-- Padding is of one namespace. -/
theorem exists_of_pad_eq_ok {s s' : ShareSplitter} {count : Nat} (h : s.pad count = .ok s') :
    ∃ ns, s'.shares = s.shares ++ List.replicate count (Share.padding ns) := by
  rw [pad] at h
  split at h
  case isTrue hzero =>
    obtain rfl := Except.ok.inj h
    exact ⟨default, by rw [hzero, List.replicate_zero, List.append_nil]⟩
  case isFalse =>
    split at h
    case h_1 last _ =>
      obtain rfl := Except.ok.inj h
      exact ⟨last.ns, rfl⟩
    case h_2 => cases h

/-- What may be written next. -/
inductive Step where
  /-- A blob. -/
  | blob (blob : Blob) (valid : validateBlob blob.ns blob.data blob.version = .ok ())
  /-- Data of any length in a reserved namespace. -/
  | reserved (ns : Namespace) (data : Bytes) (isReserved : ns.isReserved = true)
  /-- Padding. -/
  | padding (count : Nat)

/-- Writes what the step says, or fails. -/
def Step.write (s : ShareSplitter) : Step → Except Error ShareSplitter
  | .blob b _ => s.write b.ns b.version b.data
  | .reserved ns data _ => s.write ns 0 data
  | .padding count => s.pad count

/-- The blob that the step writes. -/
def Step.blob? : Step → Option Blob
  | .blob b _ => some b
  | .reserved .. | .padding _ => none

/-- What is written after one more step. A step that fails changes nothing. -/
def after (s : ShareSplitter) (step : Step) : ShareSplitter :=
  match step.write s with
  | .ok s' => s'
  | .error _ => s

/-- What is written after all steps. -/
def run (steps : List Step) : ShareSplitter :=
  steps.foldl after empty

/-- The blobs that are written. -/
def written (steps : List Step) : List Blob :=
  steps.filterMap Step.blob?

theorem written_cons (step : Step) (steps : List Step) :
    written (step :: steps) = step.blob?.toList ++ written steps := by
  rw [written, List.filterMap_cons]
  cases step <;> rfl

/-- A blob is always written. -/
theorem blob?_of_write_eq_error {s : ShareSplitter} {step : Step} {e : Error}
    (h : step.write s = .error e) : step.blob? = none := by
  cases step with
  | blob b valid =>
    have hwrite : (Step.blob b valid).write s = .ok _ := write_eq_ok_iff.mpr
      ⟨(validateBlob_eq_ok_iff.mp valid).2.2.2, length_lt_of_validateBlob valid, rfl⟩
    cases h.symm.trans hwrite
  | reserved ns data hns => rfl
  | padding count => rfl

/-- What a step appends is read as the blob that it writes, if it writes one. -/
theorem exists_readAs_of_write_eq_ok (app : AppVersion) {s s' : ShareSplitter} {step : Step}
    (h : step.write s = .ok s') :
    ∃ shares blobs, s'.shares = s.shares ++ shares ∧ Blob.ReadAs app shares blobs ∧
      List.Forall₂ (Blob.Restores app) step.blob?.toList blobs := by
  cases step with
  | blob b valid =>
    obtain ⟨-, -, rfl⟩ := write_eq_ok_iff.mp h
    obtain ⟨read, hread⟩ := Blob.exists_make_eq_ok valid app
    exact ⟨_, [read], rfl, .of_split valid hread, .cons (Blob.make_eq_ok_iff.mp hread) .nil⟩
  | reserved ns data hns =>
    obtain ⟨-, -, rfl⟩ := write_eq_ok_iff.mp h
    refine ⟨_, [], rfl, .of_passed_over fun share hmem => .inl ?_, .nil⟩
    rw [(Share.of_mem_split hmem).1, hns]
  | padding count =>
    obtain ⟨ns, hshares⟩ := exists_of_pad_eq_ok h
    refine ⟨_, [], hshares, .of_passed_over fun share hmem => .inr ?_, .nil⟩
    rw [List.eq_of_mem_replicate hmem, Blob.startsBlob_padding]

/-- **What one step does**: it appends shares that are read as the blob that it writes, if it writes
one. -/
theorem exists_readAs_after (app : AppVersion) (s : ShareSplitter) (step : Step) :
    ∃ shares blobs, (s.after step).shares = s.shares ++ shares ∧ Blob.ReadAs app shares blobs ∧
      List.Forall₂ (Blob.Restores app) step.blob?.toList blobs := by
  rw [after]
  cases hwrite : step.write s with
  | ok s' => exact exists_readAs_of_write_eq_ok app hwrite
  | error e =>
    rw [blob?_of_write_eq_error hwrite]
    exact ⟨[], [], (List.append_nil _).symm, .nil, .nil⟩

/-- **What a run does**, whatever was written before it. -/
theorem exists_readAs_foldl (app : AppVersion) (s : ShareSplitter) (steps : List Step) :
    ∃ shares blobs, (steps.foldl after s).shares = s.shares ++ shares ∧
      Blob.ReadAs app shares blobs ∧ List.Forall₂ (Blob.Restores app) (written steps) blobs := by
  induction steps generalizing s with
  | nil => exact ⟨[], [], (List.append_nil _).symm, .nil, .nil⟩
  | cons step steps ih =>
    obtain ⟨shares, blobs, happended, hread, hblobs⟩ := exists_readAs_after app s step
    obtain ⟨more, others, hmore, hothers, hrest⟩ := ih (s.after step)
    refine ⟨shares ++ more, blobs ++ others, ?_, hread.append hothers, ?_⟩
    · rw [List.foldl_cons, hmore, happended, List.append_assoc]
    · rw [written_cons]
      exact List.rel_append hblobs hrest

/-- **What was written is read back**: whatever the steps are, all blobs are read in their order,
each with its own commitment, and nothing else is read. -/
theorem reconstructAll_run (app : AppVersion) (steps : List Step) :
    ∃ blobs, Blob.reconstructAll (run steps).shares app = .ok blobs ∧
      List.Forall₂ (Blob.Restores app) (written steps) blobs := by
  obtain ⟨shares, blobs, hshares, hread, hblobs⟩ := exists_readAs_foldl app empty steps
  refine ⟨blobs, ?_, hblobs⟩
  rw [run, hshares]
  exact hread.reconstructAll_eq_ok

end ShareSplitter

end Availability
