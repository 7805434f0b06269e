import Availability.Proofs.Share.Split
import Mathlib.Data.List.Induction

/-!
# A share is its parts

A share without a reserved index is a namespace, an info byte, the length of the sequence when it
starts one, and a payload. All of these can be read off, and there is nothing else in it: shares
that agree in their parts are the same. The shares of a sequence are not known by what they hold,
though. The last one may have anything after the data where splitting leaves zeros, and nobody looks
at it there.

* `Bytes.ofNat_toNat`, `InfoByte.of_version_isStart` – a number and an info byte are written as they
  were read;
* `Share.ext_parts` – **shares with the same parts are the same**;
* `Share.zeroAfter`, `Share.zeroAllAfter` – shares with zeros after the first bytes of their
  payload;
* `Share.Continues`, `Share.sequenceData` – which shares go on with a sequence, and what they hold;
* `Share.split_sequenceData` – splitting what the shares of a sequence hold gives **these shares
  again**, with zeros after the data.
-/

namespace Availability

/-! ### Reading and writing fields -/

/-- A number is written as it was read. -/
theorem Bytes.ofNat_toNat {width : Nat} {bs : Bytes} (h : bs.length = width) :
    ofNat width (toNat bs) = bs := by
  induction bs using List.reverseRecOn generalizing width with
  | nil =>
    subst h
    rfl
  | append_singleton bs b ih =>
    obtain rfl : bs.length + 1 = width := by rw [← h, List.length_append, List.length_singleton]
    have hlt := b.toNat_lt
    have hlast : UInt8.ofNat (256 * toNat bs + b.toNat) = b := by
      rw [← UInt8.toNat_inj, UInt8.toNat_ofNat']
      omega
    rw [ofNat, toNat_concat, hlast, show (256 * toNat bs + b.toNat) / 256 = toNat bs by omega,
      ih rfl]

/-- An info byte holds its version and its sequence start, and nothing else. -/
theorem InfoByte.of_version_isStart (info : InfoByte) : of info.version info.isStart = info := by
  obtain ⟨byte⟩ := info
  have hlt := byte.toNat_lt
  rw [of, version, isStart, InfoByte.mk.injEq, ← UInt8.toNat_inj]
  by_cases hstart : byte % 2 = 1
  · have hodd : byte.toNat % 2 = 1 := by
      simpa using congrArg UInt8.toNat hstart
    simp [hstart, UInt8.toNat_add, UInt8.toNat_mul, UInt8.toNat_div]
    omega
  · have heven : byte.toNat % 2 ≠ 1 := by
      simpa [← UInt8.toNat_inj] using hstart
    simp [hstart, UInt8.toNat_mul, UInt8.toNat_div]
    omega

namespace Share

variable (share : Share)

/-! ### Shares with the same parts -/

theorem length_payload : share.payload.length = 512 - headerSize share.ns share.isStart := by
  rw [payload, List.length_drop, share.length_bytes]

/-- What follows the namespace and the info byte. -/
theorem bytes_eq : share.bytes = share.ns.bytes ++ share.info.byte :: share.bytes.drop 30 := by
  have hlt : 29 < share.bytes.length := by
    rw [share.length_bytes]
    decide
  have hdrop := List.drop_eq_getElem_cons hlt
  rw [info, hdrop, List.headD_cons, ← hdrop]
  exact (List.take_append_drop 29 share.bytes).symm

/-- Only a share that starts a sequence tells its length. -/
theorem sequenceLength?_eq_none_iff : share.sequenceLength? = none ↔ share.isStart = false := by
  rw [sequenceLength?]
  cases share.isStart <;> simp

theorem isStart_of_sequenceLength? {share : Share} {length : UInt32}
    (h : share.sequenceLength? = some length) : share.isStart = true := by
  rw [← Bool.not_eq_false, ← sequenceLength?_eq_none_iff, h]
  exact Option.some_ne_none _

/-- The length of a sequence is in the four bytes after the info byte of its first share. -/
theorem ofNat_sequenceLength {share : Share} {length : UInt32}
    (h : share.sequenceLength? = some length) :
    Bytes.ofNat 4 length.toNat = (share.bytes.drop 30).take 4 := by
  have hlength : ((share.bytes.drop 30).take 4).length = 4 := by
    rw [List.length_take, List.length_drop, share.length_bytes]
    rfl
  rw [sequenceLength?] at h
  split at h
  case isTrue =>
    have hread := Bytes.toNat_ofNat 4 (Bytes.toNat ((share.bytes.drop 30).take 4))
    rw [Bytes.ofNat_toNat hlength] at hread
    rw [← Option.some.inj h, UInt32.toNat_ofNat', ← show _ = _ % 2 ^ 32 from hread,
      Bytes.ofNat_toNat hlength]
  case isFalse => cases h

/-- **Shares with the same parts are the same**, when they have no reserved index. -/
theorem ext_parts {a b : Share} (hcompact : a.ns.isCompact = false) (hns : a.ns = b.ns)
    (hinfo : a.info = b.info) (hlength : a.sequenceLength? = b.sequenceLength?)
    (hpayload : a.payload = b.payload) : a = b := by
  have hstart : a.isStart = b.isStart := by rw [isStart, isStart, hinfo]
  have hrest : a.bytes.drop 30 = b.bytes.drop 30 := by
    rw [payload, payload, ← hns, ← hstart, headerSize, hcompact] at hpayload
    cases ha : a.isStart with
    | false =>
      rw [ha] at hpayload
      exact hpayload
    | true =>
      have hfield : (a.bytes.drop 30).take 4 = (b.bytes.drop 30).take 4 := by
        obtain ⟨length, h⟩ : ∃ length, a.sequenceLength? = some length := by
          rw [sequenceLength?, if_pos ha]
          exact ⟨_, rfl⟩
        rw [← ofNat_sequenceLength h, ofNat_sequenceLength (hlength ▸ h)]
      rw [ha] at hpayload
      have hafter : (a.bytes.drop 30).drop 4 = (b.bytes.drop 30).drop 4 := by
        rw [List.drop_drop, List.drop_drop]
        exact hpayload
      rw [← List.take_append_drop 4 (a.bytes.drop 30), hfield, hafter, List.take_append_drop]
  have hbytes : a.bytes = b.bytes := by
    rw [bytes_eq a, bytes_eq b, hns, hinfo, hrest]
  exact Share.ext hbytes

/-! ### Zeros after the data -/

/-- The share with zeros for its payload after the first `keep` bytes. -/
def zeroAfter (keep : Nat) : Share where
  bytes := share.bytes.take (headerSize share.ns share.isStart + keep) ++
    List.replicate (512 - (headerSize share.ns share.isStart + keep)) 0
  length_bytes := by
    rw [List.length_append, List.length_take, List.length_replicate, share.length_bytes]
    omega

/-- Shares with zeros for their payloads after the first `keep` bytes of all of them. -/
def zeroAllAfter : (keep : Nat) → List Share → List Share
  | _, [] => []
  | keep, share :: rest => share.zeroAfter keep :: zeroAllAfter (keep - share.payload.length) rest

section ZeroAfter

variable (keep : Nat)

/-- The header stays as it is. -/
theorem take_bytes_zeroAfter {n : Nat} (h : n ≤ headerSize share.ns share.isStart) :
    (share.zeroAfter keep).bytes.take n = share.bytes.take n := by
  have hle := headerSize_le share.ns share.isStart
  rw [zeroAfter, List.take_append_of_le_length, List.take_take, min_eq_left (by omega)]
  rw [List.length_take, share.length_bytes]
  omega

@[simp] theorem ns_zeroAfter : (share.zeroAfter keep).ns = share.ns := by
  refine Namespace.ext (take_bytes_zeroAfter share keep ?_)
  rw [headerSize]
  omega

@[simp] theorem info_zeroAfter : (share.zeroAfter keep).info = share.info := by
  have htake : (share.zeroAfter keep).bytes.take 30 = share.bytes.take 30 :=
    take_bytes_zeroAfter share keep (by rw [headerSize]; omega)
  have hbyte : (share.zeroAfter keep).bytes[29]? = share.bytes[29]? := by
    rw [← List.getElem?_take_of_lt (show 29 < 30 by decide), htake,
      List.getElem?_take_of_lt (by decide)]
  rw [info, info, List.headD_eq_head?_getD, List.headD_eq_head?_getD, List.head?_drop,
    List.head?_drop, hbyte]

@[simp] theorem isStart_zeroAfter : (share.zeroAfter keep).isStart = share.isStart := by
  rw [isStart, isStart, info_zeroAfter]

@[simp] theorem sequenceLength?_zeroAfter :
    (share.zeroAfter keep).sequenceLength? = share.sequenceLength? := by
  rw [sequenceLength?, sequenceLength?, isStart_zeroAfter]
  split
  case isTrue hstart =>
    rw [List.take_drop, List.take_drop, take_bytes_zeroAfter]
    rw [headerSize, if_pos hstart]
    omega
  case isFalse => rfl

@[simp] theorem payload_zeroAfter : (share.zeroAfter keep).payload =
    share.payload.take keep ++ List.replicate (share.payload.length - keep) 0 := by
  have hle := headerSize_le share.ns share.isStart
  rw [length_payload, payload, payload, ns_zeroAfter, isStart_zeroAfter, zeroAfter,
    List.drop_append_of_le_length, List.drop_take, Nat.add_sub_cancel_left, Nat.sub_sub]
  rw [List.length_take, share.length_bytes]
  omega

end ZeroAfter

/-! ### Splitting again -/

/-- **A share is built again** of what it holds, when its data goes on with what comes after it. -/
theorem build_add_eq_zeroAfter {b : ShareBuilder} {share : Share}
    (hcompact : share.ns.isCompact = false) (hns : b.ns = share.ns) (hinfo : b.info = share.info)
    (hfirst : b.isFirst = share.isStart)
    (hlength : share.isStart = true → share.sequenceLength? = some b.sequenceLength)
    (hempty : b.payload = []) (more : Bytes) (keep : Nat) :
    (b.add ((share.payload ++ more).take keep)).1.build = share.zeroAfter keep := by
  have havailable : b.available = share.payload.length := by
    rw [ShareBuilder.available_of_empty b hempty, length_payload, hns, hfirst]
  have hstart : b.info.isStart = b.isFirst := by
    rw [hinfo, hfirst, isStart]
  refine ext_parts ?_ ?_ ?_ ?_ ?_
  · rw [ShareBuilder.ns_build]
    exact hns ▸ hcompact
  · rw [ShareBuilder.ns_build, ns_zeroAfter]
    exact hns
  · rw [ShareBuilder.info_build, info_zeroAfter]
    exact hinfo
  · rw [sequenceLength?_zeroAfter]
    cases hshare : share.isStart with
    | false =>
      rw [(sequenceLength?_eq_none_iff share).mpr hshare, sequenceLength?_eq_none_iff,
        ShareBuilder.isStart_build]
      exact hstart.trans (hfirst.trans hshare)
    | true =>
      rw [hlength hshare]
      exact ShareBuilder.sequenceLength?_build _ (hstart.trans (hfirst.trans hshare))
        (hfirst.trans hshare)
  · have htake : ((share.payload ++ more).take keep).take share.payload.length =
        share.payload.take keep := by
      rw [List.take_take, List.take_append_of_le_length (min_le_left _ _), min_comm,
        ← List.take_eq_take_min]
    rw [ShareBuilder.payload_build_add b hstart hempty, havailable, payload_zeroAfter, htake,
      List.length_take, List.length_append]
    congr 2
    omega

/-- What the shares after the first one hold is split into these shares again, as many as there have
to be. -/
theorem splitRest_payloads {ns : Namespace} {version : UInt8} (hcompact : ns.isCompact = false)
    {shares : List Share} (h : ∀ share ∈ shares, share.ns = ns ∧ share.info = .of version false)
    {keep : Nat} (hcount : shares.length = (keep + 481) / 482) :
    splitRest ns version ((shares.flatMap payload).take keep) = zeroAllAfter keep shares := by
  induction shares generalizing keep with
  | nil =>
    rw [List.flatMap_nil, List.take_nil, splitRest_nil]
    rfl
  | cons share rest ih =>
    obtain ⟨⟨rfl, hinfo⟩, hrest⟩ := List.forall_mem_cons.mp h
    rw [List.length_cons] at hcount
    have hstart : share.isStart = false := by
      rw [isStart, hinfo, InfoByte.isStart_of]
    have hlength : share.payload.length = 482 := by
      rw [length_payload, hstart]
      exact nextCapacity_of_not_isCompact hcompact
    -- there is something left to be written, or there would be no such share
    have hne : ((share :: rest).flatMap payload).take keep ≠ [] := by
      refine List.ne_nil_of_length_pos ?_
      rw [List.flatMap_cons, List.length_take, List.length_append, hlength]
      omega
    have hlater : share.isStart = true → share.sequenceLength? = some 0 := by
      intro h
      cases hstart.symm.trans h
    have hbuild := build_add_eq_zeroAfter (b := ShareBuilder.blank share.ns version false)
      hcompact rfl hinfo.symm hstart.symm hlater rfl (rest.flatMap payload) keep
    rw [splitRest_of_ne_nil hne, List.flatMap_cons, hbuild, zeroAllAfter,
      nextCapacity_of_not_isCompact hcompact, hlength, List.drop_take, List.drop_left' hlength,
      ih hrest (by omega)]

/-! ### Sequences -/

/-- A share goes on with the sequence that another one starts. -/
@[mk_iff]
structure Continues (first share : Share) : Prop where
  /-- It repeats the namespace. -/
  ns_eq : share.ns = first.ns
  /-- It repeats the share version. -/
  version_eq : share.info.version = first.info.version
  /-- It does not start a sequence itself. -/
  isStart_eq : share.isStart = false

/-- What the shares of a sequence hold, up to the length of the sequence. -/
def sequenceData (first : Share) (following : List Share) (length : UInt32) : Bytes :=
  ((first :: following).flatMap payload).take length.toNat

theorem Continues.info_eq {first share : Share} (h : Continues first share) :
    share.info = .of first.info.version false := by
  rw [← h.version_eq, ← h.isStart_eq, isStart, InfoByte.of_version_isStart]

section Sequence

variable {first : Share} {following : List Share} {length : UInt32}
  (hcompact : first.ns.isCompact = false) (hfirst : first.sequenceLength? = some length)
include hcompact hfirst

theorem length_payload_first : first.payload.length = 478 := by
  rw [length_payload, isStart_of_sequenceLength? hfirst]
  exact firstCapacity_of_not_isCompact hcompact

variable (hfollowing : ∀ share ∈ following, Continues first share)
  (hcount : following.length + 1 = sharesNeeded length.toNat)
include hfollowing hcount

/-- The shares of a sequence hold enough for its length. -/
theorem length_sequenceData : (sequenceData first following length).length = length.toNat := by
  have hnext : following.map (fun share => share.payload.length) =
      following.map fun _ => 482 := by
    apply List.map_congr_left
    intro share hmem
    rw [length_payload, (hfollowing share hmem).ns_eq, (hfollowing share hmem).isStart_eq]
    exact nextCapacity_of_not_isCompact hcompact
  rw [sequenceData, List.length_take, List.flatMap_cons, List.length_append, List.length_flatMap,
    hnext, length_payload_first hcompact hfirst, List.map_const', List.sum_replicate_nat]
  rw [sharesNeeded_eq] at hcount
  omega

/-- **Splitting what the shares of a sequence hold gives these shares again**, with zeros after the
data. -/
theorem split_sequenceData :
    split first.ns first.info.version (sequenceData first following length) =
      zeroAllAfter length.toNat (first :: following) := by
  have hstart := isStart_of_sequenceLength? hfirst
  have hinfo : .of first.info.version true = first.info := by
    rw [← hstart, isStart, InfoByte.of_version_isStart]
  have hsize : UInt32.ofNat (sequenceData first following length).length = length := by
    rw [length_sequenceData hcompact hfirst hfollowing hcount, UInt32.ofNat_toNat]
  have hrest : ∀ share ∈ following,
      share.ns = first.ns ∧ share.info = .of first.info.version false := by
    intro share hmem
    exact ⟨(hfollowing share hmem).ns_eq, (hfollowing share hmem).info_eq⟩
  have hbuild := build_add_eq_zeroAfter
    (b := firstBuilder first.ns first.info.version (sequenceData first following length))
    hcompact rfl hinfo hstart.symm (fun _ => hfirst.trans (congrArg some hsize.symm)) rfl
    (following.flatMap payload) length.toNat
  have hlength := length_payload_first hcompact hfirst
  rw [sharesNeeded_eq, Nat.add_right_cancel_iff] at hcount
  rw [← List.flatMap_cons, ← sequenceData] at hbuild
  rw [split_eq, hbuild, firstCapacity_of_not_isCompact hcompact, zeroAllAfter, hlength,
    sequenceData, List.flatMap_cons, List.drop_take, List.drop_left' hlength,
    splitRest_payloads hcompact hrest hcount]

end Sequence

end Share

end Availability
