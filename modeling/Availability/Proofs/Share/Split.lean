import Availability.Blob
import Availability.Proofs.Namespace.Order
import Mathlib.Algebra.Order.Ring.Nat
import Mathlib.Data.List.Basic
import Mathlib.Tactic.Common

/-!
# What is in the shares of a sequence

Data is framed when it is split: every share repeats the namespace and the version, the first one
tells how long the data is, and the last one is filled up. The statements here are that the frame
can be taken off again.

* `ShareBuilder.ns_build`, `ShareBuilder.info_build`, `ShareBuilder.payload_build`,
  `ShareBuilder.sequenceLength?_build` – the parts of a share that was built;
* `Share.flatMap_payload_split` – the payloads of a sequence are the data, **followed by zeros**;
* `Share.length_split` – their number, for a namespace without reserved indexes;
* `Share.split_injective` – different data is never written in the same shares.
-/

namespace Availability

/-! ### The info byte -/

namespace InfoByte

@[simp] theorem isStart_of (version : UInt8) (isStart : Bool) :
    (of version isStart).isStart = isStart := by
  have hbyte : ((of version isStart).byte % 2).toNat = if isStart then 1 else 0 := by
    cases isStart <;> simp [of, UInt8.toNat_mod, UInt8.toNat_add, UInt8.toNat_mul]
  rw [Bool.eq_iff_iff]
  simp only [InfoByte.isStart, decide_eq_true_eq, ← UInt8.toNat_inj, hbyte]
  cases isStart <;> simp

theorem version_of {version : UInt8} (h : version ≤ maxVersion) (isStart : Bool) :
    (of version isStart).version = version := by
  have hle : version.toNat ≤ 127 := UInt8.le_iff_toNat_le.mp h
  rw [InfoByte.version, ← UInt8.toNat_inj]
  cases isStart <;> simp [of, UInt8.toNat_div, UInt8.toNat_add, UInt8.toNat_mul] <;> omega

end InfoByte

/-! ### A share that was built -/

namespace ShareBuilder

variable (b : ShareBuilder)

theorem bytes_build :
    b.build.bytes = b.header ++ (b.payload ++ List.replicate b.available 0) := by
  simp [build, raw]

/-- The header begins with the namespace and the info byte. -/
theorem exists_header : ∃ fields, b.header = b.ns.bytes ++ b.info.byte :: fields := ⟨_, rfl⟩

@[simp] theorem ns_build : b.build.ns = b.ns := by
  obtain ⟨fields, hheader⟩ := b.exists_header
  refine Namespace.ext ?_
  change b.build.bytes.take 29 = b.ns.bytes
  rw [bytes_build, hheader, List.append_assoc, List.take_left' b.ns.length_bytes]

@[simp] theorem info_build : b.build.info = b.info := by
  obtain ⟨fields, hheader⟩ := b.exists_header
  rw [Share.info, bytes_build, hheader, List.append_assoc, List.drop_left' b.ns.length_bytes]
  rfl

@[simp] theorem isStart_build : b.build.isStart = b.info.isStart := by
  rw [Share.isStart, info_build]

/-- The payload of a share whose layout is that of its info byte. -/
theorem payload_build (h : b.info.isStart = b.isFirst) :
    b.build.payload = b.payload ++ List.replicate b.available 0 := by
  rw [Share.payload, ns_build, isStart_build, h, bytes_build, ← length_header, List.drop_left]

/-- The length that a first share holds. -/
theorem sequenceLength?_build (h : b.info.isStart = true) (hfirst : b.isFirst = true) :
    b.build.sequenceLength? = some b.sequenceLength := by
  have hfield : (b.build.bytes.drop 30).take 4 = Bytes.ofNat 4 b.sequenceLength.toNat := by
    rw [bytes_build, header, hfirst, if_pos rfl, List.append_cons]
    simp only [List.append_assoc]
    rw [← List.append_assoc, List.drop_left' (by simp [b.ns.length_bytes]),
      List.take_left' (Bytes.length_ofNat 4 _)]
  have hlt := b.sequenceLength.toNat_lt
  rw [Share.sequenceLength?, isStart_build, h, if_pos rfl, hfield, Bytes.toNat_ofNat,
    Nat.mod_eq_of_lt (by simpa using hlt), UInt32.ofNat_toNat]

theorem available_of_empty (h : b.payload = []) :
    b.available = 512 - Share.headerSize b.ns b.isFirst := by
  rw [available, length_raw, h, List.length_nil, Nat.add_zero]

/-- The payload of a share that some data was added to: as much of the data as fits, and zeros in
the room that is left. -/
theorem payload_build_add (h : b.info.isStart = b.isFirst) (hempty : b.payload = [])
    (data : Bytes) :
    (b.add data).1.build.payload =
      data.take b.available ++ List.replicate (b.available - data.length) 0 := by
  have havailable : (b.add data).1.available = b.available - data.length := by
    simp only [available, length_raw, add, hempty, List.length_append, List.length_take,
      List.length_nil]
    omega
  rw [payload_build (b.add data).1 h, havailable]
  simp [add, hempty]

end ShareBuilder

@[simp] theorem Share.ns_padding (ns : Namespace) : (Share.padding ns).ns = ns :=
  ShareBuilder.ns_build _

/-! ### The shares of a sequence -/

/-- Data needs the first share, and others for what this one has no room for. -/
theorem sharesNeeded_eq (size : Nat) : sharesNeeded size = (size - 478 + 481) / 482 + 1 := by
  rw [sharesNeeded]
  split <;> omega

namespace Share

variable {ns : Namespace} {version : UInt8}

@[simp] theorem splitRest_nil : splitRest ns version [] = [] := by
  rw [splitRest, dif_pos rfl]

theorem splitRest_of_ne_nil {data : Bytes} (h : data ≠ []) :
    splitRest ns version data = ((ShareBuilder.blank ns version false).add data).1.build ::
      splitRest ns version (data.drop (nextCapacity ns)) := by
  have havailable : (ShareBuilder.blank ns version false).available = nextCapacity ns :=
    ShareBuilder.available_of_empty _ rfl
  rw [splitRest, dif_neg h, ← havailable]
  rfl

/-- **The shares after the first one** repeat the namespace and the version, and start nothing. -/
theorem of_mem_splitRest {data : Bytes} {share : Share} (h : share ∈ splitRest ns version data) :
    share.ns = ns ∧ share.info = .of version false := by
  induction data using splitRest.induct ns version with
  | case1 => simp at h
  | case2 data hne added ih =>
    rw [splitRest, dif_neg hne, List.mem_cons] at h
    rcases h with rfl | h
    · exact ⟨ShareBuilder.ns_build _, ShareBuilder.info_build _⟩
    · exact ih h

/-- The first share of a sequence, before it is filled up. -/
def firstBuilder (ns : Namespace) (version : UInt8) (data : Bytes) : ShareBuilder :=
  { ShareBuilder.blank ns version true with sequenceLength := .ofNat data.length }

theorem available_firstBuilder (ns : Namespace) (version : UInt8) (data : Bytes) :
    (firstBuilder ns version data).available = firstCapacity ns :=
  ShareBuilder.available_of_empty _ rfl

theorem split_eq (ns : Namespace) (version : UInt8) (data : Bytes) :
    split ns version data = ((firstBuilder ns version data).add data).1.build ::
      splitRest ns version (data.drop (firstCapacity ns)) := by
  rw [← available_firstBuilder ns version data]
  rfl

theorem split_ne_nil (ns : Namespace) (version : UInt8) (data : Bytes) :
    split ns version data ≠ [] := by
  rw [split_eq]
  exact List.cons_ne_nil _ _

/-- **Every share of a sequence** repeats the namespace and the version. -/
theorem of_mem_split {data : Bytes} {share : Share} (h : share ∈ split ns version data) :
    share.ns = ns ∧ ∃ isStart, share.info = .of version isStart := by
  rw [split_eq, List.mem_cons] at h
  rcases h with rfl | h
  · exact ⟨ShareBuilder.ns_build _, true, ShareBuilder.info_build _⟩
  · exact ⟨(of_mem_splitRest h).1, false, (of_mem_splitRest h).2⟩

/-- **The first share of a sequence** holds the length of the data; all others start nothing. -/
theorem of_split_eq_cons {data : Bytes} {first : Share} {following : List Share}
    (h : split ns version data = first :: following) :
    (first.ns = ns ∧ first.info = .of version true ∧
      first.sequenceLength? = some (.ofNat data.length)) ∧
    ∀ share ∈ following, share.ns = ns ∧ share.info = .of version false := by
  rw [split_eq] at h
  obtain ⟨rfl, rfl⟩ := List.cons.inj h
  refine ⟨⟨ShareBuilder.ns_build _, ShareBuilder.info_build _, ?_⟩, fun _ => of_mem_splitRest⟩
  exact ShareBuilder.sequenceLength?_build _ (InfoByte.isStart_of version true) rfl

/-- The first share of a sequence holds the length of the data. -/
theorem sequenceLength?_head (ns : Namespace) (version : UInt8) (data : Bytes) :
    ∃ first rest, split ns version data = first :: rest ∧
      first.sequenceLength? = some (.ofNat data.length) :=
  have h := split_eq ns version data
  ⟨_, _, h, (of_split_eq_cons h).1.2.2⟩

/-- A padding share starts a sequence without data. -/
theorem sequenceLength?_padding (ns : Namespace) : (padding ns).sequenceLength? = some 0 :=
  ShareBuilder.sequenceLength?_build _ (InfoByte.isStart_of 0 true) rfl

/-! ### The number of shares -/

theorem nextCapacity_pos (ns : Namespace) : 0 < nextCapacity ns := by
  have := headerSize_le ns false
  rw [nextCapacity, size]
  omega

/-- The number of shares after the first one: what they hold, rounded up to whole shares. -/
theorem length_splitRest (ns : Namespace) (version : UInt8) (data : Bytes) :
    (splitRest ns version data).length =
      (data.length + (nextCapacity ns - 1)) / nextCapacity ns := by
  have hpos := nextCapacity_pos ns
  induction h : data.length using Nat.strong_induction_on generalizing data with
  | _ n ih =>
    subst h
    by_cases hnil : data = []
    · subst hnil
      simp only [splitRest_nil, List.length_nil, Nat.zero_add]
      exact (Nat.div_eq_of_lt (Nat.sub_lt hpos Nat.one_pos)).symm
    · have hlen := List.length_pos_iff.mpr hnil
      rw [splitRest_of_ne_nil hnil, List.length_cons,
        ih _ (by rw [List.length_drop]; omega) _ rfl, List.length_drop]
      rcases le_total (nextCapacity ns) data.length with hle | hle
      · rw [← Nat.add_div_right _ hpos]
        congr 1
        omega
      · rw [Nat.sub_eq_zero_of_le hle, Nat.zero_add,
          Nat.div_eq_of_lt (Nat.sub_lt hpos Nat.one_pos)]
        exact (Nat.div_eq_of_lt_le (by omega) (by omega)).symm

theorem firstCapacity_of_not_isCompact (hns : ns.isCompact = false) : firstCapacity ns = 478 := by
  simp [firstCapacity, headerSize, size, hns]

theorem nextCapacity_of_not_isCompact (hns : ns.isCompact = false) : nextCapacity ns = 482 := by
  simp [nextCapacity, headerSize, size, hns]

/-- **The number of shares of a sequence**, in a namespace without reserved indexes. -/
theorem length_split (hns : ns.isCompact = false) (version : UInt8) (data : Bytes) :
    (split ns version data).length = sharesNeeded data.length := by
  rw [split_eq, List.length_cons, length_splitRest, List.length_drop,
    firstCapacity_of_not_isCompact hns, nextCapacity_of_not_isCompact hns, sharesNeeded_eq]

/-- Data that is short is written in one share. -/
theorem exists_split_eq_singleton (hns : ns.isCompact = false) (version : UInt8) {data : Bytes}
    (h : data.length < 478) : ∃ share, split ns version data = [share] := by
  refine List.length_eq_one_iff.mp ?_
  rw [length_split hns, sharesNeeded, if_pos h]

/-! ### Payloads -/

/-- Data that is cut off at the room of a share, filled up, and continued with what was cut off, is
the data followed by zeros: there is nothing to continue with when something was filled up. -/
theorem exists_zeros {room : Nat} {data rest : Bytes}
    (hrest : ∃ n, rest = data.drop room ++ List.replicate n 0)
    (hnil : data.drop room = [] → rest = []) :
    ∃ n, data.take room ++ List.replicate (room - data.length) 0 ++ rest =
      data ++ List.replicate n 0 := by
  rcases le_total data.length room with h | h
  · refine ⟨room - data.length, ?_⟩
    rw [hnil (List.drop_eq_nil_of_le h), List.take_of_length_le h, List.append_nil]
  · obtain ⟨n, rfl⟩ := hrest
    refine ⟨n, ?_⟩
    rw [Nat.sub_eq_zero_of_le h, List.replicate_zero, List.append_nil, ← List.append_assoc,
      List.take_append_drop]

theorem flatMap_payload_splitRest (ns : Namespace) (version : UInt8) (data : Bytes) :
    ∃ n, (splitRest ns version data).flatMap payload = data ++ List.replicate n 0 := by
  induction data using splitRest.induct ns version with
  | case1 => exact ⟨0, by simp⟩
  | case2 data hne added ih =>
    have havailable : (ShareBuilder.blank ns version false).available = nextCapacity ns :=
      ShareBuilder.available_of_empty _ rfl
    have hrest : added.2 = data.drop (nextCapacity ns) := by
      rw [← havailable]
      rfl
    rw [hrest] at ih
    rw [splitRest_of_ne_nil hne, List.flatMap_cons,
      ShareBuilder.payload_build_add _ (InfoByte.isStart_of version false) rfl, havailable]
    refine exists_zeros ih fun hnil => ?_
    rw [hnil]
    simp

/-- **The payloads of a sequence are its data, followed by zeros.** -/
theorem flatMap_payload_split (ns : Namespace) (version : UInt8) (data : Bytes) :
    ∃ n, (split ns version data).flatMap payload = data ++ List.replicate n 0 := by
  rw [split_eq, List.flatMap_cons,
    ShareBuilder.payload_build_add (firstBuilder ns version data)
      (InfoByte.isStart_of version true) rfl, available_firstBuilder]
  refine exists_zeros (flatMap_payload_splitRest ns version _) fun hnil => ?_
  rw [hnil]
  simp

/-- **Different data is never written in the same shares**, as long as its length can be written. -/
theorem split_injective {data data' : Bytes} (hlt : data.length < UInt32.size)
    (hlt' : data'.length < UInt32.size) {ns' : Namespace} {version' : UInt8}
    (h : split ns version data = split ns' version' data') : data = data' := by
  obtain ⟨first, rest, hsplit, hlength⟩ := sequenceLength?_head ns version data
  obtain ⟨first', rest', hsplit', hlength'⟩ := sequenceLength?_head ns' version' data'
  obtain rfl : first = first' := by
    rw [hsplit, hsplit'] at h
    exact (List.cons.inj h).1
  have hcount : data.length = data'.length := by
    have hof := Option.some.inj (hlength.symm.trans hlength')
    have hnat := congrArg UInt32.toNat hof
    rwa [UInt32.toNat_ofNat', UInt32.toNat_ofNat', Nat.mod_eq_of_lt hlt,
      Nat.mod_eq_of_lt hlt'] at hnat
  obtain ⟨n, hn⟩ := flatMap_payload_split ns version data
  obtain ⟨n', hn'⟩ := flatMap_payload_split ns' version' data'
  rw [h, hn'] at hn
  exact (List.append_inj hn hcount.symm).1.symm

end Share

end Availability
