import Availability.Proofs.Guarded.Buffer
import Mathlib.Algebra.Order.Floor.Div

/-!
# Sequences are written whole or not at all

A sequence is written share by share, and every share that is finished goes to the shares before it
at once. A call that stops in the middle would leave the beginning of a sequence behind, which no
reader could tell from a sequence that was lost. So it matters **what is checked before the first
share is written**: after that nothing may fail, neither a field, nor a share that comes out too
long or too short, nor the loop by coming no closer to the end of the data.

* `Action.on` – a run on a state that only exists for it, such as the share that is being built;
* `write`, `writeShares` – the shares of a sequence, one after the other;
* `run_write` – a sequence is written as a whole, and **a call that is refused leaves everything as
  it was**;
* `Share.IsCanonical` – what the shares of a sequence are, from which everything that is in them can
  be told;
* `Share.isCanonical_split` – that is what is written, and `write_canonical_or_nothing` – nothing
  else ever is.
-/

namespace Availability

namespace Guarded

/-- A run on a state of its own. -/
def Action.on {σ α : Type} (x : Action σ α) (s : σ) : Except Stop (α × σ) :=
  match x.run s with
  | .ok a s' => .ok (a, s')
  | .error stop _ => .error stop

theorem on_of_ok {σ α : Type} {x : Action σ α} {s s' : σ} {a : α} (h : x.run s = .ok a s') :
    x.on s = .ok (a, s') := by
  rw [Action.on, h]

/-! ### Writing share by share -/

/-- Goes on with a sequence in a share that was begun. -/
def writeShares (ns : Namespace) (version : UInt8) (share : ShareBuffer) (data : Bytes) :
    Action ShareSplitter Unit := do
  let (rest, filled) ← Action.of ((ShareBuffer.add data).on share)
  let (built, _) ← Action.of (ShareBuffer.build.on filled)
  modify fun s => ⟨s.shares ++ [built]⟩
  if rest = [] then return
  if _ : rest.length < data.length then
    let next ← Action.of (ShareBuffer.make ns version false)
    writeShares ns version next rest
  else throw (.broken .endless)
termination_by data.length

/-- Writes a sequence. -/
def write (ns : Namespace) (version : UInt8) (data : Bytes) : Action ShareSplitter Unit := do
  if version ∉ Share.supportedVersions then throw (.refused (.shareVersion version))
  if UInt32.size ≤ data.length then throw (.refused (.sequenceLength data.length))
  let first ← Action.of (ShareBuffer.make ns version true)
  let (_, first) ← Action.of ((ShareBuffer.writeSequenceLength (.ofNat data.length)).on first)
  writeShares ns version first data

/-- A version that can be held is all that a new share needs. -/
theorem make_eq_ok (ns : Namespace) {version : UInt8} (h : version ≤ InfoByte.maxVersion)
    (isFirst : Bool) :
    ShareBuffer.make ns version isFirst = .ok (ShareBuilder.blank ns version isFirst).buffer := by
  rw [ShareBuilder.make_buffer, ShareBuilder.make, InfoByte.make, if_pos h]
  rfl

/-- **The loop writes the share that was begun and all that follow it.** Each share has room for
data when it is begun, so that there is less data left for the next one. -/
theorem run_writeShares (ns : Namespace) {version : UInt8}
    (hversion : version ≤ InfoByte.maxVersion) {b : ShareBuilder} (hroom : 0 < b.available)
    (data : Bytes) (s : ShareSplitter) :
    (writeShares ns version b.buffer data).run s =
      .ok () ⟨s.shares ++ (b.add data).1.build :: Share.splitRest ns version (b.add data).2⟩ := by
  -- on what is left of the data: the share that was begun and those before it change with it
  induction h : data.length using Nat.strong_induction_on generalizing b data s with
  | _ n ih =>
    subst h
    have hpushed : (modify fun s : ShareSplitter => ⟨s.shares ++ [(b.add data).1.build]⟩ :
        Action ShareSplitter Unit).run s = .ok () ⟨s.shares ++ [(b.add data).1.build]⟩ := rfl
    rw [writeShares, bind_of_ok (run_of_ok (on_of_ok (b.add_buffer data)) s),
      bind_of_ok (run_of_ok (on_of_ok (b.add data).1.build_buffer) s), bind_of_ok hpushed]
    by_cases hrest : (b.add data).2 = []
    · rw [if_pos hrest, hrest, Share.splitRest_nil]
      rfl
    · have hlt : (b.add data).2.length < data.length := by
        refine ShareBuilder.length_add_lt hroom fun hdata => hrest ?_
        rw [hdata]
        exact List.drop_nil
      rw [if_neg hrest, dif_pos hlt, Share.splitRest, dif_neg hrest]
      refine (bind_of_ok (run_of_ok (make_eq_ok ns hversion false) _) _).trans ?_
      rw [ih _ hlt (ShareBuilder.available_blank_pos ns version false) _ _ rfl, List.append_assoc]
      rfl

/-- **A sequence is written as a whole, or nothing is.** -/
theorem run_write (ns : Namespace) (version : UInt8) (data : Bytes) (s : ShareSplitter) :
    (write ns version data).run s =
      match s.write ns version data with
      | .ok s' => .ok () s'
      | .error error => .error (.refused error) s := by
  rw [write, ShareSplitter.write]
  by_cases hversion : version ∉ Share.supportedVersions
  · rw [if_pos hversion, if_pos hversion]
    rfl
  rw [if_neg hversion, if_neg hversion]
  by_cases hlength : UInt32.size ≤ data.length
  · rw [if_pos hlength, if_pos hlength]
    rfl
  rw [if_neg hlength, if_neg hlength]
  have hheld : version ≤ InfoByte.maxVersion := by
    rw [List.mem_singleton.mp (not_not.mp hversion)]
    decide
  have hfirst :=
    (ShareBuilder.blank ns version true).writeSequenceLength_buffer (.ofNat data.length)
  have hroom : 0 < (Share.firstBuilder ns version data).available := by
    have hle := Share.headerSize_le ns true
    rw [Share.available_firstBuilder, Share.firstCapacity, Share.size]
    omega
  refine (bind_of_ok (run_of_ok (make_eq_ok ns hheld true) s) _).trans ?_
  refine (bind_of_ok (run_of_ok (on_of_ok hfirst) s) _).trans ?_
  exact run_writeShares ns hheld hroom data s

end Guarded

/-! ### The shares of a sequence -/

namespace Share

/-- The room for data in the first share of a sequence, and in every other one. -/
def capacities (ns : Namespace) : Nat × Nat :=
  if ns = .transaction ∨ ns = .payForBlob then (474, 478) else (478, 482)

/-- The number of shares that data of some length needs. -/
def sequenceCount (ns : Namespace) (length : Nat) : Nat :=
  if length ≤ (capacities ns).1 then 1
  else 1 + (length - (capacities ns).1) ⌈/⌉ (capacities ns).2

/-- **The shares of a sequence**: all that is in them is the namespace, the version, the data, its
length, and zeros to fill up the last one. -/
structure IsCanonical (ns : Namespace) (version : UInt8) (data : Bytes) (shares : List Share) :
    Prop where
  /-- Every share is of full size. -/
  length_bytes : ∀ share ∈ shares, share.bytes.length = 512
  /-- Every share repeats the namespace. -/
  ns_eq : ∀ share ∈ shares, share.ns = ns
  /-- Every share repeats the version. -/
  version_eq : ∀ share ∈ shares, share.info.version = version
  /-- The first share starts the sequence and tells its length, and no other share does. -/
  exists_first : ∃ first following, shares = first :: following ∧ first.isStart = true ∧
    first.sequenceLength?.map UInt32.toNat = some data.length ∧
    ∀ share ∈ following, share.isStart = false
  /-- The payloads are the data, and only zeros after that. -/
  payload_eq : ∃ n, shares.flatMap payload = data ++ List.replicate n 0
  /-- There are as many shares as the data needs. -/
  length_eq : shares.length = sequenceCount ns data.length

theorem capacities_eq (ns : Namespace) : capacities ns = (firstCapacity ns, nextCapacity ns) := by
  have hcompact : ns.isCompact = true ↔ ns = .transaction ∨ ns = .payForBlob := by
    simp [Namespace.isCompact]
  rw [capacities, firstCapacity, nextCapacity, headerSize, headerSize]
  by_cases h : ns.isCompact = true
  · rw [if_pos (hcompact.mp h), if_pos h]
    rfl
  · rw [if_neg (mt hcompact.mpr h), if_neg h]
    rfl

/-- The number of shares of a sequence in any namespace. -/
theorem length_split_eq_sequenceCount (ns : Namespace) (version : UInt8) (data : Bytes) :
    (split ns version data).length = sequenceCount ns data.length := by
  have hpos := nextCapacity_pos ns
  rw [split_eq, List.length_cons, length_splitRest, List.length_drop, sequenceCount, capacities_eq]
  split
  case isTrue hle =>
    rw [Nat.sub_eq_zero_of_le hle, Nat.zero_add, Nat.div_eq_of_lt (Nat.sub_lt hpos Nat.one_pos)]
  case isFalse => rw [Nat.ceilDiv_eq_add_pred_div, Nat.add_sub_assoc hpos, Nat.add_comm 1]

/-- **What is written is canonical.** -/
theorem isCanonical_split (ns : Namespace) {version : UInt8} {data : Bytes}
    (hversion : version ≤ InfoByte.maxVersion) (hlength : data.length < UInt32.size) :
    IsCanonical ns version data (split ns version data) where
  length_bytes share _ := share.length_bytes
  ns_eq share hmem := (of_mem_split hmem).1
  version_eq share hmem := by
    obtain ⟨isStart, hinfo⟩ := (of_mem_split hmem).2
    rw [hinfo, InfoByte.version_of hversion]
  exists_first := by
    have hsplit := split_eq ns version data
    obtain ⟨⟨-, hinfo, hfirst⟩, hfollowing⟩ := of_split_eq_cons hsplit
    refine ⟨_, _, hsplit, ?_, ?_, fun share hmem => ?_⟩
    · rw [isStart, hinfo, InfoByte.isStart_of]
    · rw [hfirst, Option.map_some, UInt32.toNat_ofNat', Nat.mod_eq_of_lt hlength]
    · rw [isStart, (hfollowing share hmem).2, InfoByte.isStart_of]
  payload_eq := flatMap_payload_split ns version data
  length_eq := length_split_eq_sequenceCount ns version data

end Share

/-- **A sequence is written in its canonical form, or nothing is written.** Of two ways to write it,
share by share and all at once, neither fails when the other does not. When the version is not
supported or the length cannot be written, both fail, and the shares are those from before. In all
other cases the shares from before are kept, and those of the sequence come after them; if it is
the data of a blob, there are as many as the blob foretells. -/
theorem ShareSplitter.write_canonical_or_nothing (s : ShareSplitter) (ns : Namespace)
    (version : UInt8) (data : Bytes) :
    (version ∉ Share.supportedVersions ∨ UInt32.size ≤ data.length →
      ∃ error, s.write ns version data = .error error ∧
        (Guarded.write ns version data).run s = .error (.refused error) s) ∧
    (version ∈ Share.supportedVersions ∧ data.length < UInt32.size →
      ∃ shares, s.write ns version data = .ok ⟨s.shares ++ shares⟩ ∧
        (Guarded.write ns version data).run s = .ok () ⟨s.shares ++ shares⟩ ∧
        Share.IsCanonical ns version data shares ∧
        ∀ blob : Blob, blob.ns = ns → blob.data = data → ns.validateForBlob = .ok () →
          shares.length = blob.shareCount) := by
  have hrun := Guarded.run_write ns version data s
  constructor
  · intro h
    have hwrite : ∃ error, s.write ns version data = .error error := by
      rw [ShareSplitter.write]
      by_cases hversion : version ∉ Share.supportedVersions
      · rw [if_pos hversion]
        exact ⟨_, rfl⟩
      · rw [if_neg hversion, if_pos (h.resolve_left hversion)]
        exact ⟨_, rfl⟩
    obtain ⟨error, hwrite⟩ := hwrite
    rw [hwrite] at hrun
    exact ⟨error, hwrite, hrun⟩
  · rintro ⟨hversion, hlength⟩
    have hwrite : s.write ns version data = .ok ⟨s.shares ++ Share.split ns version data⟩ := by
      rw [ShareSplitter.write, if_neg (not_not_intro hversion), if_neg (not_le.mpr hlength)]
    have hheld : version ≤ InfoByte.maxVersion := by
      rw [List.mem_singleton.mp hversion]
      decide
    rw [hwrite] at hrun
    refine ⟨_, hwrite, hrun, Share.isCanonical_split ns hheld hlength, ?_⟩
    rintro blob - rfl hns
    exact Share.length_split (Namespace.not_isCompact hns) version blob.data

/-- One byte more than the first share has room for. -/
theorem ShareSplitter.write_one_byte_more :
    ∃ shares, empty.write (.ofSuffix [1, 0]) 0 (List.replicate 479 7) = .ok ⟨shares⟩ ∧
      shares.length = 2 := by
  obtain ⟨shares, hwrite, -, hcanonical, -⟩ :=
    (empty.write_canonical_or_nothing (.ofSuffix [1, 0]) 0 (List.replicate 479 7)).2
      ⟨by decide, by rw [List.length_replicate]; decide⟩
  refine ⟨shares, hwrite, ?_⟩
  rw [hcanonical.length_eq, List.length_replicate]
  decide +kernel

end Availability
