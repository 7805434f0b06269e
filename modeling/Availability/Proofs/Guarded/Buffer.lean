import Availability.Proofs.Guarded.Basic
import Availability.Proofs.Share.Split

/-!
# Shares written in place

A builder keeps the parts of a share, and makes bytes of them in the end. A machine only has the
bytes: the fields of the header are filled with zeros at first and written over later, at places
that depend on which fields there are, and what was written is read back from there. Data goes to
the end of the same bytes. A call that stops keeps whatever it has changed until then.

* `Action` – a run that changes a state, and **leaves it behind** when it stops;
* `ShareBuffer` – the bytes of a share that is being built, with nothing known of them;
* `ShareBuilder.buffer` – the bytes that the parts stand for;
* `ShareBuffer.add_buffer`, `ShareBuffer.pad_buffer`, `ShareBuffer.writeSequenceLength_buffer`,
  `ShareBuffer.writeReserved_buffer`, `ShareBuffer.build_buffer` – every call does **the same to the
  bytes as to the parts**, and a call that is refused has changed nothing.
-/

namespace Availability

namespace Guarded

/-! ### Runs that change a state -/

/-- A run that changes a state. -/
abbrev Action (σ α : Type) := EStateM Stop σ α

/-- A run that leaves the state as it is. -/
def Action.of {σ α : Type} (run : Except Stop α) : Action σ α := fun s =>
  match run with
  | .ok a => .ok a s
  | .error stop => .error stop s

section Action

variable {σ α β : Type} {x : Action σ α} {s s' : σ}

theorem bind_of_ok {a : α} (h : x.run s = .ok a s') (next : α → Action σ β) :
    (x >>= next).run s = (next a).run s' := by
  change EStateM.bind x next s = next a s'
  rw [EStateM.bind, show x s = .ok a s' from h]

theorem bind_of_error {stop : Stop} (h : x.run s = .error stop s') (next : α → Action σ β) :
    (x >>= next).run s = .error stop s' := by
  change EStateM.bind x next s = .error stop s'
  rw [EStateM.bind, show x s = .error stop s' from h]

theorem run_of_ok {run : Except Stop α} {a : α} (h : run = .ok a) (s : σ) :
    (Action.of run).run s = .ok a s := by
  rw [h]
  rfl

theorem run_of_error {run : Except Stop α} {stop : Stop} (h : run = .error stop) (s : σ) :
    (Action.of run : Action σ α).run s = .error stop s := by
  rw [h]
  rfl

/-- A state that is read is not changed. -/
theorem get_bind (next : σ → Action σ β) (s : σ) :
    ((get : Action σ σ) >>= next).run s = (next s).run s := rfl

end Action

/-! ### The buffer -/

/-- A share that is being built in place. -/
structure ShareBuffer where
  /-- The namespace. -/
  ns : Namespace
  /-- The share version. -/
  version : UInt8
  /-- Whether the share is the first of its sequence. -/
  isFirst : Bool
  /-- The bytes written so far. -/
  raw : Bytes
deriving DecidableEq

namespace ShareBuffer

/-- A buffer with zeros for the fields that are written later, if the version can be written. -/
def make (ns : Namespace) (version : UInt8) (isFirst : Bool) : Except Stop ShareBuffer := do
  let info ← (InfoByte.make version isFirst).mapError .refused
  return {
    ns, version, isFirst
    raw := ns.bytes ++ info.byte :: ((if isFirst then List.replicate 4 0 else []) ++
      if ns.isCompact then List.replicate 4 0 else []) }

/-- The number of bytes that are not written yet. -/
def available : Action ShareBuffer Nat := do
  Action.of (sub 512 (← get).raw.length)

/-- Writes after the last byte. -/
def append (bytes : Bytes) : Action ShareBuffer Unit :=
  modify fun b => { b with raw := b.raw ++ bytes }

/-- Appends as much of the data as fits, and gives back the rest. -/
def add (data : Bytes) : Action ShareBuffer Bytes := do
  let amount := min (← available) data.length
  let (fitting, rest) ← Action.of <| ensure (amount ≤ data.length) .outside fun _ =>
    .ok (data.take amount, data.drop amount)
  append fitting
  return rest

/-- Fills the buffer up with zeros, and gives their number. -/
def pad : Action ShareBuffer Nat := do
  let missing ← available
  append (List.replicate missing 0)
  return missing

/-- The bytes of a field. -/
def readField (start width : Nat) : Action ShareBuffer Bytes := do
  let raw := (← get).raw
  Action.of <| ensure (start + width ≤ raw.length) .outside fun _ =>
    .ok ((raw.drop start).take width)

/-- Writes over the bytes of a field. -/
def writeField (start : Nat) (field : Bytes) : Action ShareBuffer Unit := do
  let raw := (← get).raw
  let raw ← Action.of <| ensure (start + field.length ≤ raw.length) .outside fun _ =>
    .ok (raw.take start ++ (field ++ raw.drop (start + field.length)))
  modify fun b => { b with raw }

/-- Writes the length of the sequence, after the namespace and the info byte. -/
def writeSequenceLength (length : UInt32) : Action ShareBuffer Unit := do
  if !(← get).isFirst then throw (.refused .notFirstShare)
  writeField 30 (Bytes.ofNat 4 length.toNat)

/-- Where the reserved index is: after the length of the sequence, if there is one. -/
def reservedStart (isFirst : Bool) : Nat :=
  if isFirst then 34 else 30

/-- Writes the position that has been reached as a reserved index. -/
def writePosition (start : Nat) : Action ShareBuffer Unit := do
  let raw := (← get).raw
  if UInt32.size ≤ raw.length then throw (.refused (.reservedBytes (.ofNat (UInt32.size - 1))))
  let field ← Action.of ((Share.reservedBytes (.ofNat raw.length)).mapError .refused)
  writeField start field

/-- Writes the position that has been reached as the reserved index, unless one is there. -/
def writeReserved : Action ShareBuffer Unit := do
  let b ← get
  if !b.ns.isCompact then throw (.refused .notCompact)
  let field ← readField (reservedStart b.isFirst) 4
  let written ← Action.of ((Share.parseReserved field).mapError .refused)
  if written ≠ 0 then return
  writePosition (reservedStart b.isFirst)

/-- The share, filled up with zeros. -/
def build : Action ShareBuffer Share := do
  let _ ← pad
  let raw := (← get).raw
  if h : raw.length = 512 then return ⟨raw, h⟩
  else throw (.refused (.shareSize raw.length))

section Fields

variable {b : ShareBuffer} {front field rest : Bytes}

/-- A field is read from between what stands before and after it. -/
theorem run_readField (h : b.raw = front ++ (field ++ rest)) :
    (readField front.length field.length).run b = .ok field b := by
  have hle : front.length + field.length ≤ b.raw.length := by
    rw [h, List.length_append, List.length_append]
    omega
  rw [readField, get_bind]
  refine run_of_ok ?_ b
  rw [ensure_of hle, h, List.drop_left, List.take_left]

/-- A field is written between what stands before and after it, which stay as they are. -/
theorem run_writeField (h : b.raw = front ++ (field ++ rest)) (new : Bytes)
    (hnew : new.length = field.length) :
    (writeField front.length new).run b = .ok () { b with raw := front ++ (new ++ rest) } := by
  have hle : front.length + new.length ≤ b.raw.length := by
    rw [hnew, h, List.length_append, List.length_append]
    omega
  rw [writeField, get_bind]
  refine bind_of_ok (run_of_ok ?_ b) _
  rw [ensure_of hle, h, List.take_left, hnew, ← List.drop_drop, List.drop_left, List.drop_left]

end Fields

end ShareBuffer

end Guarded

/-- An index that points into a share is read as it was written. -/
theorem Share.parseReserved_ofNat {index : UInt32} (h : index.toNat < 512) :
    parseReserved (Bytes.ofNat 4 index.toNat) = .ok index := by
  have hread : UInt32.ofNat (Bytes.toNat (Bytes.ofNat 4 index.toNat)) = index := by
    rw [Bytes.toNat_ofNat, Nat.mod_eq_of_lt (by simpa using index.toNat_lt), UInt32.ofNat_toNat]
  rw [parseReserved, if_pos (Bytes.length_ofNat 4 _), hread]
  exact if_pos h

namespace ShareBuilder

/-- The bytes that the parts stand for. -/
def buffer (b : ShareBuilder) : Guarded.ShareBuffer where
  ns := b.ns
  version := b.version
  isFirst := b.isFirst
  raw := b.raw

theorem length_raw_le (b : ShareBuilder) : b.raw.length ≤ 512 := by
  have hfits := b.fits
  rwa [← length_raw] at hfits

/-- The namespace and the info byte. -/
def front (b : ShareBuilder) : Bytes :=
  b.ns.bytes ++ [b.info.byte]

/-- The field for the length of the sequence, if there is one. -/
def lengthField (b : ShareBuilder) : Bytes :=
  if b.isFirst then Bytes.ofNat 4 b.sequenceLength.toNat else []

/-- The field for the reserved index, if there is one. -/
def reservedField (b : ShareBuilder) : Bytes :=
  if b.ns.isCompact then Bytes.ofNat 4 b.reserved.toNat else []

section Raw

variable (b : ShareBuilder)

theorem length_front : b.front.length = 30 := by
  rw [front, List.length_append, b.ns.length_bytes]
  rfl

theorem length_front_lengthField :
    (b.front ++ b.lengthField).length = Guarded.ShareBuffer.reservedStart b.isFirst := by
  rw [List.length_append, length_front, lengthField, Guarded.ShareBuffer.reservedStart]
  split
  case isTrue => rw [Bytes.length_ofNat]
  case isFalse => rfl

/-- The bytes are the fields of the header and the data, one after the other. -/
theorem raw_eq : b.raw = b.front ++ (b.lengthField ++ (b.reservedField ++ b.payload)) := by
  simp only [raw, header, front, lengthField, reservedField, List.append_assoc, List.cons_append,
    List.nil_append]

theorem raw_eq_of_isFirst (h : b.isFirst = true) :
    b.raw =
      b.front ++ (Bytes.ofNat 4 b.sequenceLength.toNat ++ (b.reservedField ++ b.payload)) := by
  rw [raw_eq, lengthField, if_pos h]

theorem raw_eq_of_isCompact (h : b.ns.isCompact = true) :
    b.raw = b.front ++ b.lengthField ++ (Bytes.ofNat 4 b.reserved.toNat ++ b.payload) := by
  rw [raw_eq, reservedField, if_pos h, List.append_assoc]

end Raw

/-! ### The calls -/

section Calls

open Guarded (ShareBuffer Stop)

variable (b : ShareBuilder)

/-- A new buffer has the bytes of a new builder. -/
theorem make_buffer (ns : Namespace) (version : UInt8) (isFirst : Bool) :
    ShareBuffer.make ns version isFirst =
      (buffer <$> make ns version isFirst).mapError Stop.refused := by
  rw [ShareBuffer.make, make]
  cases InfoByte.make version isFirst with
  | error e => rfl
  | ok info =>
    have hzero : Bytes.ofNat 4 0 = List.replicate 4 0 := by decide
    simp [buffer, raw, header, blank, hzero]
    rfl

theorem available_buffer : ShareBuffer.available.run b.buffer = .ok b.available b.buffer :=
  Guarded.run_of_ok (Guarded.sub_eq b.length_raw_le) b.buffer

theorem raw_add (data : Bytes) : (b.add data).1.raw = b.raw ++ data.take b.available :=
  (List.append_assoc _ _ _).symm

/-- **Data is appended to the bytes** as far as it is appended to the parts. -/
theorem add_buffer (data : Bytes) :
    (ShareBuffer.add data).run b.buffer = .ok (b.add data).2 (b.add data).1.buffer := by
  have hle : min b.available data.length ≤ data.length := min_le_right _ _
  have htake : data.take (min b.available data.length) = data.take b.available :=
    List.take_eq_take_min.symm
  have hdrop : data.drop (min b.available data.length) = data.drop b.available := by
    rcases le_total b.available data.length with h | h
    · rw [min_eq_left h]
    · rw [min_eq_right h, List.drop_length, List.drop_eq_nil_of_le h]
  rw [ShareBuffer.add, Guarded.bind_of_ok (available_buffer b),
    Guarded.bind_of_ok (Guarded.run_of_ok (Guarded.ensure_of hle _ _) b.buffer), htake, hdrop,
    buffer, buffer, raw_add]
  rfl

/-- **Zeros are appended to the bytes** as they are to the parts. -/
theorem pad_buffer : ShareBuffer.pad.run b.buffer = .ok b.pad.2 b.pad.1.buffer := by
  have htake : (List.replicate b.available (0 : UInt8)).take b.available =
      List.replicate b.available 0 := by
    rw [List.take_replicate, min_self]
  rw [ShareBuffer.pad, Guarded.bind_of_ok (available_buffer b), pad, buffer, buffer, raw_add, htake]
  rfl

/-- **The length of the sequence is written into its field**, or nothing is written. -/
theorem writeSequenceLength_buffer (length : UInt32) :
    (ShareBuffer.writeSequenceLength length).run b.buffer =
      match b.writeSequenceLength length with
      | .ok b' => .ok () b'.buffer
      | .error e => .error (.refused e) b.buffer := by
  rw [ShareBuffer.writeSequenceLength, Guarded.get_bind, writeSequenceLength]
  by_cases hfirst : b.isFirst = true
  · have hwrite := ShareBuffer.run_writeField (b := b.buffer) (b.raw_eq_of_isFirst hfirst)
      (Bytes.ofNat 4 length.toNat) (by rw [Bytes.length_ofNat, Bytes.length_ofNat])
    have hafter : ({ b with sequenceLength := length } : ShareBuilder).raw =
        b.front ++ (Bytes.ofNat 4 length.toNat ++ (b.reservedField ++ b.payload)) :=
      raw_eq_of_isFirst _ hfirst
    have hguard : (!b.buffer.isFirst) = false := by
      rw [buffer, hfirst]
      rfl
    rw [length_front, ← hafter] at hwrite
    rw [if_pos hfirst, hguard]
    exact hwrite
  · have hguard : (!b.buffer.isFirst) = true := by
      rw [buffer, Bool.eq_false_iff.mpr hfirst]
      rfl
    rw [if_neg hfirst, hguard]
    rfl

/-- A position is written into the field for the reserved index, unless the share is full. -/
theorem writePosition_buffer (hcompact : b.ns.isCompact = true) :
    (ShareBuffer.writePosition (ShareBuffer.reservedStart b.isFirst)).run b.buffer =
      if b.raw.length < 512 then
        .ok () ({ b with reserved := .ofNat b.raw.length } : ShareBuilder).buffer
      else .error (.refused (.reservedBytes (.ofNat b.raw.length))) b.buffer := by
  have hle := b.length_raw_le
  have hsize : ¬UInt32.size ≤ b.buffer.raw.length := not_le.mpr (hle.trans_lt (by decide))
  have hindex : (UInt32.ofNat b.raw.length).toNat = b.raw.length := by
    rw [UInt32.toNat_ofNat', Nat.mod_eq_of_lt (hle.trans_lt (by decide))]
  rw [ShareBuffer.writePosition, Guarded.get_bind, if_neg hsize]
  change EStateM.run (Guarded.Action.of
    ((Share.reservedBytes (.ofNat b.raw.length)).mapError Stop.refused) >>= _) _ = _
  by_cases hlt : b.raw.length < 512
  · have hfield : (Share.reservedBytes (.ofNat b.raw.length)).mapError Stop.refused =
        .ok (Bytes.ofNat 4 b.raw.length) := by
      rw [Share.reservedBytes, hindex, if_pos (show b.raw.length < Share.size from hlt)]
      rfl
    have hwrite := ShareBuffer.run_writeField (b := b.buffer) (b.raw_eq_of_isCompact hcompact)
      (Bytes.ofNat 4 b.raw.length) (by rw [Bytes.length_ofNat, Bytes.length_ofNat])
    have hafter : ({ b with reserved := .ofNat b.raw.length } : ShareBuilder).raw =
        b.front ++ b.lengthField ++ (Bytes.ofNat 4 b.raw.length ++ b.payload) := by
      rw [raw_eq_of_isCompact { b with reserved := .ofNat b.raw.length } hcompact, hindex]
      rfl
    rw [length_front_lengthField] at hwrite
    rw [Guarded.bind_of_ok (Guarded.run_of_ok hfield b.buffer), if_pos hlt, hwrite, ← hafter]
    rfl
  · have hfield : (Share.reservedBytes (.ofNat b.raw.length)).mapError Stop.refused =
        .error (.refused (.reservedBytes (.ofNat b.raw.length))) := by
      rw [Share.reservedBytes, hindex, if_neg (show ¬b.raw.length < Share.size from hlt)]
      rfl
    rw [Guarded.bind_of_error (Guarded.run_of_error hfield b.buffer), if_neg hlt]

/-- **The reserved index is written into its field** once, and nothing is written otherwise. What is
read from the field first is an index, as nothing else was ever written there. -/
theorem writeReserved_buffer (hreserved : b.reserved.toNat < 512) :
    ShareBuffer.writeReserved.run b.buffer =
      match b.writeReserved with
      | .ok b' => .ok () b'.buffer
      | .error e => .error (.refused e) b.buffer := by
  rw [ShareBuffer.writeReserved, Guarded.get_bind, writeReserved]
  by_cases hcompact : b.ns.isCompact = true
  · have hguard : (!b.buffer.ns.isCompact) = false := by
      rw [buffer, hcompact]
      rfl
    -- the field is read before it is written, and has to be an index for that
    have hread := ShareBuffer.run_readField (b := b.buffer) (b.raw_eq_of_isCompact hcompact)
    rw [length_front_lengthField, Bytes.length_ofNat] at hread
    have hparse : (Share.parseReserved (Bytes.ofNat 4 b.reserved.toNat)).mapError Stop.refused =
        .ok b.reserved := by
      rw [Share.parseReserved_ofNat hreserved]
      rfl
    rw [hguard, show (!b.ns.isCompact) = false from hguard]
    change EStateM.run (ShareBuffer.readField (ShareBuffer.reservedStart b.isFirst) 4 >>= _) _ = _
    rw [Guarded.bind_of_ok hread, Guarded.bind_of_ok (Guarded.run_of_ok hparse b.buffer)]
    by_cases hwritten : b.reserved ≠ 0
    · rw [if_pos hwritten, if_pos hwritten]
      rfl
    · rw [if_neg hwritten, if_neg hwritten]
      refine (writePosition_buffer b hcompact).trans ?_
      by_cases hlt : b.raw.length < 512
      · rw [if_pos hlt, if_pos hlt]
        rfl
      · rw [if_neg hlt, if_neg hlt]
        rfl
  · have hguard : (!b.buffer.ns.isCompact) = true := by
      rw [buffer, Bool.eq_false_iff.mpr hcompact]
      rfl
    rw [hguard, show (!b.ns.isCompact) = true from hguard]
    rfl

/-- **The share is made of the same bytes.** -/
theorem build_buffer : ShareBuffer.build.run b.buffer = .ok b.build b.pad.1.buffer := by
  have hbytes : b.pad.1.raw = b.build.bytes := by
    rw [pad, raw_add, List.take_replicate, min_self]
    rfl
  have hlength : b.pad.1.buffer.raw.length = 512 := by
    rw [show b.pad.1.buffer.raw = b.pad.1.raw from rfl, hbytes, b.build.length_bytes]
  rw [ShareBuffer.build, Guarded.bind_of_ok (pad_buffer b), Guarded.get_bind, dif_pos hlength]
  exact congrArg (EStateM.Result.ok · _) (Share.ext hbytes)

end Calls

end ShareBuilder

end Availability
