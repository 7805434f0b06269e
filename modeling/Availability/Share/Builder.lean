import Availability.Share

/-!
# Building a share

A share is built by writing its header and appending data until it is full.

* `ShareBuilder` – the parts of a share, which **never hold more than 512 bytes**;
* `ShareBuilder.add` – appends as much of some data as fits, and gives back the rest;
* `ShareBuilder.build` – fills up with zeros.
-/

namespace Availability

/-- A share that is being built. -/
structure ShareBuilder where
  /-- The namespace. -/
  ns : Namespace
  /-- The share version. -/
  version : UInt8
  /-- Whether the share is the first of its sequence, and so has room for the sequence length. -/
  isFirst : Bool
  /-- The info byte to write. -/
  info : InfoByte
  /-- The length of the sequence. -/
  sequenceLength : UInt32
  /-- The reserved index of a compact share. -/
  reserved : UInt32
  /-- The data written so far. -/
  payload : Bytes
  /-- The share is not overfull. -/
  fits : Share.headerSize ns isFirst + payload.length ≤ 512

namespace ShareBuilder

/-- A share without data. -/
def blank (ns : Namespace) (version : UInt8) (isFirst : Bool) : ShareBuilder :=
  { ns, version, isFirst, info := .of version isFirst, sequenceLength := 0, reserved := 0,
    payload := [], fits := by have := Share.headerSize_le ns isFirst; simp; omega }

/-- A share without data, if its version can be written. -/
def make (ns : Namespace) (version : UInt8) (isFirst : Bool) : Except Error ShareBuilder := do
  let info ← InfoByte.make version isFirst
  return { blank ns version isFirst with info }

/-- The bytes of the header. -/
def header (b : ShareBuilder) : Bytes :=
  b.ns.bytes ++ b.info.byte ::
    ((if b.isFirst then Bytes.ofNat 4 b.sequenceLength.toNat else []) ++
      if b.ns.isCompact then Bytes.ofNat 4 b.reserved.toNat else [])

@[simp] theorem length_header (b : ShareBuilder) :
    b.header.length = Share.headerSize b.ns b.isFirst := by
  simp only [header, Share.headerSize, List.length_append, List.length_cons, b.ns.length_bytes]
  split <;> split <;> simp

/-- The bytes written so far. -/
def raw (b : ShareBuilder) : Bytes :=
  b.header ++ b.payload

/-- The number of bytes that are not written yet. -/
def available (b : ShareBuilder) : Nat :=
  512 - b.raw.length

/-- Whether no data was written. -/
def isEmpty (b : ShareBuilder) : Bool :=
  b.raw.length = Share.headerSize b.ns b.isFirst

theorem length_raw (b : ShareBuilder) :
    b.raw.length = Share.headerSize b.ns b.isFirst + b.payload.length := by
  simp [raw]

/-- Appends as much of the data as fits, and gives back the rest. -/
def add (b : ShareBuilder) (data : Bytes) : ShareBuilder × Bytes :=
  ({ b with
      payload := b.payload ++ data.take b.available
      fits := by
        have := b.fits
        have := b.length_raw
        simp only [available, List.length_append, List.length_take]
        omega },
    data.drop b.available)

theorem available_blank_pos (ns : Namespace) (version : UInt8) (isFirst : Bool) :
    0 < (blank ns version isFirst).available := by
  have := Share.headerSize_le ns isFirst
  simp only [available, length_raw, blank, List.length_nil]
  omega

/-- A share with room left takes some of the data. -/
theorem length_add_lt {b : ShareBuilder} {data : Bytes} (hb : 0 < b.available) (hd : data ≠ []) :
    (b.add data).2.length < data.length := by
  have := List.length_pos_iff.2 hd
  simp only [add, List.length_drop]
  omega

/-- Fills the share up with zeros, and gives their number. -/
def pad (b : ShareBuilder) : ShareBuilder × Nat :=
  ((b.add (List.replicate b.available 0)).1, b.available)

/-- Writes the length of the sequence, for which only its first share has room. -/
def writeSequenceLength (b : ShareBuilder) (length : UInt32) : Except Error ShareBuilder :=
  if b.isFirst then .ok { b with sequenceLength := length } else .error .notFirstShare

/-- Writes the position that has been reached as the reserved index, unless one is there. -/
def writeReserved (b : ShareBuilder) : Except Error ShareBuilder :=
  if !b.ns.isCompact then .error .notCompact
  else if b.reserved ≠ 0 then .ok b
  else if b.raw.length < 512 then .ok { b with reserved := .ofNat b.raw.length }
  else .error (.reservedBytes (.ofNat b.raw.length))

/-- Changes whether the info byte marks a sequence start. The layout stays as it is. -/
def flipStart (b : ShareBuilder) : ShareBuilder :=
  { b with info := b.info.flip }

/-- The share, filled up with zeros. -/
def build (b : ShareBuilder) : Share where
  bytes := b.raw ++ List.replicate b.available 0
  length_bytes := by
    have := b.fits
    have := b.length_raw
    simp only [available, List.length_append, List.length_replicate]
    omega

end ShareBuilder

namespace Share

/-- A padding share of a namespace: it starts a sequence without data. -/
def padding (ns : Namespace) : Share :=
  (ShareBuilder.blank ns 0 true).build

end Share

end Availability
