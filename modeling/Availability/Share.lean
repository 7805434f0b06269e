import Availability.Namespace.Rules

/-!
# Shares

The data of a block is cut into shares of 512 bytes. A share begins with its namespace and an info
byte, which holds the share version and tells whether the share starts a sequence. The first share
of a sequence then holds the length of the whole sequence, and a compact share the index of the
first unit of data that starts in it. What follows is payload.

* `Share` – the 512 bytes, with no further condition;
* `Share.ofRaw` – a share whose namespace is **well-formed**;
* `Share.sequenceLength?`, `Share.reservedIndex?`, `Share.payload` – its parts;
* `InfoByte` – the share version and the sequence start.
-/

namespace Availability

/-! ### The info byte -/

/-- The share version, in the upper seven bits, and the sequence start, in the lowest. -/
structure InfoByte where
  /-- The byte itself. -/
  byte : UInt8
deriving DecidableEq

namespace InfoByte

/-- The largest version that an info byte can hold. -/
def maxVersion : UInt8 := 127

/-- The info byte of a version. -/
def of (version : UInt8) (isStart : Bool) : InfoByte :=
  ⟨2 * version + (if isStart then 1 else 0)⟩

/-- The info byte of a version, if it can be held. -/
def make (version : UInt8) (isStart : Bool) : Except Error InfoByte :=
  if version ≤ maxVersion then .ok (of version isStart) else .error (.shareVersionSize version)

/-- The share version. -/
def version (info : InfoByte) : UInt8 :=
  info.byte / 2

/-- Whether the share starts a sequence. -/
def isStart (info : InfoByte) : Bool :=
  info.byte % 2 = 1

/-- The info byte with the other sequence start. -/
def flip (info : InfoByte) : InfoByte :=
  ⟨info.byte ^^^ 1⟩

end InfoByte

/-! ### Shares -/

/-- A piece of the data of a block. -/
structure Share where
  /-- The bytes of the share. -/
  bytes : Bytes
  /-- A share has 512 bytes. -/
  length_bytes : bytes.length = 512
deriving DecidableEq

namespace Share

theorem ext {a b : Share} (h : a.bytes = b.bytes) : a = b := by
  cases a; cases b; cases h; rfl

/-- The number of bytes of a share. -/
def size : Nat := 512

/-- The versions of shares in which blobs are written. -/
def supportedVersions : List UInt8 := [0]

/-- The bytes of a share before its payload. -/
def headerSize (ns : Namespace) (isStart : Bool) : Nat :=
  30 + (if isStart then 4 else 0) + (if ns.isCompact then 4 else 0)

theorem headerSize_le (ns : Namespace) (isStart : Bool) : headerSize ns isStart ≤ 38 := by
  unfold headerSize; split <;> split <;> omega

/-- The payload of the first share of a sequence. -/
def firstCapacity (ns : Namespace) : Nat := size - headerSize ns true

/-- The payload of every other share of a sequence. -/
def nextCapacity (ns : Namespace) : Nat := size - headerSize ns false

/-- Reads a share. Its namespace has to be well-formed. -/
def ofRaw (bs : Bytes) : Except Error Share :=
  if h : bs.length = 512 then do
    let _ ← Namespace.ofRaw (bs.take 29)
    return ⟨bs, h⟩
  else .error (.shareSize bs.length)

/-- The namespace, well-formed or not. -/
def ns (share : Share) : Namespace :=
  ⟨share.bytes.take 29, by simp [share.length_bytes]⟩

/-- The info byte. -/
def info (share : Share) : InfoByte :=
  ⟨(share.bytes.drop 29).headD 0⟩

/-- Whether the share starts a sequence. -/
def isStart (share : Share) : Bool :=
  share.info.isStart

/-- The length of the sequence that the share starts. -/
def sequenceLength? (share : Share) : Option UInt32 :=
  if share.isStart then some (.ofNat (Bytes.toNat ((share.bytes.drop 30).take 4))) else none

/-- Reads a reserved index, which is a position in a share. -/
def parseReserved (bs : Bytes) : Except Error UInt32 :=
  if bs.length = 4 then
    let index := UInt32.ofNat (Bytes.toNat bs)
    if index.toNat < size then .ok index else .error (.reservedBytes index)
  else .error (.shareSize bs.length)

/-- Writes a reserved index. -/
def reservedBytes (index : UInt32) : Except Error Bytes :=
  if index.toNat < size then .ok (Bytes.ofNat 4 index.toNat) else .error (.reservedBytes index)

/-- Where the first unit of data in a compact share starts, and 0 if none does. -/
def reservedIndex? (share : Share) : Option UInt32 :=
  if share.ns.isCompact then
    (parseReserved ((share.bytes.drop (if share.isStart then 34 else 30)).take 4)).toOption
  else none

/-- What follows the header. -/
def payload (share : Share) : Bytes :=
  share.bytes.drop (headerSize share.ns share.isStart)

/-- Whether the share holds no data: it is of a padding namespace or starts an empty sequence. -/
def isPadding (share : Share) : Bool :=
  share.ns = .tailPadding || share.ns = .primaryReservedPadding || share.sequenceLength? = some 0

/-- What follows the namespace. -/
def data (share : Share) : Bytes :=
  share.bytes.drop 29

end Share

end Availability
