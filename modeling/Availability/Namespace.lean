import Availability.Text.Hex

/-!
# Namespaces

Every share of a block belongs to a namespace: a version byte followed by an id of 28 bytes. The
ids of version 0 start with 18 zero bytes, so that 10 bytes are left to choose; version 255 is
kept for shares that carry no data of users.

* `Namespace` – the 29 bytes, **ordered lexicographically**, with no further condition;
* `Namespace.ofSuffix`, `Namespace.secondary` – the two families of well-formed namespaces;
* `Namespace.transaction`, `Namespace.payForBlob`, … – the reserved ones.

Which namespaces are well-formed, and which may carry data or blobs, is decided in
`Availability.Namespace.Rules`.
-/

namespace Availability

/-- A version byte and an id of 28 bytes. -/
structure Namespace where
  /-- The version, then the id. -/
  bytes : Bytes
  /-- A namespace has 29 bytes. -/
  length_bytes : bytes.length = 29
deriving DecidableEq

namespace Namespace

/-- The number of bytes of a namespace. -/
def size : Nat := 29
/-- The number of bytes of the version. -/
def versionSize : Nat := 1
/-- The number of bytes of the id. -/
def idSize : Nat := 28
/-- The number of bytes of an id of version 0 that are free to choose. -/
def suffixSize : Nat := 10
/-- The number of zero bytes that an id of version 0 starts with. -/
def zeroPrefixSize : Nat := idSize - suffixSize

theorem ext {a b : Namespace} (h : a.bytes = b.bytes) : a = b := by
  cases a; cases b; simp_all

/-- A namespace of the given bytes, when there are 29 of them. -/
def ofBytes? (bs : Bytes) : Option Namespace :=
  if h : bs.length = 29 then some ⟨bs, h⟩ else none

@[simp] theorem ofBytes?_bytes (ns : Namespace) : ofBytes? ns.bytes = some ns := by
  simp [ofBytes?, ns.length_bytes]

instance : Inhabited Namespace := ⟨⟨List.replicate 29 0, by simp⟩⟩

/-! ### Order -/

instance : LT Namespace := ⟨fun a b => a.bytes < b.bytes⟩

instance : LE Namespace := ⟨fun a b => a.bytes ≤ b.bytes⟩

instance (a b : Namespace) : Decidable (a < b) := inferInstanceAs (Decidable (a.bytes < b.bytes))

instance (a b : Namespace) : Decidable (a ≤ b) := inferInstanceAs (Decidable (a.bytes ≤ b.bytes))

instance : Ord Namespace := ⟨fun a b => if a < b then .lt else if a = b then .eq else .gt⟩

/-! ### Parts -/

/-- The first byte. -/
def version (ns : Namespace) : UInt8 :=
  ns.bytes.headD 0

/-- The bytes after the version. -/
def id (ns : Namespace) : Bytes :=
  ns.bytes.drop 1

/-- The bytes of the id that are free to choose, in version 0. -/
def suffix? (ns : Namespace) : Option Bytes :=
  if ns.version = 0 then some (ns.bytes.drop 19) else none

/-- A namespace is shown as its 58 hexadecimal digits. -/
def toHex (ns : Namespace) : String :=
  Hex.encode ns.bytes

/-! ### The two families -/

/-- The namespace of version 0 whose id ends in the given bytes. -/
def ofSuffix (suffix : Bytes) (h : suffix.length ≤ 10 := by decide) : Namespace :=
  ⟨List.replicate (29 - suffix.length) 0 ++ suffix, by simp; omega⟩

/-- The namespace of version 255 whose id ends in the given byte and has no other byte below 255. -/
def secondary (last : UInt8) : Namespace :=
  ⟨List.replicate 28 255 ++ [last], by simp⟩

/-- The namespace of ordinary transactions. -/
def transaction : Namespace := ofSuffix [1]
/-- The namespace of intermediate state roots. -/
def intermediateStateRoots : Namespace := ofSuffix [2]
/-- The namespace of the transactions that pay for blobs. -/
def payForBlob : Namespace := ofSuffix [4]
/-- The largest namespace of those reserved in version 0. -/
def maxPrimaryReserved : Namespace := ofSuffix [255]
/-- The namespace of the padding between the reserved namespaces and the first blob. -/
def primaryReservedPadding : Namespace := maxPrimaryReserved
/-- The smallest namespace of those reserved in version 255. -/
def minSecondaryReserved : Namespace := secondary 0
/-- The namespace of the padding after the last blob. -/
def tailPadding : Namespace := secondary 254
/-- The namespace under which the erasure coded shares of a square are kept. It is the largest. -/
def parity : Namespace := secondary 255

/-- Whether the namespace lies in one of the two reserved ranges. -/
def isReserved (ns : Namespace) : Bool :=
  ns ≤ maxPrimaryReserved || minSecondaryReserved ≤ ns

/-- Whether shares of the namespace are compact: they say where the first unit of data in them
starts. -/
def isCompact (ns : Namespace) : Bool :=
  ns = transaction || ns = payForBlob

end Namespace

end Availability
