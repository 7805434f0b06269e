import Availability.Blob.Commitment

/-!
# Blobs

A blob is data of a user under a namespace. It is written into shares of a given version, and it
is known by its commitment.

* `Blob` – the parts of a blob, with **nothing** guaranteed about them;
* `Blob.make` – a blob with its own commitment;
* `Blob.validate` – checks that a blob has its own commitment;
* `Blob.shares` – the shares of a blob;
* `Blob.reconstruct`, `Blob.reconstructAll` – reading one or all blobs back from shares.
-/

namespace Availability

/-- Data of a user under a namespace. -/
structure Blob where
  /-- The namespace. -/
  ns : Namespace
  /-- The data. -/
  data : Bytes
  /-- The version of the shares that the blob is written in. -/
  version : UInt8
  /-- The commitment that the blob comes with. -/
  commitment : Commitment
  /-- The position of the first share of the blob in its square, if it is known. -/
  index : Option UInt64
deriving DecidableEq

/-- The number of shares that data of a blob is split into. -/
def sharesNeeded (size : Nat) : Nat :=
  if size < 478 then 1 else 1 + (size - 478 + 481) / 482

namespace Blob

/-- The blob of the given parts, with its commitment. -/
def make (ns : Namespace) (data : Bytes) (version : UInt8) (app : AppVersion) :
    Except Error Blob := do
  let commitment ← commit ns data version app.subtreeRootThreshold
  return { ns, data, version, commitment, index := none }

/-- Checks that the blob comes with its own commitment. -/
def validate (blob : Blob) (app : AppVersion) : Except Error Unit := do
  let computed ← commit blob.ns blob.data blob.version app.subtreeRootThreshold
  if blob.commitment ≠ computed then throw (.commitmentMismatch blob.commitment computed)

/-- Checks that the blob comes with its own commitment, and that it is the expected one. -/
def validateWith (blob : Blob) (commitment : Commitment) (app : AppVersion) :
    Except Error Unit := do
  blob.validate app
  if blob.commitment ≠ commitment then throw (.commitmentMismatch commitment blob.commitment)

/-- The shares that the blob is written in. -/
def shares (blob : Blob) : Except Error (List Share) := do
  let splitter ← ShareSplitter.empty.write blob.ns blob.version blob.data
  return splitter.shares

/-- The number of shares of the blob. -/
def shareCount (blob : Blob) : Nat :=
  sharesNeeded blob.data.length

/-! ### Reading blobs back -/

/-- Checks that shares continue a sequence, given the place of the first one in it. -/
def checkFollowing (ns : Namespace) (version : UInt8) :
    (position : Nat) → List Share → Except Error Unit
  | _, [] => .ok ()
  | position, share :: rest =>
    if share.ns ≠ ns then .error (.sequence (.otherNamespace ns share.ns))
    else if share.info.version ≠ version then
      .error (.sequence (.otherVersion version share.info.version))
    else if share.isStart then .error (.sequence (.startsAnother position))
    else checkFollowing ns version (position + 1) rest

/-- The number of shares of the sequence that a share starts, less the first one. -/
def followingCount (first : Share) : Nat :=
  match first.sequenceLength? with
  | some length => sharesNeeded length.toNat - 1
  | none => 0

/-- Reads the blob whose shares begin with `first`; what comes after its last share is not looked
at. -/
def read (first : Share) (rest : List Share) (app : AppVersion) : Except Error Blob := do
  let some length := first.sequenceLength? | throw .notSequenceStart
  if first.ns.isReserved then throw (.blobNamespace first.ns)
  let following := rest.take (followingCount first)
  checkFollowing first.ns first.info.version 1 following
  if following.length < followingCount first then
    throw (.missingShares (followingCount first + 1) (following.length + 1))
  let data := ((first :: following).flatMap Share.payload).take length.toNat
  make first.ns data first.info.version app

/-- Reads the blob that the shares begin with. -/
def reconstruct (shares : List Share) (app : AppVersion) : Except Error Blob :=
  match shares with
  | [] => .error (.missingShares 1 0)
  | first :: rest => read first rest app

/-- Whether a share may be the first one of a blob. -/
def startsBlob (share : Share) : Bool :=
  share.isStart && !share.isPadding

/-- Reads all blobs of shares that are not of reserved namespaces. -/
def readAll (app : AppVersion) (shares : List Share) : Except Error (List Blob) :=
  match shares with
  | [] => .ok []
  | share :: rest =>
    if startsBlob share then do
      let blob ← read share rest app
      let blobs ← readAll app (rest.drop (followingCount share))
      return blob :: blobs
    else readAll app rest
termination_by shares.length
decreasing_by all_goals simp +arith

/-- Reads all blobs of the shares. Padding and shares of reserved namespaces are passed over. -/
def reconstructAll (shares : List Share) (app : AppVersion) : Except Error (List Blob) :=
  readAll app (shares.filter fun share => !share.ns.isReserved)

end Blob

end Availability
