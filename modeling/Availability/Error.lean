import Availability.Axis
import Availability.Namespace
import Availability.Sha256
import Availability.Text.Base64
import Availability.Time

/-!
# Why data is refused

Everything that the library refuses, it refuses for one of the causes listed here. A cause has a
wording and belongs to one of a few kinds, which callers can tell apart.

* `Malformation` – a structural condition that received data violates;
* `RangeFault` – a range proof of a namespaced tree that fails;
* `Refutation` – a proof or a chain of headers that does not hold;
* `Error` – any cause, with `Error.message` and `Error.kind`.
-/

namespace Availability

/-! ### Hashes of headers -/

namespace Digest

/-- The upper case hexadecimal text. -/
def toHexUpper (d : Digest) : String :=
  Hex.encodeUpper d.bytes

/-- The base64 text. -/
def toBase64 (d : Digest) : String :=
  Base64.encode d.bytes

end Digest

/-- The hash of a header, or the empty hash of a header that does not exist. -/
abbrev HeaderHash := Option Digest

namespace HeaderHash

/-- Upper case hexadecimal text, which has no digits for the empty hash. -/
def toText : HeaderHash → String
  | some d => d.toHexUpper
  | none => ""

/-- How a hash is named where it may be missing. -/
def describe : HeaderHash → String
  | some d => s!"Some(Hash::Sha256({d.toHexUpper}))"
  | none => "None"

end HeaderHash

/-! ### Malformed data -/

/-- A structural condition that received data violates. -/
inductive Malformation where
  /-- The index of a Merkle proof is below zero. -/
  | negativeIndex
  /-- The tree of a Merkle proof has no leaves. -/
  | noLeaves
  /-- A hash of a Merkle proof does not have 32 bytes. -/
  | hashWidth
  /-- The start of a leaf range is no 32-bit number. -/
  | rangeStart (start : Int)
  /-- The end of a leaf range is no 32-bit number. -/
  | rangeEnd (stop : Int)
  /-- The last row of a row proof is above its first. -/
  | rowOrder (last first : Nat)
  /-- A row proof has another number of roots than of rows. -/
  | rowRootCount (roots rows : Nat)
  /-- A row proof has another number of Merkle proofs than of rows. -/
  | rowProofCount (proofs rows : Nat)
  /-- A commitment proof has another number of range proofs than of row roots. -/
  | rangeProofCount (proofs roots : Nat)
  /-- A commitment proof has no subtree roots. -/
  | noSubtreeRoots
  /-- A header has another number of columns than of rows. -/
  | columnCount (columns rows : Nat)
  /-- A header has too few rows. -/
  | fewRows (rows minimum : Nat)
  /-- A header has too many rows. -/
  | manyRows (rows maximum : Nat)
  /-- Rows were asked for that a header does not have. -/
  | rowsOutside (first last count : Nat)
  /-- A square has too few cells. -/
  | fewCells (cells minimum : Nat)
  /-- A square has too many cells. -/
  | manyCells (cells maximum : Nat)
  /-- The namespaces along a line of a square decrease. -/
  | unsorted (axis : Axis) (index : Nat)
  /-- A cell is not in the data quadrant of a square. -/
  | outsideData (row column : Nat)
  /-- A leaf was pushed below the namespace of the leaf before it. -/
  | leafOrder
  /-- A subtree root threshold leads to no subtree width. -/
  | threshold (threshold : Nat)
  /-- A subtree width leads to no mountain range. -/
  | subtreeWidth (width : Nat)
  /-- The validators of a header are not those it commits to. -/
  | validators (computed claimed : HeaderHash)
  /-- The data of a header is not that it commits to. -/
  | dataHash (computed : Digest) (claimed : HeaderHash)
  /-- A commit is for another height. -/
  | commitHeight (commit header : Nat)
  /-- A commit is for another header. -/
  | commitHash (commit : HeaderHash) (header : HeaderHash)
deriving DecidableEq

/-- The wording of a malformation. -/
def Malformation.message : Malformation → String
  | negativeIndex => "negative index"
  | noLeaves => "total <= 0"
  | hashWidth => "invalid hash size"
  | rangeStart start => s!"invalid proof start: {start}"
  | rangeEnd stop => s!"invalid proof end: {stop}"
  | rowOrder last first => s!"end_row ({last}) < start_row ({first})"
  | rowRootCount roots rows => s!"row roots length ({roots}) != rows in range ({rows})"
  | rowProofCount proofs rows => s!"proofs length ({proofs}) != rows in range ({rows})"
  | rangeProofCount proofs roots =>
    s!"subtree root proofs length ({proofs}) != row roots length ({roots})"
  | noSubtreeRoots => "no subtree roots in the proof"
  | columnCount columns rows => s!"column_roots len ({columns}) != row_roots len ({rows})"
  | fewRows rows minimum => s!"row_roots len ({rows}) < minimum ({minimum})"
  | manyRows rows maximum => s!"row_roots len ({rows}) > maximum ({maximum})"
  | rowsOutside first last count => s!"rows {first}..={last} out of range ({count})"
  | fewCells cells minimum => s!"shares len ({cells}) < MIN_SHARES ({minimum})"
  | manyCells cells maximum => s!"shares len ({cells}) > max shares ({maximum})"
  | unsorted axis index => s!"Shares of {axis.word} {index} are not sorted by their namespace"
  | outsideData row column => s!"({row}, {column}) is outside of the original data square"
  | leafOrder =>
    "failed to push a leaf: Leaves' namespaces should be inserted in ascending order"
  | threshold value => s!"invalid subtree root threshold: {value}"
  | subtreeWidth width => s!"invalid subtree width: {width}"
  | validators computed claimed =>
    let computed := HeaderHash.toText computed
    let claimed := HeaderHash.toText claimed
    s!"validator_set hash ({computed}) != header validators_hash ({claimed})"
  | dataHash computed claimed =>
    let computed := computed.toHexUpper
    let claimed := HeaderHash.describe claimed
    s!"dah hash ({computed}) != header dah hash ({claimed})"
  | commitHeight commit header => s!"commit height ({commit}) != header height ({header})"
  | commitHash commit header =>
    let commit := HeaderHash.toText commit
    let header := HeaderHash.toText header
    s!"commit block_id hash ({commit}) != header hash ({header})"

/-! ### Failing proofs -/

/-- Why a range proof of a namespaced tree fails. -/
inductive RangeFault where
  /-- The leaves and the nodes do not hash to the root. -/
  | invalidRoot
  /-- The namespaces of a node or of two neighbouring nodes decrease. -/
  | malformedTree
  /-- Some leaf of the namespace is not among those given. -/
  | missingLeaf
  /-- No leaves are given. -/
  | noLeaves
  /-- There are too few nodes. -/
  | missingNode
  /-- The tree has no leaf of the namespace. -/
  | notInTree
  /-- The range and the nodes are those of a tree too large to exist. -/
  | treeTooLarge
  /-- There are more or fewer leaves than the range has. -/
  | leafCount
  /-- A proof of absence within the range of the tree names no leaf. -/
  | absenceWithoutLeaf
  /-- A proof of absence comes with leaves. -/
  | absenceWithLeaves
  /-- The leaf of a proof of absence does not come after the namespace. -/
  | absenceLeafBefore
  /-- The node before the leaf of a proof of absence does not come before the namespace. -/
  | absenceNodeAfter
  /-- A part of a namespace can not be shown by a proof of absence. -/
  | absenceOfRange
deriving DecidableEq

/-- The wording of a failing range proof. -/
def RangeFault.message : RangeFault → String
  | invalidRoot => "InvalidRoot"
  | malformedTree => "MalformedTree"
  | missingLeaf => "MissingLeaf"
  | noLeaves => "NoLeavesProvided"
  | missingNode => "MissingProofNode"
  | notInTree => "TreeDoesNotContainLeaf"
  | treeTooLarge => "TreeTooLarge"
  | leafCount => "WrongAmountOfLeavesProvided"
  | absenceWithoutLeaf => malformed "Absence proof was inside tree range but did not contain a leaf"
  | absenceWithLeaves => malformed "provided an absence proof for a non-empty namespace"
  | absenceLeafBefore => malformed
      "provided leaf must have namespace greater than the namespace which is being proven absent"
  | absenceNodeAfter => malformed
      "proven namespace must be greater than the namespace of the rightmost left sibling"
  | absenceOfRange => malformed "Cannot prove that a partial namespace is absent"
where
  /-- A proof that contradicts itself is named together with the reason. -/
  malformed (reason : String) : String := "MalformedProof(\"" ++ reason ++ "\")"

/-- Why a proof or a chain of headers does not hold. -/
inductive Refutation where
  /-- A Merkle proof belongs to another leaf. -/
  | otherLeaf
  /-- The index of a Merkle proof is not below the number of leaves. -/
  | indexOutside (index total : Nat)
  /-- A Merkle proof has more sibling hashes than its path has steps. -/
  | extraAunts
  /-- A Merkle proof has fewer sibling hashes than its path has steps. -/
  | missingAunts
  /-- A leaf range is empty. -/
  | emptyRange (start stop : Nat)
  /-- A subtree width is no power of two. -/
  | widthNotPowerOfTwo (width : Nat)
  /-- A proof of presence is needed for subtree roots. -/
  | absenceOfRoots
  /-- A namespace is not within the range of a row root. -/
  | namespaceOutside (ns : Namespace)
  /-- A subtree root is not of one namespace alone. -/
  | foreignRoot (ns : Namespace)
  /-- There are more or fewer subtree roots than subtrees in the range. -/
  | subtreeRootCount (roots ranges : Nat)
  /-- The recomputed tree has no leaves. -/
  | noCover
  /-- Some subtree roots were not used. -/
  | unusedRoots
  /-- The recomputed root is not the row root. -/
  | otherRowRoot
  /-- A left node is missing while its right sibling is there. -/
  | missingLeftNode
  /-- Neighbouring nodes decrease in their namespaces. -/
  | nodeOrder
  /-- A subtree root threshold leads to no subtree width. -/
  | threshold (threshold : Nat)
  /-- The rows of a commitment proof need more subtree roots than it has. -/
  | fewSubtreeRoots (needed left : Nat)
  /-- A commitment proof has subtree roots that no row needs. -/
  | manySubtreeRoots (left : Nat)
  /-- The subtree roots hash to another commitment. -/
  | otherCommitment (commitment : Digest)
  /-- A row proof is malformed. -/
  | malformedRows (fault : Malformation)
  /-- The Merkle proof of a row is for another row. -/
  | otherRow (index row : Nat)
  /-- A proof is malformed. -/
  | malformedProof (fault : Malformation)
  /-- A node of a proof has its namespaces in the wrong order. -/
  | malformedHash
  /-- The header does not have the height after the trusted one. -/
  | height (untrusted trusted : Nat)
  /-- The header is of another chain. -/
  | chain (untrusted trusted : String)
  /-- The header is not later than the trusted one. -/
  | time (untrusted trusted : Time)
  /-- The header has other validators than the trusted one announced. -/
  | nextValidators (announced found : HeaderHash)
  /-- The header does not come after the trusted one. -/
  | lastHeader (expected found : HeaderHash)
  /-- The header is not of the height that was asked for. -/
  | requestedHeight (found requested : Nat)
  /-- The header has an application version without known parameters. -/
  | appVersion (version : Nat)
  /-- The proof is for another namespace than was asked for. -/
  | requestedNamespace (found requested : Namespace)
deriving DecidableEq

/-- How a namespace is spelled out in a message about two of them: byte by byte. -/
def Namespace.describe (ns : Namespace) : String :=
  let bytes := ", ".intercalate (ns.bytes.map fun b => toString b.toNat)
  s!"Namespace(NamespaceId([{bytes}]))"

/-- The wording of a refutation. -/
def Refutation.message : Refutation → String
  | otherLeaf => "proof created for a different leaf"
  | indexOutside index total => s!"index {index} out of range for {total} leaves"
  | extraAunts => "extra aunts in proof"
  | missingAunts => "aunts missing in proof"
  | emptyRange start stop => s!"invalid proof range: [{start}, {stop})"
  | widthNotPowerOfTwo width => s!"subtree width must be a power of two, got {width}"
  | absenceOfRoots => "expected presence proof of the subtree roots"
  | namespaceOutside ns => s!"namespace {ns.toHex} outside of the row root range"
  | foreignRoot ns => s!"subtree root doesn't belong to the namespace {ns.toHex}"
  | subtreeRootCount roots ranges =>
    s!"subtree roots ({roots}) don't match the ranges ({ranges}) of the proof"
  | noCover => "proof doesn't cover any leaves"
  | unusedRoots => "not all subtree roots were used"
  | otherRowRoot => "computed root doesn't match the row root"
  | missingLeftNode => "missing left node"
  | nodeOrder => "nodes out of namespace order"
  | threshold value => s!"invalid subtree root threshold: {value}"
  | fewSubtreeRoots needed left => s!"not enough subtree roots: {needed} needed, {left} left"
  | manySubtreeRoots left => s!"{left} subtree roots not covered by proofs"
  | otherCommitment commitment =>
    s!"subtree roots don't hash to the commitment {commitment.toBase64}"
  | malformedRows fault => s!"malformed row proof: {fault.message}"
  | otherRow index row => s!"proof index ({index}) != row ({row})"
  | malformedProof fault => fault.message
  | malformedHash => "Invalid namespaced hash"
  | height untrusted trusted =>
    s!"untrusted header height ({untrusted}) not adjacent to the current trusted ({trusted})"
  | chain untrusted trusted =>
    s!"untrusted header has different chain {untrusted}, not {trusted}"
  | time untrusted trusted =>
    let untrusted := untrusted.toText
    let trusted := trusted.toText
    s!"untrusted header time ({untrusted}) must be after current trusted header ({trusted})"
  | nextValidators announced found =>
    let announced := HeaderHash.toText announced
    let found := HeaderHash.toText found
    s!"expected old header next validators ({announced}) to match those from new header ({found})"
  | lastHeader expected found =>
    let expected := HeaderHash.toText expected
    let found := HeaderHash.toText found
    s!"expected new header to point to last header hash ({expected}), but got {found}"
  | requestedHeight found requested =>
    s!"header height ({found}) != requested height ({requested})"
  | appVersion version => s!"unsupported app version {version} in header"
  | requestedNamespace found requested =>
    s!"proof namespace ({found.describe}) != blob namespace ({requested.describe})"

/-! ### All causes -/

/-- Why the shares of a blob do not follow on each other. -/
inductive SequenceFault where
  /-- A share is of another namespace. -/
  | otherNamespace (expected found : Namespace)
  /-- A share is of another version. -/
  | otherVersion (expected found : UInt8)
  /-- A share starts a sequence of its own. -/
  | startsAnother (position : Nat)
  /-- There are more or fewer rows than the namespace spans. -/
  | rowCount (expected found : Nat)
deriving DecidableEq

/-- The wording of a broken sequence. -/
def SequenceFault.message : SequenceFault → String
  | otherNamespace expected found => s!"expected namespace ({expected.toHex}) got ({found.toHex})"
  | otherVersion expected found => s!"expected share version ({expected}) got ({found})"
  | startsAnother position => s!"share {position} of the blob starts a new sequence"
  | rowCount expected found => s!"expected {expected} rows within the namespace, got {found}"

/-- Why the cells of a square do not form one. -/
inductive ShapeFault where
  /-- The number of cells is no square number. -/
  | notSquare (cells : Nat)
  /-- The width is no power of two. -/
  | notPowerOfTwo (width : Nat)
  /-- The width does not fit into 16 bits. -/
  | tooWide (width : Nat)
deriving DecidableEq

/-- The wording of a misshapen square. -/
def ShapeFault.message : ShapeFault → String
  | notSquare cells => s!"{cells} shares don't form a square"
  | notPowerOfTwo width => s!"width {width} is not a power of 2"
  | tooWide width => s!"width {width} too big"

/-- Why a text is no address. -/
inductive AddressFault where
  /-- The text is not made of a prefix, a separator and symbols. -/
  | notBech32
  /-- The checksum is wrong. -/
  | checksum
  /-- The id does not have 20 bytes. -/
  | idSize (size : Nat)
deriving DecidableEq

/-- The wording of a text that is no address. -/
def AddressFault.message : AddressFault → String
  | notBech32 => "parsing failed"
  | checksum => "no valid bech32 or bech32m checksum"
  | idSize size => s!"invalid id size: {size}"

/-- Why data is refused. -/
inductive Error where
  /-- The version of a namespace is neither 0 nor 255. -/
  | namespaceVersion (version : UInt8)
  /-- A namespace does not have 29 bytes. -/
  | namespaceSize (size : Nat)
  /-- The id of a namespace has a wrong number of bytes. -/
  | namespaceIdSize (size : Nat)
  /-- An id of version 0 does not start with 18 zero bytes. -/
  | namespacePrefix
  /-- Parity and tail padding carry no data. -/
  | dataNamespace (ns : Namespace)
  /-- Reserved namespaces carry no blobs. -/
  | blobNamespace (ns : Namespace)
  /-- A blob has no data. -/
  | emptyBlob
  /-- A blob has too much data. -/
  | blobSize (size maximum : Nat)
  /-- Blobs are not written in shares of the version. -/
  | shareVersion (version : UInt8)
  /-- The share version does not fit into the info byte. -/
  | shareVersionSize (version : UInt8)
  /-- A commitment is not that of the data. -/
  | commitmentMismatch (expected computed : Digest)
  /-- A share does not have 512 bytes. -/
  | shareSize (size : Nat)
  /-- A sequence of shares does not begin with its start. -/
  | notSequenceStart
  /-- Shares do not follow on each other. -/
  | sequence (fault : SequenceFault)
  /-- A sequence of shares ends too early. -/
  | missingShares (expected found : Nat)
  /-- Only the first share of a sequence holds its length. -/
  | notFirstShare
  /-- A reserved index points behind the share. -/
  | reservedBytes (index : UInt32)
  /-- Only compact shares hold a reserved index. -/
  | notCompact
  /-- The length of a sequence is no 32-bit number. -/
  | sequenceLength (length : Nat)
  /-- There is no share whose namespace padding could take. -/
  | noNamespaceToPad
  /-- A namespaced hash has a wrong size or its namespaces in the wrong order. -/
  | namespacedHash
  /-- A hash does not have 32 bytes. -/
  | hashSize (size : Nat)
  /-- An index is not below the number of items. -/
  | indexOutside (index count : Nat)
  /-- A recomputed root is not the expected one. -/
  | rootMismatch
  /-- A range proof of a namespaced tree fails. -/
  | range (fault : RangeFault)
  /-- A row of shares comes without a proof. -/
  | missingProof
  /-- A row has a proof of presence but no shares, or the other way round. -/
  | proofKind
  /-- A proof of absence stands where one of presence is needed. -/
  | absenceProof
  /-- The cells of a square do not form one. -/
  | squareShape (fault : ShapeFault)
  /-- A text is no address. -/
  | address (fault : AddressFault)
  /-- An address has an unknown or unexpected prefix. -/
  | addressPrefix (found : String)
  /-- A text is no denomination of a coin. -/
  | denomination (text : String)
  /-- A text is no amount of coins. -/
  | amount (text : String)
  /-- Received data is malformed. -/
  | malformed (fault : Malformation)
  /-- A proof or a chain of headers does not hold. -/
  | refuted (fault : Refutation)
deriving DecidableEq

/-- What kind of cause an error has, for callers that react to it. -/
inductive ErrorKind where
  /-- A namespace is not well-formed or not allowed. -/
  | invalidNamespace
  /-- The parts of a blob are not allowed. -/
  | invalidBlob
  /-- A commitment is not the expected one. -/
  | commitmentMismatch
  /-- A proof does not hold. -/
  | invalidProof
  /-- The node does not have what was asked for. -/
  | notFound
  /-- The connection failed. -/
  | transport
  /-- The node refused the call. -/
  | rejected
  /-- The call was cancelled. -/
  | cancelled
  /-- The call took too long. -/
  | deadline
  /-- Data is malformed. -/
  | malformed
deriving DecidableEq

namespace ErrorKind

/-- The wording of a kind. -/
def message : ErrorKind → String
  | invalidNamespace => "invalid namespace"
  | invalidBlob => "invalid blob"
  | commitmentMismatch => "commitment mismatch"
  | invalidProof => "invalid proof"
  | notFound => "not found"
  | transport => "transport"
  | rejected => "rejected by node"
  | cancelled => "cancelled"
  | deadline => "deadline exceeded"
  | malformed => "malformed"

/-- All kinds. -/
def all : List ErrorKind :=
  [invalidNamespace, invalidBlob, commitmentMismatch, invalidProof, notFound, transport, rejected,
    cancelled, deadline, malformed]

end ErrorKind

namespace Error

/-- The kind of an error. -/
def kind : Error → ErrorKind
  | namespaceVersion _ | namespaceSize _ | namespaceIdSize _ | namespacePrefix
  | dataNamespace _ | blobNamespace _ => .invalidNamespace
  | emptyBlob | blobSize _ _ | shareVersion _ | shareVersionSize _ => .invalidBlob
  | commitmentMismatch _ _ => .commitmentMismatch
  | rootMismatch | range _ | absenceProof | missingProof | proofKind | refuted _ => .invalidProof
  | shareSize _ | notSequenceStart | sequence _ | missingShares _ _ | notFirstShare
  | reservedBytes _ | notCompact | sequenceLength _ | noNamespaceToPad | namespacedHash
  | hashSize _ | indexOutside _ _ | squareShape _ | address _ | addressPrefix _
  | denomination _ | amount _ | malformed _ => .malformed

/-- The wording of an error. -/
def message : Error → String
  | namespaceVersion version => s!"Unsupported namespace version: {version}"
  | namespaceSize size => s!"Invalid namespace size: expected 29, got {size}"
  | namespaceIdSize size => s!"Invalid namespace id size: {size} > 10"
  | namespacePrefix => "Invalid namespace id: expected 18 leading zeroes"
  | dataNamespace ns =>
    s!"Invalid data namespace ({ns.toHex}): parity and tail padding namespace are forbidden"
  | blobNamespace ns =>
    s!"Invalid blob namespace ({ns.toHex}): reserved namespaces are forbidden"
  | emptyBlob => "Blob data must not be empty"
  | blobSize size maximum => s!"Blob data must be <= {maximum} bytes, but it was {size} bytes"
  | shareVersion version => s!"Unsupported share version: {version}"
  | shareVersionSize version => s!"Share version {version} must be <= 127"
  | commitmentMismatch expected computed =>
    s!"Commitment mismatch: expected {expected.toBase64}, computed {computed.toBase64}"
  | shareSize size => s!"Invalid share size: expected 512, got {size}"
  | notSequenceStart => "Expected a sequence start share"
  | sequence fault => s!"Unexpected share sequence: {fault.message}"
  | missingShares expected found => s!"Missing shares: expected {expected}, got {found}"
  | notFirstShare => "Sequence length can only be written to the first share"
  | reservedBytes index => s!"Reserved byte index {index} must be < 512"
  | notCompact => "Share is not a compact share"
  | sequenceLength length => s!"Share sequence length exceeded: {length} bytes"
  | noNamespaceToPad => "Cannot write namespace padding shares on an empty splitter"
  | namespacedHash => "Invalid namespaced hash"
  | hashSize size => s!"Invalid hash size: expected 32, got {size}"
  | indexOutside index count => s!"Index ({index}) out of range ({count})"
  | rootMismatch => "Root mismatch"
  | range fault => s!"Range proof error: {fault.message}"
  | missingProof => "Missing proof"
  | proofKind => "Wrong proof type"
  | absenceProof => "Expected a presence proof, got an absence proof"
  | squareShape fault => s!"Invalid extended data square: {fault.message}"
  | address fault => s!"Invalid address: {fault.message}"
  | addressPrefix found => s!"Invalid address prefix: {found}"
  | denomination text => s!"Invalid balance denomination: {text}"
  | amount text => s!"Invalid balance amount: {text}"
  | malformed fault => fault.message
  | refuted fault => fault.message

end Error

end Availability
