import Availability.Client.MultiClient
import Availability.Network.Url
import Availability.Square.OfBlob
import Availability.Proofs.Checked
import Availability.Proofs.Width
import Availability.Proofs.Merkle.Tree
import Availability.Proofs.Namespace.Order
import Availability.Proofs.Nmt.LeafRange
import Availability.Proofs.Nmt.Tree
import Availability.Proofs.Share.Split
import Availability.Proofs.Blob.Commitment
import Availability.Proofs.Merkle.Proof
import Availability.Proofs.Nmt.Subtree
import Availability.Proofs.Square.RowProof
import Availability.Proofs.Square.Line
import Availability.Proofs.Blob.Proof
import Availability.Proofs.Nmt.SubtreeProof
import Availability.Proofs.Square.OfBlob
import Availability.Proofs.Square.OfRows
import Availability.Proofs.Blob.Rows
import Availability.Proofs.Blob.Inclusion
import Availability.Proofs.Merkle.Shape
import Availability.Proofs.Merkle.Place
import Availability.Proofs.Square.RowPlace
import Availability.Proofs.Nmt.SubtreePlace
import Availability.Proofs.Blob.Size
import Availability.Proofs.Client.Verified
import Availability.Proofs.Blob.Reconstruct
import Availability.Proofs.Wire
import Availability.Proofs.Nmt.TreeSize
import Availability.Proofs.Nmt.RangePlan
import Availability.Proofs.Nmt.RangeProof
import Availability.Proofs.Nmt.RangeComplete
import Availability.Proofs.Chain.Header
import Availability.Proofs.Foundations
import Availability.Proofs.Chain.Range
import Availability.Proofs.Square.Quadrant
import Availability.Proofs.Square.NamespaceData
import Availability.Proofs.Guarded.Basic
import Availability.Proofs.Guarded.Merkle
import Availability.Proofs.Guarded.Subtree
import Availability.Proofs.Guarded.Commitment
import Availability.Proofs.Nmt.SubtreeNodes
import Availability.Proofs.Client.Pool
import Availability.Proofs.Text.Base64
import Availability.Proofs.Text.Hex
import Availability.Proofs.Json.Scalar
import Availability.Proofs.Json.RoundTrip
import Availability.Proofs.Json.Record
import Availability.Proofs.Namespace.Rules
import Availability.Proofs.Nmt.Form
import Availability.Proofs.Merkle.Form
import Availability.Proofs.Square.Form
import Availability.Proofs.Blob.Form
import Availability.Proofs.Merkle.Path
import Availability.Proofs.Share.Parts
import Availability.Proofs.Blob.Sequence
import Availability.Proofs.Square.Header
import Availability.Proofs.Square.Make
import Availability.Proofs.Nmt.Sorted
import Availability.Proofs.Square.Range
import Availability.Proofs.Guarded.Buffer
import Availability.Proofs.Share.History
import Availability.Proofs.Guarded.Splitter
import Availability.Proofs.MountainRange
import Availability.Proofs.Blob.RootCount
import Availability.Proofs.Guarded.Create
import Availability.Proofs.Blob.SquareRoom
import Availability.Proofs.Namespace.Form
import Availability.Proofs.Blob.Reserved
import Availability.Proofs.Blob.Record
import Availability.Proofs.Text.Bits
import Availability.Proofs.Text.Bech32Checksum
import Availability.Proofs.Text.Bech32
import Availability.Proofs.Account.Address
import Availability.Proofs.Nmt.LeafCover
import Availability.Proofs.Guarded.Width
import Availability.Proofs.Client.Protocol
import Availability.Proofs.Client.Connect
