import Availability.Account.Delegation
import Availability.Account.Transaction
import Availability.Blob.Form
import Availability.Chain.Form
import Availability.Client.Method
import Availability.Network.Stats
import Availability.Node.Progress
import Availability.Node.RawData

/-!
# The interface of a node

All methods, with what a caller has to be allowed to do and what goes back and forth.

* `Method.all` – the methods, service by service;
* `Method.find?` – the method of a full name;
* `Service.hasSubscriptions` – whether some method of a service is a subscription.
-/

namespace Availability

open JsonType (of)

/-- The form of the hash of a header by itself. -/
def headerHashType : JsonType :=
  ⟨HeaderHash, .ofText HeaderHash.parse? HeaderHash.toText⟩

namespace Method

/-! ### Blobs and squares -/

/-- Submits blobs together, and tells the height of the block that they are in. -/
def submitBlobs : Method :=
  { service := .blob, name := "Submit", permission := .write
    params := [of (List Blob), of TxConfig], result := of UInt64 }

/-- The blob of a namespace that has a commitment. -/
def getBlob : Method :=
  { service := .blob, name := "Get", permission := .read
    params := [of UInt64, of Namespace, of Commitment], result := of Blob }

/-- The proof that a commitment is in a block. -/
def getCommitmentProof : Method :=
  { service := .blob, name := "GetCommitmentProof", permission := .read
    params := [of UInt64, of Namespace, of Commitment], result := of CommitmentProof }

/-- The blobs of a namespace, block by block. -/
def subscribeBlobs : Method :=
  { service := .blob, name := "Subscribe", permission := .read
    params := [of Namespace], result := of PublishedBlobs, isSubscription := true }

/-- The methods on blobs. -/
def ofBlob : List Method :=
  [submitBlobs, getBlob,
    ⟨.blob, "GetAll", .read, [of UInt64, of (List Namespace)], of (Option (List Blob)), false⟩,
    ⟨.blob, "GetProof", .read, [of UInt64, of Namespace, of Commitment], of (List NamespaceProof),
      false⟩,
    ⟨.blob, "Included", .read,
      [of UInt64, of Namespace, of (List NamespaceProof), of Commitment], of Bool, false⟩,
    getCommitmentProof, subscribeBlobs]

/-- The methods on squares. -/
def ofShare : List Method :=
  [⟨.share, "SharesAvailable", .read, [of ExtendedHeader], of Unit, false⟩,
    ⟨.share, "GetShare", .read, [of ExtendedHeader, of UInt64, of UInt64], of Share, false⟩,
    ⟨.share, "GetEDS", .read, [of ExtendedHeader], of ExtendedSquare, false⟩,
    ⟨.share, "GetSharesByNamespace", .read, [of ExtendedHeader, of Namespace], of NamespaceData,
      false⟩]

/-! ### Headers -/

/-- The header of a height. -/
def getHeader : Method :=
  { service := .header, name := "GetByHeight", permission := .read
    params := [of UInt64], result := of ExtendedHeader }

/-- The methods on headers. -/
def ofHeader : List Method :=
  [⟨.header, "LocalHead", .read, [], of ExtendedHeader, false⟩,
    ⟨.header, "GetByHash", .read, [headerHashType], of ExtendedHeader, false⟩,
    ⟨.header, "GetRangeByHeight", .read, [of ExtendedHeader, of UInt64], of (List ExtendedHeader),
      false⟩,
    getHeader,
    ⟨.header, "WaitForHeight", .read, [of UInt64], of ExtendedHeader, false⟩,
    ⟨.header, "SyncState", .read, [], of SyncState, false⟩,
    ⟨.header, "SyncWait", .read, [], of Unit, false⟩,
    ⟨.header, "NetworkHead", .read, [], of ExtendedHeader, false⟩,
    ⟨.header, "Subscribe", .read, [], of ExtendedHeader, true⟩]

/-! ### Accounts -/

/-- The methods that ask for something of accounts. -/
def ofAccounts : List Method :=
  [⟨.state, "AccountAddress", .read, [], of Address, false⟩,
    ⟨.state, "Balance", .read, [], of Balance, false⟩,
    ⟨.state, "BalanceForAddress", .read, [of Address], of Balance, false⟩]

/-- The methods that submit a transaction other than for fees. -/
def ofTransactions : List Method :=
  [transaction "Transfer" [of AccountAddress, of Amount],
    transaction "SubmitPayForBlob" [of (List Blob)],
    transaction "CancelUnbondingDelegation" [of ValidatorAddress, of Amount, of Amount],
    transaction "BeginRedelegate" [of ValidatorAddress, of ValidatorAddress, of Amount],
    transaction "Undelegate" [of ValidatorAddress, of Amount],
    transaction "Delegate" [of ValidatorAddress, of Amount]]
where
  /-- A method that submits a transaction. How it is submitted is the last parameter. -/
  transaction (name : String) (params : List JsonType) : Method :=
    ⟨.state, name, .write, params ++ [of TxConfig], of TxResult, false⟩

/-- The methods on accounts. -/
def ofState : List Method :=
  ofAccounts ++ ofTransactions ++
    [⟨.state, "QueryDelegation", .read, [of ValidatorAddress], of DelegationAnswer, false⟩,
      ⟨.state, "QueryUnbonding", .read, [of ValidatorAddress], of UnbondingAnswer, false⟩,
      ⟨.state, "QueryRedelegations", .read, [of ValidatorAddress, of ValidatorAddress],
        of RedelegationAnswer, false⟩,
      ofTransactions.transaction "GrantFee" [of AccountAddress, of Amount],
      ofTransactions.transaction "RevokeGrantFee" [of AccountAddress]]

/-! ### The node and its network -/

/-- The methods on sampling. -/
def ofDas : List Method :=
  [⟨.das, "SamplingStats", .read, [], of SamplingStats, false⟩,
    ⟨.das, "WaitCatchUp", .read, [], of Unit, false⟩]

/-- The methods on frauds. -/
def ofFraud : List Method :=
  [⟨.fraud, "Subscribe", .read, [of FraudKind], of FraudProof, true⟩,
    ⟨.fraud, "Get", .read, [of FraudKind], of (List FraudProof), false⟩]

/-- The methods on peers. -/
def ofP2p : List Method :=
  [⟨.p2p, "Info", .admin, [], of PeerInfo, false⟩,
    ⟨.p2p, "Peers", .admin, [], of (List PeerId), false⟩,
    ⟨.p2p, "PeerInfo", .admin, [of PeerId], of PeerInfo, false⟩,
    ⟨.p2p, "Connect", .admin, [of PeerInfo], of Unit, false⟩,
    ⟨.p2p, "ClosePeer", .admin, [of PeerId], of Unit, false⟩,
    ⟨.p2p, "Connectedness", .admin, [of PeerId], of Connectedness, false⟩,
    ⟨.p2p, "NATStatus", .admin, [], of Reachability, false⟩,
    ⟨.p2p, "BlockPeer", .admin, [of PeerId], of Unit, false⟩,
    ⟨.p2p, "UnblockPeer", .admin, [of PeerId], of Unit, false⟩,
    ⟨.p2p, "ListBlockedPeers", .admin, [], of (List PeerId), false⟩,
    ⟨.p2p, "Protect", .admin, [of PeerId, of String], of Unit, false⟩,
    ⟨.p2p, "Unprotect", .admin, [of PeerId, of String], of Bool, false⟩,
    ⟨.p2p, "IsProtected", .admin, [of PeerId, of String], of Bool, false⟩,
    ⟨.p2p, "BandwidthStats", .admin, [], of Bandwidth, false⟩,
    ⟨.p2p, "BandwidthForPeer", .admin, [of PeerId], of Bandwidth, false⟩,
    ⟨.p2p, "BandwidthForProtocol", .admin, [of String], of Bandwidth, false⟩,
    ⟨.p2p, "ResourceState", .admin, [], of ResourceReport, false⟩,
    ⟨.p2p, "PubSubPeers", .admin, [of String], of (Option (List PeerId)), false⟩]

/-- The methods on the node itself. -/
def ofNode : List Method :=
  [⟨.node, "Info", .admin, [], of NodeInfo, false⟩,
    ⟨.node, "Ready", .everyone, [], of Bool, false⟩,
    ⟨.node, "LogLevelSet", .admin, [of String, of String], of Unit, false⟩,
    ⟨.node, "AuthVerify", .admin, [of String], of (List Permission), false⟩,
    ⟨.node, "AuthNew", .admin, [of (List Permission)], of AuthToken, false⟩]

/-! ### Data by itself -/

/-- The methods on data by itself. -/
def ofDa : List Method :=
  [⟨.da, "MaxBlobSize", .read, [], of UInt64, false⟩,
    ⟨.da, "Get", .read, [of (List RawData), of Namespace], of (List RawData), false⟩,
    ⟨.da, "GetProofs", .read, [of (List RawData), of Namespace], of (List RawData), false⟩,
    ⟨.da, "GetIDs", .read, [of UInt64, of Namespace], of (Option (List RawData)), false⟩,
    ⟨.da, "Commit", .read, [of (List RawData), of Namespace], of (List RawData), false⟩,
    ⟨.da, "Validate", .read, [of (List RawData), of (List RawData), of Namespace], of (List Bool),
      false⟩,
    ⟨.da, "Submit", .write, [of (List RawData), of Float, of Namespace], of (List RawData), false⟩]

/-! ### All of them -/

/-- The methods of a service. -/
def ofService : Service → List Method
  | .blob => ofBlob
  | .share => ofShare
  | .header => ofHeader
  | .state => ofState
  | .das => ofDas
  | .fraud => ofFraud
  | .p2p => ofP2p
  | .node => ofNode
  | .da => ofDa

/-- All methods. -/
def all : List Method :=
  Service.all.flatMap ofService

/-- The method of a full name. -/
def find? (text : String) : Option Method :=
  all.find? fun m => m.fullName = text

end Method

/-- Whether some method of the service is a subscription. -/
def Service.hasSubscriptions (s : Service) : Bool :=
  (Method.ofService s).any Method.isSubscription

end Availability
