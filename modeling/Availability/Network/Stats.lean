import Availability.Network.Multiaddr

/-!
# The network of a node

* `PeerInfo` – a peer and how it is reached;
* `ResourceUse`, `ResourceReport` – the resources that a node uses, in all and for each purpose;
* `Bandwidth` – how much a node sends and receives;
* `Connectedness`, `Reachability` – how a peer, or the node itself, can be connected to.
-/

namespace Availability

/-- A peer and how it is reached. -/
structure PeerInfo where
  /-- The peer. -/
  id : PeerId
  /-- How it is reached. -/
  addresses : List Multiaddr
deriving DecidableEq

instance : JsonForm PeerInfo := Members.form <|
  PeerInfo.mk <$> .need "ID" PeerInfo.id <*> .list "Addrs" PeerInfo.addresses

/-! ### Resources -/

/-- The resources that are used for one purpose. -/
structure ResourceUse where
  /-- Streams that peers have opened. -/
  streamsInbound : Int64 := 0
  /-- Streams that were opened to peers. -/
  streamsOutbound : Int64 := 0
  /-- Connections that peers have opened. -/
  connsInbound : Int64 := 0
  /-- Connections that were opened to peers. -/
  connsOutbound : Int64 := 0
  /-- File descriptors. -/
  fileDescriptors : Int64 := 0
  /-- Bytes of memory. -/
  memory : Int64 := 0
deriving DecidableEq

instance : JsonForm ResourceUse := Members.form <|
  ResourceUse.mk <$> .orElse "NumStreamsInbound" 0 ResourceUse.streamsInbound
    <*> .orElse "NumStreamsOutbound" 0 ResourceUse.streamsOutbound
    <*> .orElse "NumConnsInbound" 0 ResourceUse.connsInbound
    <*> .orElse "NumConnsOutbound" 0 ResourceUse.connsOutbound
    <*> .orElse "NumFD" 0 ResourceUse.fileDescriptors <*> .orElse "Memory" 0 ResourceUse.memory

/-- The resources that a node uses. -/
structure ResourceReport where
  /-- All resources. -/
  system : ResourceUse
  /-- Resources whose purpose is not known yet. -/
  transient : ResourceUse
  /-- The resources of each service. -/
  services : Table ResourceUse
  /-- The resources of each protocol. -/
  protocols : Table ResourceUse
  /-- The resources of each peer. -/
  peers : Table ResourceUse
deriving DecidableEq

namespace ResourceReport

/-- A table that may be missing or `null`. -/
def table (key : String) (get : ResourceReport → Table ResourceUse) :
    Members ResourceReport (Table ResourceUse) :=
  .one key (.withDefault key ⟨[]⟩ (.orNull ⟨[]⟩ JsonForm.read)) fun r => JsonForm.write (get r)

instance : JsonForm ResourceReport := Members.form <|
  ResourceReport.mk <$> .orElse "System" {} ResourceReport.system
    <*> .orElse "Transient" {} ResourceReport.transient
    <*> table "Services" ResourceReport.services <*> table "Protocols" ResourceReport.protocols
    <*> table "Peers" ResourceReport.peers

end ResourceReport

/-- How much a node sends and receives. -/
structure Bandwidth where
  /-- The bytes that were received. -/
  totalIn : Float
  /-- The bytes that were sent. -/
  totalOut : Float
  /-- The bytes that are received in a second. -/
  rateIn : Float
  /-- The bytes that are sent in a second. -/
  rateOut : Float

instance : JsonForm Bandwidth := Members.form <|
  Bandwidth.mk <$> .orElse "TotalIn" 0 Bandwidth.totalIn <*> .orElse "TotalOut" 0 Bandwidth.totalOut
    <*> .orElse "RateIn" 0 Bandwidth.rateIn <*> .orElse "RateOut" 0 Bandwidth.rateOut

/-! ### Connections -/

/-- How a peer can be connected to. -/
inductive Connectedness where
  /-- There is no connection, and nothing is known. -/
  | notConnected
  /-- There is a connection. -/
  | connected
  /-- There was a connection not long ago. -/
  | canConnect
  /-- Connecting has failed not long ago. -/
  | cannotConnect
  /-- There is a connection through another peer. -/
  | limited
deriving DecidableEq

namespace Connectedness

/-- All values, by their numbers. -/
def all : List Connectedness :=
  [notConnected, connected, canConnect, cannotConnect, limited]

/-- The name of a value. -/
def name : Connectedness → String
  | notConnected => "NotConnected"
  | connected => "Connected"
  | canConnect => "CanConnect"
  | cannotConnect => "CannotConnect"
  | limited => "Limited"

instance : JsonForm Connectedness := .ofCodes all all.idxOf

end Connectedness

/-- How the node itself can be connected to. -/
inductive Reachability where
  /-- It is not known. -/
  | unknown
  /-- From everywhere. -/
  | everywhere
  /-- Not from outside. -/
  | inside
deriving DecidableEq

namespace Reachability

/-- All values, by their numbers. -/
def all : List Reachability :=
  [unknown, everywhere, inside]

/-- The name of a value. -/
def name : Reachability → String
  | unknown => "Unknown"
  | everywhere => "Public"
  | inside => "Private"

instance : JsonForm Reachability := .ofCodes all all.idxOf

end Reachability

end Availability
