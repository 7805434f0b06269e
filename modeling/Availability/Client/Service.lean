/-!
# Services of a node

The interface of a node is divided into services, each of them with methods of its own.

* `Service` – the services;
* `Service.all` – **the order** in which a client connects to them.
-/

namespace Availability

/-- A part of the interface of a node. -/
inductive Service where
  /-- Blobs are submitted and read. -/
  | blob
  /-- The squares of blocks are read. -/
  | share
  /-- Headers are read. -/
  | header
  /-- Accounts are read, and coins moved. -/
  | state
  /-- The sampling of blocks is watched. -/
  | das
  /-- Proofs of frauds are read. -/
  | fraud
  /-- Peers are managed. -/
  | p2p
  /-- The node itself is managed. -/
  | node
  /-- Data is exchanged without regard to squares. -/
  | da
deriving DecidableEq

namespace Service

/-- All services, in order. -/
def all : List Service :=
  [blob, share, header, state, das, fraud, p2p, node, da]

/-- The name that the methods of a service begin with. -/
def name : Service → String
  | blob => "blob"
  | share => "share"
  | header => "header"
  | state => "state"
  | das => "das"
  | fraud => "fraud"
  | p2p => "p2p"
  | node => "node"
  | da => "da"

/-- The service of a name. -/
def ofName? (text : String) : Option Service :=
  all.find? fun s => s.name = text

end Service

end Availability
