import Availability.Client.Basic

/-!
# Clients for all services

Each service of a node gets a client of its own. Services with subscriptions are reached over
websockets, and all others as the address says.

* `MultiClient.connect` – **all or nothing**: when one client is not connected, those before it are
  closed;
* `MultiClient.submit` – blobs are checked before they are sent;
* `MultiClient.getVerified` – a blob is taken from the node **only with a proof** that it is in the
  block.
-/

namespace Availability

/-- The address of a service of the node with the given address. -/
def Service.url (s : Service) (url : String) : String :=
  if s.hasSubscriptions then Protocol.websocketUrl url else url

/-- Clients for all services of a node. -/
structure MultiClient where
  /-- The client of each service, in the order of the services. -/
  clients : List (Service × Client)
  /-- Which of the clients are closed. -/
  pool : ClientPool
  /-- The version of the application whose rules blobs are checked by. -/
  app : AppVersion
deriving DecidableEq

namespace MultiClient

/-! ### Connecting -/

/-- Connects to services, one after the other, besides those that are connected already. -/
def connectEach (settings : Settings) (dial : Service → String → Except CallFailure Unit)
    (url : String) (clients : List (Service × Client)) (pool : ClientPool) :
    List Service → Except ClientError (List (Service × Client)) × ClientPool
  | [] => (.ok clients, pool)
  | s :: rest =>
    match settings.connect (dial s) (s.url url) with
    | .error e => (.error e, pool.closeAll)
    | .ok protocol =>
      let client : Client := { id := clients.length, url := s.url url, protocol }
      connectEach settings dial url (clients ++ [(s, client)]) (pool.register client.id) rest

/-- Connects to all services, where `dial` makes the connections. The clients that are left when
one of them fails are in the pool. -/
def connect (settings : Settings) (dial : Service → String → Except CallFailure Unit) :
    Except ClientError MultiClient × ClientPool :=
  match settings.address with
  | .error e => (.error e, .empty)
  | .ok url =>
    let (clients, pool) := connectEach settings dial url [] .empty Service.all
    (clients.map fun clients => { clients, pool, app := settings.app }, pool)

/-- Closes all clients. -/
def close (m : MultiClient) : MultiClient :=
  { m with pool := m.pool.closeAll }

/-- Whether the clients were closed together. -/
def isClosed (m : MultiClient) : Bool :=
  m.pool.isClosed

/-! ### Calls -/

/-- Calls a method on the client of its service. -/
def call (m : MultiClient) (node : Request → Reply) (method : Method)
    (values : JsonType.Values method.params) : Except ClientError method.result.type :=
  match m.clients.lookup method.service with
  | some client => client.call m.pool node method values
  | none => .error .closed

/-- Submits blobs, all of which have to be valid, and gives the height of their block. -/
def submit (m : MultiClient) (node : Request → Reply) (blobs : List Blob) (config : TxConfig) :
    Except ClientError UInt64 := do
  blobs.forM fun blob => (blob.validate m.app).mapError .data
  m.call node .submitBlobs (blobs, config, ())

/-- The version of the application of a header, which has to be known. -/
def knownVersion (header : ExtendedHeader) : Except Refutation AppVersion :=
  match AppVersion.ofNat? header.header.version.app.toNat with
  | some app => .ok app
  | none => .error (.appVersion header.header.version.app.toNat)

/-- Asks for a blob of a block. The rules are those of the block, and not those of the client. -/
def getVerified (m : MultiClient) (node : Request → Reply) (height : UInt64) (ns : Namespace)
    (commitment : Commitment) : Except ClientError Blob := do
  let header : ExtendedHeader ← m.call node .getHeader (height, ())
  header.validate.mapError fun fault => .data (.malformed fault)
  if header.height ≠ height.toNat then
    throw (.data (.refuted (.requestedHeight header.height height.toNat)))
  let app ← (knownVersion header).mapError fun fault => .data (.refuted fault)
  let blob : Blob ← m.call node .getBlob (height, ns, commitment, ())
  (blob.validateWith commitment app).mapError .data
  let proof : CommitmentProof ← m.call node .getCommitmentProof (height, ns, commitment, ())
  if proof.ns ≠ ns then throw (.data (.refuted (.requestedNamespace proof.ns ns)))
  (proof.verify commitment header.availability.hash app.subtreeRootThreshold).mapError .data
  return blob

end MultiClient

end Availability
