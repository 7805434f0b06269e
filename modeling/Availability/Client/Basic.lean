import Availability.Client.Interface
import Availability.Client.Pool
import Availability.Client.Settings

/-!
# Clients

A client is connected to one address of a node.

* `Client` – a connection;
* `ClientPool.pass` – **a closed client passes nothing on**;
* `Client.call`, `Client.subscribe` – a call of a method on a client that may be closed.
-/

namespace Availability

/-- A connection to a node. -/
structure Client where
  /-- The number of the client. -/
  id : ClientId
  /-- The address of the node. -/
  url : String
  /-- How the node is spoken to. -/
  protocol : Protocol
deriving DecidableEq

/-- What comes back on a client: nothing once it is closed. -/
def ClientPool.pass {α : Type} (pool : ClientPool) (client : ClientId)
    (reply : Except CallFailure α) : Except CallFailure α :=
  if pool.isClientClosed client then .error .closed else reply

namespace Client

/-- The description of a client. -/
def describe (client : Client) (pool : ClientPool) : String :=
  let closed := toString (pool.isClientClosed client.id)
  "Client \x7b protocol: " ++ client.protocol.name ++ ", closed: " ++ closed ++ " \x7d"

/-- Calls a method of a node. -/
def call (client : Client) (pool : ClientPool) (node : Request → Reply) (m : Method)
    (values : JsonType.Values m.params) : Except ClientError m.result.type :=
  match m.request? values with
  | some request => m.answer (pool.pass client.id (node request))
  | none => .error (.call .undecodable)

/-- Subscribes to a method of a node, and reads the answers that follow. -/
def subscribe (client : Client) (pool : ClientPool) (node : Request → List Reply) (m : Method)
    (values : JsonType.Values m.params) :
    Except ClientError (List (Except ClientError m.result.type)) := do
  let some request := m.request? values | throw (.call .undecodable)
  let replies ← (pool.pass client.id (.ok (node request))).mapError .ofFailure
  if client.protocol = .http then throw (.call .noSubscriptions)
  return replies.map m.answer

end Client

end Availability
