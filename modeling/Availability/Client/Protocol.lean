/-!
# Protocols

The address of a node begins with the protocol by which it is spoken to, up to the first colon.

* `Protocol.ofUrl?` – the protocol of an address;
* `Protocol.websocketUrl` – the address by which the same node is reached **over a websocket**.
-/

namespace Availability

/-- How a node is spoken to. -/
inductive Protocol where
  /-- One request after the other. -/
  | http
  /-- Over a websocket, on which the node may also speak first. -/
  | websocket
deriving DecidableEq

namespace Protocol

/-- The name of a protocol in descriptions. -/
def name : Protocol → String
  | http => "Http"
  | websocket => "Ws"

/-- What stands before the first colon, if there is one. -/
def scheme? (url : String) : Option String :=
  let cs := url.toList
  if ':' ∈ cs then some (String.ofList (cs.takeWhile (· ≠ ':'))) else none

/-- The protocol of an address. -/
def ofUrl? (url : String) : Option Protocol :=
  match scheme? url with
  | some "http" | some "https" => some http
  | some "ws" | some "wss" => some websocket
  | _ => none

/-- The address with the protocol changed to that of websockets, where it is another one. -/
def websocketUrl (url : String) : String :=
  let cs := url.toList
  match "https:".toList.isPrefixOf? cs, "http:".toList.isPrefixOf? cs with
  | some rest, _ => String.ofList ("wss:".toList ++ rest)
  | none, some rest => String.ofList ("ws:".toList ++ rest)
  | none, none => url

end Protocol

end Availability
