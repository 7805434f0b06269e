import Availability.Network.Ip
import Availability.Network.PeerId
import Availability.Text.Multibase
import Availability.Text.Percent

/-!
# Network addresses of peers

How a peer is reached is written as a sequence of protocols with their arguments, each of them
after a slash.

* `Multiaddr.Part` – one protocol;
* `Multiaddr.parse?`, `Multiaddr.toText` – the text form.

Arguments are written in many ways: numbers, names, addresses, digests and paths. Where a text has
more than one form, `Multiaddr.toText` writes **one** of them.
-/

namespace Availability

/-- One protocol of a network address. -/
inductive Multiaddr.Part where
  /-- A protocol without an argument. -/
  | plain (name : String)
  /-- A protocol with a number. -/
  | number (name : String) (n : Nat)
  /-- A protocol with a name. -/
  | named (name text : String)
  /-- A protocol with a path. -/
  | path (name text : String)
  /-- An address of version 4. -/
  | ip4 (ip : Ipv4)
  /-- An address of version 6. -/
  | ip6 (ip : Ipv6)
  /-- A peer. -/
  | peer (id : PeerId)
  /-- The digest of a certificate. -/
  | certificate (hash : Multihash)
  /-- The key of a hidden service, in digits of base 32, and its port. -/
  | onion (name key : String) (port : Nat)
  /-- A destination in a hidden network, in long form. -/
  | garlic64 (destination : Bytes)
  /-- A destination in a hidden network, in short form. -/
  | garlic32 (destination : Bytes)
deriving DecidableEq

/-- The protocols by which a peer is reached. -/
structure Multiaddr where
  /-- The protocols, the outermost one first. -/
  parts : List Multiaddr.Part
deriving DecidableEq

namespace Multiaddr

/-! ### Protocols by their arguments -/

/-- The protocols without an argument. -/
def plainNames : List String :=
  ["http", "https", "noise", "p2p-circuit", "p2p-stardust", "p2p-webrtc-direct",
    "p2p-webrtc-star", "p2p-websocket-star", "quic", "quic-v1", "tls", "udt", "utp", "webrtc",
    "webrtc-direct", "webtransport", "ws", "wss"]

/-- The protocols with a number, and the bits of the number. -/
def numberBits : List (String × Nat) :=
  [("dccp", 16), ("ipcidr", 8), ("memory", 64), ("sctp", 16), ("tcp", 16), ("udp", 16)]

/-- The protocols with a name. -/
def namedNames : List String :=
  ["dns", "dns4", "dns6", "dnsaddr", "ip6zone", "sni", "unix"]

/-- The protocols with a path, and the protocol that each of them is when the path is the root. -/
def pathNames : List (String × Option String) :=
  [("http-path", none), ("x-parity-ws", some "ws"), ("x-parity-wss", some "wss")]

/-- The protocols of hidden services, and the number of digits of their keys. -/
def onionDigits : List (String × Nat) :=
  [("onion", 16), ("onion3", 56)]

/-! ### Arguments -/

/-- The protocol with a path. -/
def pathPart (name : String) (atRoot : Option String) (path : String) : Part :=
  match atRoot with
  | some plainName => if path = "/" then .plain plainName else .path name path
  | none => .path name path

/-- Reads the key and the port of a hidden service. -/
def onion? (name : String) (digits : Nat) (argument : String) : Option Part :=
  match splitOnChar ':' argument.toList with
  | [key, port] => do
    let key := key.map Char.toLower
    guard (key.length = digits ∧ key.all (Multibase.base32.contains ·))
    let port ← Decimal.nat? UInt16.size (String.ofList port)
    return .onion name (String.ofList key) port
  | _ => none

/-- The digits of long destinations. -/
def garlicDigits : List Char := Multibase.base64 "-~"

/-- Reads a destination in long form, in which `+` may stand for `-`. -/
def garlic64? (argument : String) : Option Part := do
  guard (516 ≤ argument.utf8ByteSize ∧ argument.utf8ByteSize ≤ 616)
  let digits ← argument.toList.mapM fun c => garlicDigits.idxOf? (if c = '+' then '-' else c)
  return .garlic64 (← Bits.exactBytes? 6 digits)

/-- Reads a destination in short form. -/
def garlic32? (argument : String) : Option Part := do
  guard (argument.utf8ByteSize = 52 ∨ 55 ≤ argument.utf8ByteSize)
  let digits ← argument.toList.mapM fun c => Multibase.base32.idxOf? c.toLower
  return .garlic32 (← Bits.exactBytes? 5 digits)

/-- Reads the argument of a protocol. -/
def argument? (name argument : String) : Option Part :=
  match numberBits.lookup name, pathNames.lookup name, onionDigits.lookup name with
  | some bits, _, _ => .number name <$> Decimal.nat? (1 <<< bits) argument
  | none, some atRoot, _ => pathPart name atRoot <$> Percent.decode? argument
  | none, none, some digits => onion? name digits argument
  | none, none, none =>
    if name ∈ namedNames then some (.named name argument)
    else if name = "ip4" then .ip4 <$> Ipv4.parse? argument.toList
    else if name = "ip6" then .ip6 <$> Ipv6.parse? argument.toList
    else if name = "p2p" then .peer <$> PeerId.parse? argument
    else if name = "certhash" then
      .certificate <$> (Multibase.decode? argument >>= Multihash.ofBytes?)
    else if name = "garlic64" then garlic64? argument
    else if name = "garlic32" then garlic32? argument
    else none

/-! ### Texts -/

/-- Reads protocols from what stands between the slashes. -/
def parts? : List String → Option (List Part)
  | [] => some []
  | [name] => if name ∈ plainNames then some [.plain name] else none
  | name :: argument :: rest =>
    if name ∈ plainNames then (.plain name :: ·) <$> parts? (argument :: rest)
    else do
      let part ← argument? name argument
      return part :: (← parts? rest)

/-- Reads a network address. -/
def parse? (text : String) : Option Multiaddr :=
  match (splitOnChar '/' text.toList).map String.ofList with
  | "" :: parts => Multiaddr.mk <$> parts? parts
  | _ => none

/-- The text of a protocol. -/
def Part.toText : Part → String
  | plain name => "/" ++ name
  | number name n => "/" ++ name ++ "/" ++ toString n
  | named name text => "/" ++ name ++ "/" ++ text
  | path name text => "/" ++ name ++ "/" ++ Percent.encode text
  | ip4 ip => "/ip4/" ++ ip.toText
  | ip6 ip => "/ip6/" ++ ip.toText
  | peer id => "/p2p/" ++ id.toText
  | certificate hash => "/certhash/" ++ Multibase.encodeUrl hash.toBytes
  | onion name key port => "/" ++ name ++ "/" ++ key ++ ":" ++ toString port
  | garlic64 destination => "/garlic64/" ++ Multibase.encodeBits 6 garlicDigits destination
  | garlic32 destination => "/garlic32/" ++ Multibase.encodeBits 5 Multibase.base32 destination

/-- The text of a network address. -/
def toText (addr : Multiaddr) : String :=
  String.join (addr.parts.map Part.toText)

instance : JsonForm Multiaddr := .ofText parse? toText

end Multiaddr

end Availability
