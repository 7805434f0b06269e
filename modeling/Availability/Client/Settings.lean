import Availability.AppVersion
import Availability.Bytes
import Availability.Client.Failure
import Availability.Client.Protocol
import Availability.Share
import Availability.Text.Quoted

/-!
# Settings of a client

* `Settings` – the address of a node, and how it is spoken to;
* `Settings.describe` – a description which **does not show the token**;
* `Settings.connect` – the conditions under which a connection is tried at all, and its outcome.
-/

namespace Availability

/-- How a node is spoken to. -/
structure Settings where
  /-- The address of the node. -/
  url : Option String := none
  /-- The text by which the client shows what it may do. -/
  token : Option String := none
  /-- How long the client waits for an answer, in milliseconds. -/
  timeout : UInt64 := 60000
  /-- The largest answer that is taken, in bytes. It leaves a mebibyte beside the largest square. -/
  maxAnswer : UInt64 :=
    .ofNat (AppVersion.latest.extendedBound * AppVersion.latest.extendedBound * Share.size + 1048576)
  /-- The version of the application whose rules blobs are checked by. -/
  app : AppVersion := .latest
deriving DecidableEq

namespace Settings

/-- The settings with a token. The empty token is none. -/
def withToken (settings : Settings) (token : String) : Settings :=
  { settings with token := if token.isEmpty then none else some token }

/-! ### Descriptions -/

/-- How a value that may be missing is described. -/
def describeOption : Option String → String
  | some text => s!"Some({text})"
  | none => "None"

/-- A time in seconds with the digits after the point that are needed, or below one second in
milliseconds. -/
def describeTimeout (millis : Nat) : String :=
  if millis = 0 then "0ns"
  else if millis < 1000 then s!"{millis}ms"
  else
    let rest := millis % 1000
    let digits := [rest / 100, rest / 10 % 10, rest % 10]
    let digits := (digits.reverse.dropWhile (· = 0)).reverse
    let fraction := if digits.isEmpty then [] else '.' :: digits.map Nat.digitChar
    s!"{millis / 1000}{String.ofList fraction}s"

/-- The description of settings. -/
def describe (settings : Settings) : String :=
  let members : List (String × String) :=
    [("url", describeOption (settings.url.map Quoted.encode)),
      ("auth_token", describeOption (settings.token.map fun _ => Quoted.encode "..")),
      ("request_timeout", describeTimeout settings.timeout.toNat),
      ("max_response_size", toString settings.maxAnswer), ("app_version", s!"V{settings.app.number}")]
  let text := ", ".intercalate (members.map fun (key, value) => s!"{key}: {value}")
  "ClientBuilder \x7b " ++ text ++ " \x7d"

/-! ### Connecting -/

/-- Whether a token can be sent: it has no control characters but tabs. -/
def isSendable (token : String) : Bool :=
  (Bytes.ofString token).all fun b => b = 9 || (32 ≤ b && b ≠ 127)

/-- The address of the node. -/
def address (settings : Settings) : Except ClientError String :=
  match settings.url with
  | some url => .ok url
  | none => .error (.protocol "")

/-- The protocol of a connection to an address, once `dial` has made it. Whether the address names a
host that can be reached is for `dial` to say. -/
def connect (settings : Settings) (dial : String → Except CallFailure Unit) (url : String) :
    Except ClientError Protocol := do
  let some protocol := Protocol.ofUrl? url | throw (.protocol url)
  if !settings.token.all isSendable then throw .token
  (dial url).mapError .ofFailure
  return protocol

end Settings

end Availability
