import Availability.Error

/-!
# Why a client fails

* `CallFailure` – a call does not come back with an answer;
* `ClientError` – any cause for which a client fails, with `ClientError.message` and
  `ClientError.kind`;
* `ClientError.ofFailure` – two of the failures have a meaning of their own: the client **is closed**,
  or the node **does not have** the blob.
-/

namespace Availability

/-- Why a call does not come back with an answer. -/
inductive CallFailure where
  /-- The node refuses the call. -/
  | refused (code : Int) (message : String)
  /-- What the node answers is not the answer to the call. -/
  | undecodable
  /-- The connection does not take the call. -/
  | custom (message : String)
  /-- The connection fails. -/
  | transport
  /-- The connection has to be made anew. -/
  | restartNeeded
  /-- The node takes too long. -/
  | timeout
  /-- The connection does not know subscriptions. -/
  | noSubscriptions
  /-- The node has named a subscription in a wrong way. -/
  | subscriptionName
deriving DecidableEq

namespace CallFailure

/-- What a connection says after it was closed. -/
def closedMessage : String := "client closed"

/-- What a node says, among other things, when it does not have a blob. -/
def missingBlobMessage : String := "blob: not found"

/-- The failure of a call that is made after closing. -/
def closed : CallFailure :=
  .custom closedMessage

/-- Whether the node does not have the blob that the call is about. -/
def isMissingBlob : CallFailure → Bool
  | refused _ message => isPart missingBlobMessage.toList message.toList
  | _ => false
where
  /-- Whether one text is a part of another one. -/
  isPart (part : List Char) : List Char → Bool
    | [] => part.isEmpty
    | c :: cs => part.isPrefixOf (c :: cs) || isPart part cs

/-- The kind of a failure. -/
def kind (failure : CallFailure) : ErrorKind :=
  match failure with
  | timeout => .deadline
  | refused _ _ => if failure.isMissingBlob then .notFound else .rejected
  | undecodable => .malformed
  | custom _ | transport | restartNeeded | noSubscriptions | subscriptionName => .transport

end CallFailure

/-- Why a client fails. -/
inductive ClientError where
  /-- The token has characters that can not be sent. -/
  | token
  /-- A call does not come back with an answer. -/
  | call (failure : CallFailure)
  /-- The address of the node begins with no known protocol. -/
  | protocol (url : String)
  /-- Data is refused. -/
  | data (error : Error)
  /-- The node does not have the blob. -/
  | notFound
  /-- The client is closed. -/
  | closed
deriving DecidableEq

namespace ClientError

/-- The meaning of a failure. -/
def ofFailure (failure : CallFailure) : ClientError :=
  if failure = .closed then closed
  else if failure.isMissingBlob then notFound
  else call failure

/-- The kind of an error. -/
def kind : ClientError → ErrorKind
  | token | protocol _ | closed => .transport
  | notFound => .notFound
  | data error => error.kind
  | call failure => failure.kind

/-- The wording of an error, apart from failing calls, which are worded by the connection. -/
def message? : ClientError → Option String
  | token => some "Token contains invalid characters: failed to parse header value"
  | call _ => none
  | protocol url => some s!"Protocol not supported or missing: {url}"
  | data error => some error.message
  | notFound => some "Not found"
  | closed => some "Client closed"

end ClientError

end Availability
