import Availability.Client.Failure
import Availability.Client.Service
import Availability.Json.Form
import Availability.Node.Info

/-!
# Methods of a node

A method is called with values of given types and answers with a value of another one. All of them
stand in JSON on the way.

* `JsonType`, `JsonType.Values` – types with their forms, and values of several such types;
* `Method` – what a call of a method needs and gives;
* `Method.request?`, `Method.answer` – the two directions of a call.
-/

namespace Availability

/-! ### Types of parameters and answers -/

/-- A type whose values stand in JSON. -/
structure JsonType : Type 1 where
  /-- The type. -/
  type : Type
  /-- The form of its values. -/
  form : JsonForm type

namespace JsonType

/-- A type with its usual form. -/
abbrev of (α : Type) [form : JsonForm α] : JsonType :=
  ⟨α, form⟩

/-- One value of each type. -/
@[reducible] def Values : List JsonType → Type
  | [] => Unit
  | t :: ts => t.type × Values ts

/-- Reads one value of each type. -/
def readValues : (ts : List JsonType) → List Json → Except DecodeError (Values ts)
  | [], [] => .ok ()
  | t :: ts, json :: rest => do
    let value ← t.form.read json
    return (value, ← readValues ts rest)
  | [], _ :: _ => .error .shape
  | _ :: _, [] => .error .shape

/-- Writes the values, if they can be written. -/
def writeValues : (ts : List JsonType) → Values ts → Option (List Json)
  | [], _ => some []
  | t :: ts, values => do
    return (← t.form.write values.1) :: (← writeValues ts values.2)

end JsonType

/-! ### Methods -/

/-- A method of a node. -/
structure Method : Type 1 where
  /-- The service that it belongs to. -/
  service : Service
  /-- The name of the method within the service. -/
  name : String
  /-- What a caller has to be allowed to do. The node sees to it, not the client. -/
  permission : Permission
  /-- The types of the parameters. -/
  params : List JsonType
  /-- The type of the answer, or of each of the answers to a subscription. -/
  result : JsonType
  /-- Whether the node goes on to send answers. -/
  isSubscription : Bool := false

/-- What a client sends to a node. -/
structure Request where
  /-- The full name of the method. -/
  method : String
  /-- The parameters. -/
  params : List Json

/-- What a node sends back: the text of a value, unless the call fails. -/
abbrev Reply := Except CallFailure String

namespace Method

/-- The name of a method together with that of its service. -/
def fullName (m : Method) : String :=
  s!"{m.service.name}.{m.name}"

/-- The name of the method that would end a subscription. -/
def unsubscribeName? (m : Method) : Option String :=
  if m.isSubscription then some s!"{m.service.name}.Unsubscribe" else none

/-- The request for a call, if its parameters can be written. -/
def request? (m : Method) (values : JsonType.Values m.params) : Option Request := do
  return { method := m.fullName, params := ← JsonType.writeValues m.params values }

/-- The answer to a call. -/
def answer (m : Method) (reply : Reply) : Except ClientError m.result.type :=
  match reply with
  | .error failure => .error (.ofFailure failure)
  | .ok text => (m.result.form.read.ofText text).mapError fun _ => .call .undecodable

end Method

end Availability
