import Availability.Json.Form
import Availability.Namespace.Rules

/-!
# Namespaces in JSON

A namespace is the padded base64 text of its 29 bytes, which have to be **well-formed**.
-/

namespace Availability.Namespace

/-- Reads a namespace. -/
def decoder : Decoder Namespace :=
  .refined (.narrowed .string Base64.decode?) ofRaw

/-- Writes a namespace. -/
def toJson (ns : Namespace) : Json :=
  .str ns.toBase64

instance : JsonForm Namespace := .total decoder toJson

end Availability.Namespace
