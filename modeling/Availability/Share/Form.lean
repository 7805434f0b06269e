import Availability.Json.Form
import Availability.Share

/-!
# Shares in JSON

A share is the base64 text of its 512 bytes; its namespace has to be **well-formed**.
-/

namespace Availability.Share

/-- Reads a share. -/
def decoder : Decoder Share :=
  .refined .base64 ofRaw

/-- Writes a share. -/
def toJson (share : Share) : Json :=
  .ofBytes share.bytes

instance : JsonForm Share := .total decoder toJson

end Availability.Share
