import Availability.Error

/-!
# Well-formed namespaces

* `Namespace.validate` – **well-formed**: version 0 with its zero bytes, or version 255;
* `Namespace.ofRaw`, `Namespace.ofId`, `Namespace.ofId₀`, `Namespace.ofId₂₅₅` – making
  well-formed namespaces from bytes;
* `Namespace.checked` – a namespace of which nothing was known, once it is found to be well-formed;
* `Namespace.validateForData` – well-formed, and not kept for padding or erasure coding;
* `Namespace.validateForBlob` – free for the blobs of users.
-/

namespace Availability.Namespace

/-- Makes a namespace of version 0 from the whole id or from its last bytes, of which there are at
most ten. A whole id has to start with 18 zero bytes. -/
def ofId₀ (id : Bytes) : Except Error Namespace :=
  if h : id.length ≤ 10 then .ok (ofSuffix id h)
  else if h : id.length = 28 then
    if (id.take 18).all (· = 0) then .ok (ofSuffix (id.drop 18) (by simp [h]))
    else .error .namespacePrefix
  else .error (.namespaceIdSize id.length)

/-- Makes a namespace of version 255 from its whole id. -/
def ofId₂₅₅ (id : Bytes) : Except Error Namespace :=
  if h : id.length = 28 then .ok ⟨255 :: id, by simp [h]⟩
  else .error (.namespaceIdSize id.length)

/-- Makes a namespace from a version and an id. -/
def ofId (version : UInt8) (id : Bytes) : Except Error Namespace :=
  if version = 0 then ofId₀ id
  else if version = 255 then ofId₂₅₅ id
  else .error (.namespaceVersion version)

/-- Makes a well-formed namespace from its bytes. -/
def ofRaw (bs : Bytes) : Except Error Namespace :=
  if bs.length = 29 then ofId (bs.headD 0) (bs.drop 1)
  else .error (.namespaceSize bs.length)

/-- The namespace again, if it is well-formed. -/
def checked (ns : Namespace) : Except Error Namespace :=
  ofRaw ns.bytes

/-- Checks that the namespace is well-formed. -/
def validate (ns : Namespace) : Except Error Unit :=
  if ns.version = 0 then
    if (ns.id.take 18).all (· = 0) then .ok () else .error .namespacePrefix
  else if ns.version = 255 then .ok ()
  else .error (.namespaceVersion ns.version)

/-- Checks that shares of the namespace may carry data. -/
def validateForData (ns : Namespace) : Except Error Unit := do
  ns.validate
  if ns = parity ∨ ns = tailPadding then .error (.dataNamespace ns) else .ok ()

/-- Checks that the namespace is free for the blobs of users. -/
def validateForBlob (ns : Namespace) : Except Error Unit := do
  ns.validateForData
  if ns ≤ maxPrimaryReserved then .error (.blobNamespace ns)
  else if ns.version ≠ 0 then .error (.namespaceVersion ns.version)
  else .ok ()

/-! ### Text -/

/-- The base64 text of a namespace. -/
def toBase64 (ns : Namespace) : String :=
  Base64.encode ns.bytes

end Availability.Namespace
