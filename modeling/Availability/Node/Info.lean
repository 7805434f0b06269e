import Availability.Json.Form

/-!
# The node and access to it

* `NodeType`, `NodeInfo` – which part of the network a node is;
* `Permission` – what a caller may do, **in ascending order**;
* `AuthToken` – the text by which a caller shows what it may do. It is never shown itself.
-/

namespace Availability

/-! ### Nodes -/

/-- Which part of the network a node is. -/
inductive NodeType where
  /-- It takes blocks over from the consensus network. -/
  | bridge
  /-- It keeps whole blocks. -/
  | full
  /-- It keeps headers and samples blocks. -/
  | light
deriving DecidableEq

namespace NodeType

/-- All types. -/
def all : List NodeType := [bridge, full, light]

/-- The number of a type. -/
def number (type : NodeType) : Nat :=
  all.idxOf type + 1

/-- The name of a type. -/
def name : NodeType → String
  | bridge => "Bridge"
  | full => "Full"
  | light => "Light"

instance : JsonForm NodeType := .ofCodes all number

end NodeType

/-- What a node says about itself. -/
structure NodeInfo where
  /-- Which part of the network it is. -/
  type : NodeType
  /-- The version of its interface. -/
  apiVersion : String
deriving DecidableEq

instance : JsonForm NodeInfo := Members.form <|
  NodeInfo.mk <$> .need "type" NodeInfo.type <*> .need "api_version" NodeInfo.apiVersion

/-! ### Access -/

/-- What a caller may do. -/
inductive Permission where
  /-- What everyone may do. -/
  | everyone
  /-- Ask for data. -/
  | read
  /-- Submit data. -/
  | write
  /-- Manage the node. -/
  | admin
deriving DecidableEq

namespace Permission

/-- All permissions, each of them including those before it. -/
def all : List Permission := [everyone, read, write, admin]

/-- The word for a permission. -/
def word : Permission → String
  | everyone => "public"
  | read => "read"
  | write => "write"
  | admin => "admin"

/-- What includes less comes first. -/
instance : LT Permission := ⟨fun a b => all.idxOf a < all.idxOf b⟩

instance (a b : Permission) : Decidable (a < b) :=
  inferInstanceAs (Decidable (all.idxOf a < all.idxOf b))

instance : JsonForm Permission := .ofWords (all.map fun p => (p.word, p)) word

end Permission

/-- The text by which a caller shows what it may do. -/
structure AuthToken where
  /-- The text. -/
  text : String
deriving DecidableEq

namespace AuthToken

/-- The token of a padded base64 text. -/
def ofBase64? (text : String) : Option AuthToken := do
  return ⟨← Bytes.toString? (← Base64.decode? text)⟩

/-- What is shown instead of a token. -/
def describe (_ : AuthToken) : String :=
  "AuthToken(..)"

instance : JsonForm AuthToken := .ofText ofBase64? fun t => Base64.encode (Bytes.ofString t.text)

end AuthToken

end Availability
