import Availability.Json.Decode

/-!
# Values in JSON

* `JsonForm` – how the values of a type are read from JSON and written to it. Writing may **fail**,
  for values that JSON has no room for;
* `Json.ofBytes`, `Json.ofFloat`, `Json.record`, … – the parts of which such forms are written;
* `Members` – the members of a record, each of them with the way it is read **and** written.
-/

namespace Availability

namespace Json

/-- A number. -/
def ofNat (n : Nat) : Json :=
  .int n

/-- A double. What is no number has no form of its own. -/
def ofFloat (x : Float) : Json :=
  if x.isFinite then .float x else .null

/-- Bytes in base64. -/
def ofBytes (bs : Bytes) : Json :=
  .str (Base64.encode bs)

/-- A list, item by item. -/
def ofList {α : Type} (write : α → Json) (xs : List α) : Json :=
  .arr (xs.map write)

/-- A value that may be missing. -/
def ofOption {α : Type} (write : α → Json) : Option α → Json
  | none => .null
  | some a => write a

/-- An object of the members that are there. -/
def record (members : List (String × Option Json)) : Json :=
  .obj (members.filterMap fun (key, value) => value.map (key, ·))

end Json

/-- How the values of a type stand in JSON. -/
class JsonForm (α : Type) where
  /-- Reads a value. -/
  read : Decoder α
  /-- Writes a value, if it can be written. -/
  write : α → Option Json

namespace JsonForm

/-- The form of a type all of whose values can be written. -/
abbrev total {α : Type} (read : Decoder α) (write : α → Json) : JsonForm α :=
  ⟨read, fun a => some (write a)⟩

instance : JsonForm Unit := total .unit fun _ => .null
instance : JsonForm Bool := total .bool .bool
instance : JsonForm String := total .string .str
instance : JsonForm UInt8 := total .uint8 fun n => .ofNat n.toNat
instance : JsonForm UInt32 := total .uint32 fun n => .ofNat n.toNat
instance : JsonForm UInt64 := total .uint64 fun n => .ofNat n.toNat
instance : JsonForm Int64 := total (fun json => Int64.ofInt <$> Decoder.int64 json) fun n => .int n.toInt
instance : JsonForm Float := total .float .ofFloat

instance {α : Type} [JsonForm α] : JsonForm (List α) :=
  ⟨.list read, fun xs => Json.arr <$> xs.mapM write⟩

instance {α : Type} [JsonForm α] : JsonForm (Option α) :=
  ⟨.option read, fun
    | none => some .null
    | some a => write a⟩

/-- The form of texts that stand for values. -/
abbrev ofText {α : Type} (parse? : String → Option α) (toText : α → String) : JsonForm α :=
  total (.narrowed .string parse?) fun a => .str (toText a)

/-- The form of a type with a few values, each of them with its own word. -/
abbrev ofWords {α : Type} (words : List (String × α)) (word : α → String) : JsonForm α :=
  total (.word words) fun a => .str (word a)

/-- The form of a type with a few values, each of them with its own number. -/
abbrev ofCodes {α : Type} (values : List α) (code : α → Nat) : JsonForm α :=
  total (.code (values.map fun a => (code a, a))) fun a => .ofNat (code a)

end JsonForm

/-- Values of one type, each under a key of its own. -/
structure Table (α : Type) where
  /-- The keys and values, in order. -/
  entries : List (String × α)
deriving DecidableEq

instance {α : Type} [JsonForm α] : JsonForm (Table α) where
  read json := Table.mk <$> Decoder.table JsonForm.read json
  write table := Json.obj <$> table.entries.mapM fun (key, a) => do return (key, ← JsonForm.write a)

/-- A point in time is a text. -/
instance : JsonForm Time := .ofText Time.parse? Time.toText

/-! ### Records -/

/-- Members of a record of type `ρ` from which a value of type `α` is made. -/
structure Members (ρ α : Type) where
  /-- How the members are read. -/
  fields : Fields α
  /-- What the members of a record are, if they can be written. -/
  write : ρ → Option (List (String × Json))

namespace Members

variable {ρ α β : Type}

instance : Functor (Members ρ) where
  map f members := { members with fields := f <$> members.fields }

instance : Seq (Members ρ) where
  seq members more :=
    { fields := members.fields <*> (more ()).fields
      write := fun r => do return (← members.write r) ++ (← (more ()).write r) }

/-- One member of the given form. -/
def one (key : String) (field : Fields α) (write : ρ → Option Json) : Members ρ α :=
  { fields := field, write := fun r => do return [(key, ← write r)] }

/-- A member that has to be there. -/
def need [JsonForm α] (key : String) (get : ρ → α) : Members ρ α :=
  one key (.required key JsonForm.read) fun r => JsonForm.write (get r)

/-- A member with a value for when it is missing. -/
def orElse [JsonForm α] (key : String) (default : α) (get : ρ → α) : Members ρ α :=
  one key (.withDefault key default JsonForm.read) fun r => JsonForm.write (get r)

/-- A list, which may be missing or `null`. -/
def list [JsonForm α] (key : String) (get : ρ → List α) : Members ρ (List α) :=
  one key (.withDefault key [] (.orNull [] JsonForm.read)) fun r => JsonForm.write (get r)

/-- A member that is left out when there is nothing to write. -/
def skipped (key : String) (field : Fields α) (write : ρ → Option (Option Json)) : Members ρ α :=
  { fields := field
    write := fun r => do
      match ← write r with
      | some json => return [(key, json)]
      | none => return [] }

/-- A value that may be missing, and then is left out. -/
def optional [JsonForm α] (key : String) (get : ρ → Option α) : Members ρ (Option α) :=
  skipped key (.optional key JsonForm.read) fun r =>
    match get r with
    | some a => some <$> JsonForm.write a
    | none => some none

/-- A truth value that may be missing when it is false, and then is left out. -/
def mark (key : String) (get : ρ → Bool) : Members ρ Bool :=
  skipped key (.withDefault key false .bool) fun r =>
    some (if get r then some (.bool true) else none)

/-- Bytes in base64, with `null` for none. -/
def bytes (key : String) (get : ρ → Bytes) : Members ρ Bytes :=
  one key (.required key .base64) fun r => some (.ofBytes (get r))

/-- The form of records with the given members. -/
abbrev form (members : Members ρ ρ) : JsonForm ρ :=
  ⟨members.fields.decoder, fun r => Json.obj <$> members.write r⟩

end Members

end Availability
