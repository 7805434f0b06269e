import Availability.Error
import Availability.Json.Reader

/-!
# Records in JSON

How the values of the library are read from JSON. The parts of a value are taken in their order in
the text, so that the first thing wrong is what counts.

* `DecodeError` – a value of the wrong **shape**, or one of the right shape that is **refused**;
* `Decoder` – reads a value of some type;
* `Fields` – the fields of a record; records are objects whose unknown members are passed over, or
  arrays of their fields in order;
* `Decoder.ofText` – reads a value from a whole text.
-/

namespace Availability

/-- Why a JSON value is not read. -/
inductive DecodeError where
  /-- The value is not JSON or not of the right form. -/
  | shape
  /-- The value has the right form, but is refused. -/
  | refused (cause : Error)
deriving DecidableEq

/-- Reads a value of a type from JSON. -/
abbrev Decoder (α : Type) := Json → Except DecodeError α

namespace Decoder

variable {α β : Type}

/-- The value if there is one. -/
def ofOption : Option α → Except DecodeError α
  | some a => .ok a
  | none => .error .shape

/-- Reads a value that is computed from another one. -/
def thenTry (decode : Decoder α) (f : α → Except DecodeError β) : Decoder β :=
  fun json => decode json >>= f

/-- Reads a value that is made from another one, if it can be. -/
def narrowed (decode : Decoder α) (f : α → Option β) : Decoder β :=
  thenTry decode fun a => ofOption (f a)

/-- Reads a value that is made from another one, unless it is refused. -/
def refined (decode : Decoder α) (f : α → Except Error β) : Decoder β :=
  thenTry decode fun a => (f a).mapError .refused

/-- Reads `null`. -/
def unit : Decoder Unit
  | .null => .ok ()
  | _ => .error .shape

/-- Reads a truth value. -/
def bool : Decoder Bool
  | .bool b => .ok b
  | _ => .error .shape

/-- Reads a string. -/
def string : Decoder String
  | .str s => .ok s
  | _ => .error .shape

/-- Reads a whole number from `low` up to `high`. -/
def intIn (low high : Int) : Decoder Int
  | .int n => if low ≤ n ∧ n ≤ high then .ok n else .error .shape
  | _ => .error .shape

/-- Reads an unsigned number of the given number of bits. -/
def nat (bits : Nat) : Decoder Nat :=
  fun json => Int.toNat <$> intIn 0 (1 <<< bits - 1 : Nat) json

/-- Reads an unsigned 8-bit number. -/
def uint8 : Decoder UInt8 := fun json => .ofNat <$> nat 8 json

/-- Reads an unsigned 32-bit number. -/
def uint32 : Decoder UInt32 := fun json => .ofNat <$> nat 32 json

/-- Reads an unsigned 64-bit number. -/
def uint64 : Decoder UInt64 := fun json => .ofNat <$> nat 64 json

/-- Reads a signed 64-bit number. -/
def int64 : Decoder Int := intIn Int64.minValue.toInt Int64.maxValue.toInt

/-- The double next to a whole number of at most 64 bits. -/
def floatOfInt (n : Int) : Float :=
  if n < 0 then -(UInt64.ofNat n.natAbs).toFloat else (UInt64.ofNat n.toNat).toFloat

/-- Reads any number as a double. -/
def float : Decoder Float
  | .int n => .ok (floatOfInt n)
  | .float x => .ok x
  | _ => .error .shape

/-- Reads an array item by item. -/
def list (decode : Decoder α) : Decoder (List α)
  | .arr items => items.mapM decode
  | _ => .error .shape

/-- Reads a value that may be `null`. -/
def option (decode : Decoder α) : Decoder (Option α)
  | .null => .ok none
  | json => some <$> decode json

/-- Reads a value, with `null` for the given one. -/
def orNull (default : α) (decode : Decoder α) : Decoder α
  | .null => .ok default
  | json => decode json

/-- Reads an object as a table. Of a repeated key, the last value counts. -/
def table (decode : Decoder α) : Decoder (List (String × α))
  | .obj members => do
    let pairs ← members.mapM fun (key, json) => do return (key, ← decode json)
    return pairs.foldl (fun table pair => table.filter (·.1 ≠ pair.1) ++ [pair]) []
  | _ => .error .shape

/-- Reads one of some words, as a string or as an object with the word as its only key. -/
def word (words : List (String × α)) : Decoder α
  | .str s => ofOption (words.lookup s)
  | .obj [(s, .null)] => ofOption (words.lookup s)
  | _ => .error .shape

/-- Reads one of some numbers. -/
def code (codes : List (Nat × α)) : Decoder α :=
  fun json => do ofOption (codes.lookup (← nat 8 json))

/-- Reads the base64 text of some bytes, padded or not, or `null` for none. -/
def base64 : Decoder Bytes :=
  orNull [] (narrowed string Base64.decodeLoose?)

/-- Reads a list of base64 texts, or `null` for none. -/
def base64List : Decoder (List Bytes) :=
  orNull [] (list (narrowed string Base64.decodeLoose?))

/-- Reads an unsigned number of the given number of bits from a text. -/
def natText (bits : Nat) : Decoder Nat :=
  narrowed string (Decimal.nat? (1 <<< bits))

/-- Reads a signed number of the given number of bits from a text. -/
def intText (bits : Nat) : Decoder Int :=
  narrowed string (Decimal.int? (1 <<< (bits - 1) : Nat))

/-- Reads a point in time. -/
def time : Decoder Time :=
  narrowed string Time.parse?

/-- Reads a value from a whole text. -/
def ofText (decode : Decoder α) (text : String) : Except DecodeError α := do
  let (json, isEnd) := Json.parse text
  let value ← decode json
  if isEnd then .ok value else .error .shape

end Decoder

/-! ### Records -/

/-- One field of a record. -/
structure FieldSpec where
  /-- The keys that the field may have. The first one names it. -/
  keys : List String
  /-- Checks that a value can be read as the field. -/
  check : Json → Except DecodeError Unit

/-- Fields that a value of some type is made of. -/
structure Fields (α : Type) where
  /-- The fields, in order. -/
  specs : List FieldSpec
  /-- Makes the value, given whether the record is an object and the value of each field. -/
  build : (isObject : Bool) → (String → Option Json) → Except DecodeError α

namespace Fields

variable {α β : Type}

instance : Functor Fields where
  map f fields :=
    { specs := fields.specs, build := fun isObject get => f <$> fields.build isObject get }

instance : Pure Fields where
  pure a := { specs := [], build := fun _ _ => .ok a }

instance : Seq Fields where
  seq fields more :=
    { specs := fields.specs ++ (more ()).specs
      build := fun isObject get => do
        let f ← fields.build isObject get
        f <$> (more ()).build isObject get }

/-- A field with other keys beside its own. When it is missing, it has the value given for an
object or for an array, or makes the record unreadable. -/
def general (keys : List String) (decode : Decoder α) (inObject inArray : Option α) : Fields α where
  specs := [{ keys, check := fun json => Functor.mapConst () (decode json) }]
  build := fun isObject get =>
    match get (keys.headD "") with
    | some json => decode json
    | none => Decoder.ofOption (if isObject then inObject else inArray)

/-- A field that has to be there. -/
def required (key : String) (decode : Decoder α) : Fields α :=
  general [key] decode none none

/-- A field with a value for when it is missing. -/
def withDefault (key : String) (default : α) (decode : Decoder α) : Fields α :=
  general [key] decode (some default) (some default)

/-- A field that may be missing or `null`. -/
def optional (key : String) (decode : Decoder α) : Fields (Option α) :=
  withDefault key none (Decoder.option decode)

/-- A field that may be missing in an object, or `null`. -/
def nullable (key : String) (decode : Decoder α) : Fields (Option α) :=
  general [key] (Decoder.option decode) (some none) none

/-- The field that has a key. -/
def find? (specs : List FieldSpec) (key : String) : Option FieldSpec :=
  specs.find? fun spec => key ∈ spec.keys

/-- Goes through the members of an object: each field at most once, each of the right form. Gives
the value of each field that is there. -/
def scan (specs : List FieldSpec) (found : List (String × Json)) :
    List (String × Json) → Except DecodeError (List (String × Json))
  | [] => .ok found
  | (key, json) :: members =>
    match find? specs key with
    | none => if json.isWhole then scan specs found members else .error .shape
    | some spec => do
      let name := spec.keys.headD ""
      if (found.lookup name).isSome then throw .shape
      spec.check json
      scan specs ((name, json) :: found) members

/-- Goes through the items of an array, which are the fields in order. -/
def align : List FieldSpec → List Json → Except DecodeError (List (String × Json))
  | _, [] => .ok []
  | [], _ :: _ => .error .shape
  | spec :: specs, json :: items => do
    spec.check json
    return (spec.keys.headD "", json) :: (← align specs items)

/-- Reads a record. -/
def decoder (fields : Fields α) : Decoder α
  | .obj members => do
    let found ← scan fields.specs [] members
    fields.build true (found.lookup ·)
  | .arr items => do
    let found ← align fields.specs items
    fields.build false (found.lookup ·)
  | _ => .error .shape

end Fields

end Availability
