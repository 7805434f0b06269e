import Availability.Bytes
import Availability.Text.Shortest

/-!
# JSON values

* `Json` – a value as it stands in a text: members keep their **order and repetitions**, and whole
  numbers are told apart from all others;
* `Json.render` – the text of a value, without blanks;
* `Json.sorted` – the value with the members of each object in the order of their keys.

Where a text is not JSON, its value ends in a `fault`. A reader that takes the parts of a value in
their order in the text meets what comes before the fault first.
-/

namespace Availability

/-- A value as it stands in a text. -/
inductive Json where
  /-- The word `null`. -/
  | null
  /-- One of the words `true` and `false`. -/
  | bool (b : Bool)
  /-- A number written without fraction and exponent, of at most 64 bits. -/
  | int (n : Int)
  /-- Any other number. -/
  | float (x : Float)
  /-- A string. -/
  | str (s : String)
  /-- An array. -/
  | arr (items : List Json)
  /-- An object. -/
  | obj (members : List (String × Json))
  /-- A string with half a surrogate pair, or a number beyond the doubles: it has no value. -/
  | unreadable
  /-- The value of a member whose key has half a surrogate pair, so that it is no key of a record. -/
  | nameless (value : Json)
  /-- The place where the text stops being JSON. -/
  | fault
deriving Inhabited

namespace Json

/-! ### Texts -/

/-- A character as it is written in a string. -/
def escape (c : Char) : List Char :=
  if c = '"' then ['\\', '"']
  else if c = '\\' then ['\\', '\\']
  else if c = '\n' then ['\\', 'n']
  else if c = '\r' then ['\\', 'r']
  else if c = '\t' then ['\\', 't']
  else if c = '\x08' then ['\\', 'b']
  else if c = '\x0c' then ['\\', 'f']
  else if c.toNat < 32 then
    ['\\', 'u', '0', '0', Nat.digitChar (c.toNat / 16), Nat.digitChar (c.toNat % 16)]
  else [c]

/-- A string in quotes. -/
def quote (s : String) : List Char :=
  '"' :: (s.toList.flatMap escape ++ ['"'])

/-- A finite double, with a point or an exponent. The point stands among the digits where the number
lies between 10⁻⁵ and 10¹⁶, and behind the first digit elsewhere. -/
def number (x : Float) : List Char :=
  let sign := if x.toBits < 0x8000000000000000 then [] else ['-']
  if x == 0 then sign ++ ['0', '.', '0']
  else
    let (n, exponent) := Shortest.decimal x
    let digits := Nat.toDigits 10 n
    let point := digits.length + exponent
    let zeros (count : Int) := List.replicate count.toNat '0'
    sign ++
      if 0 ≤ exponent ∧ point ≤ 16 then digits ++ zeros exponent ++ ['.', '0']
      else if 0 < point ∧ point ≤ 16 then
        digits.take point.toNat ++ '.' :: digits.drop point.toNat
      else if -5 < point ∧ point ≤ 0 then ['0', '.'] ++ zeros (-point) ++ digits
      else
        let fraction := digits.drop 1
        digits.take 1 ++ (if fraction.isEmpty then [] else '.' :: fraction) ++
          'e' :: (toString (point - 1)).toList

mutual

/-- The characters of a value, in front of those that follow it. -/
def renderOnto : Json → List Char → List Char
  | null, tail => "null".toList ++ tail
  | bool b, tail => (if b then "true" else "false").toList ++ tail
  | int n, tail => (toString n).toList ++ tail
  | float x, tail => number x ++ tail
  | str s, tail => quote s ++ tail
  | arr items, tail => '[' :: renderItems items (']' :: tail)
  | obj members, tail => '{' :: renderMembers members ('}' :: tail)
  | unreadable, tail => tail
  | nameless value, tail => value.renderOnto tail
  | fault, tail => tail

/-- The characters of the items of an array. -/
def renderItems : List Json → List Char → List Char
  | [], tail => tail
  | [item], tail => item.renderOnto tail
  | item :: items, tail => item.renderOnto (',' :: renderItems items tail)

/-- The characters of the members of an object. -/
def renderMembers : List (String × Json) → List Char → List Char
  | [], tail => tail
  | [(key, value)], tail => quote key ++ ':' :: value.renderOnto tail
  | (key, value) :: members, tail =>
    quote key ++ ':' :: value.renderOnto (',' :: renderMembers members tail)

end

/-- The text of a value. -/
def render (value : Json) : String :=
  String.ofList (value.renderOnto [])

/-! ### Order of members -/

/-- Inserts a member before the first one with a larger key. -/
def insertMember (key : String) (value : Json) : List (String × Json) → List (String × Json)
  | [] => [(key, value)]
  | (k, v) :: members =>
    if key < k then (key, value) :: (k, v) :: members else (k, v) :: insertMember key value members

mutual

/-- The value with the members of each object sorted by their keys. -/
def sorted : Json → Json
  | arr items => arr (sortedItems items)
  | obj members => obj (sortedMembers members)
  | value => value

/-- The items of an array, each of them sorted. -/
def sortedItems : List Json → List Json
  | [] => []
  | item :: items => item.sorted :: sortedItems items

/-- The members of an object in the order of their keys. -/
def sortedMembers : List (String × Json) → List (String × Json)
  | [] => []
  | (key, value) :: members => insertMember key value.sorted (sortedMembers members)

end

/-! ### Faults -/

mutual

/-- Whether a record passes over the value: the text is JSON to its end, and the key can be read. -/
def isWhole : Json → Bool
  | arr items => areWhole items
  | obj members => membersWhole members
  | nameless _ => false
  | fault => false
  | _ => true

/-- Whether the texts of all items are JSON. -/
def areWhole : List Json → Bool
  | [] => true
  | item :: items => item.isWhole && areWhole items

/-- Whether the texts of all members are JSON. Nobody reads the keys of a value that is passed
over. -/
def membersWhole : List (String × Json) → Bool
  | [] => true
  | (_, nameless value) :: members => value.isWhole && membersWhole members
  | (_, value) :: members => value.isWhole && membersWhole members

end

end Json

end Availability
