import Availability.Json
import Availability.Text.Decimal

/-!
# Reading JSON

A text is read from left to right. Where it stops being JSON, reading ends with a `Json.fault` in
the place of what was expected; the values around it are closed as they are. Half a surrogate pair
does not end it, not even in a key: that is for whoever takes the value.

* `Json.readValue` – one value, and **what follows it** when there was no fault;
* `Json.parse` – the value of a whole text.
-/

namespace Availability.Json

/-- Passes over blanks. -/
def skipBlanks : List Char → List Char
  | c :: cs => if c = ' ' ∨ c = '\n' ∨ c = '\t' ∨ c = '\r' then skipBlanks cs else c :: cs
  | [] => []

/-! ### Strings -/

/-- The value of a hexadecimal digit. -/
def hexValue? (c : Char) : Option Nat :=
  if '0' ≤ c ∧ c ≤ '9' then some (c.toNat - 48)
  else if 'a' ≤ c ∧ c ≤ 'f' then some (c.toNat - 87)
  else if 'A' ≤ c ∧ c ≤ 'F' then some (c.toNat - 55)
  else none

/-- Reads the four digits of an escaped UTF-16 unit. -/
def readUnit? : List Char → Option (Nat × List Char)
  | a :: b :: c :: d :: rest => do
    return (4096 * (← hexValue? a) + 256 * (← hexValue? b) + 16 * (← hexValue? c) + (← hexValue? d),
      rest)
  | _ => none

/-- Reads a second half of a surrogate pair, if the next thing in a string is one. -/
def readLowHalf? : List Char → Option (Nat × List Char)
  | '\\' :: 'u' :: cs => do
    let (unit, rest) ← readUnit? cs
    guard (0xdc00 ≤ unit ∧ unit < 0xe000)
    return (unit, rest)
  | _ => none

/-- The character of an escape with one letter. -/
def unescape? (c : Char) : Option Char :=
  if c = '"' ∨ c = '\\' ∨ c = '/' then some c
  else if c = 'n' then some '\n'
  else if c = 'r' then some '\r'
  else if c = 't' then some '\t'
  else if c = 'b' then some '\x08'
  else if c = 'f' then some '\x0c'
  else none

/-- Reads a string after its opening quote. The characters read so far are given the last one
first; they are `none` after half a surrogate pair. The result is `none` where the string breaks
the rules, and else the string and what follows it. -/
def readString : (fuel : Nat) → Option (List Char) → List Char →
    Option (Option String × List Char)
  | 0, _, _ => none
  | fuel + 1, acc, cs =>
    match cs with
    | [] => none
    | '"' :: rest => some (acc.map fun cs => String.ofList cs.reverse, rest)
    | '\\' :: 'u' :: cs =>
      match readUnit? cs with
      | none => none
      | some (unit, rest) =>
        if 0xd800 ≤ unit ∧ unit < 0xdc00 then
          match readLowHalf? rest with
          | some (low, rest) =>
            let c := Char.ofNat (0x10000 + 1024 * (unit - 0xd800) + (low - 0xdc00))
            readString fuel (acc.map (c :: ·)) rest
          | none => readString fuel none rest
        else if 0xdc00 ≤ unit ∧ unit < 0xe000 then readString fuel none rest
        else readString fuel (acc.map (Char.ofNat unit :: ·)) rest
    | '\\' :: c :: rest =>
      match unescape? c with
      | some c => readString fuel (acc.map (c :: ·)) rest
      | none => none
    | c :: rest => if c.toNat < 32 then none else readString fuel (acc.map (c :: ·)) rest

/-! ### Numbers -/

/-- Takes digits from the front of a text. -/
def takeDigits : List Char → List Nat × List Char
  | c :: cs =>
    match Decimal.digitValue? c with
    | some d =>
      let (digits, rest) := takeDigits cs
      (d :: digits, rest)
    | none => ([], c :: cs)
  | [] => ([], [])

/-- Reads the digits of a whole number, which only starts with zero when it is zero. -/
def readWhole? (cs : List Char) : Option (List Nat × List Char) :=
  match takeDigits cs with
  | ([], _) => none
  | (0 :: _ :: _, _) => none
  | result => some result

/-- Reads a fraction, if there is one. -/
def readFraction? (cs : List Char) : Option (Option (List Nat) × List Char) :=
  match cs with
  | '.' :: cs =>
    match takeDigits cs with
    | ([], _) => none
    | (digits, rest) => some (some digits, rest)
  | cs => some (none, cs)

/-- Reads an exponent, if there is one. -/
def readExponent? (cs : List Char) : Option (Option Int × List Char) :=
  match cs with
  | c :: cs =>
    if c = 'e' ∨ c = 'E' then
      let (negative, cs) := match cs with
        | '-' :: cs => (true, cs)
        | '+' :: cs => (false, cs)
        | cs => (false, cs)
      match takeDigits cs with
      | ([], _) => none
      | (digits, rest) =>
        let n : Int := Decimal.ofDigits digits
        some (some (if negative then -n else n), rest)
    else some (none, c :: cs)
  | [] => some (none, [])

/-- The value of a number. A whole number that does not fit into 64 bits is a double, and so is a
negative zero. -/
def numberValue (negative : Bool) (whole : List Nat) (fraction : Option (List Nat))
    (exponent : Option Int) : Json :=
  let n := Decimal.ofDigits whole
  let double :=
    match Decimal.toFloat? negative whole (fraction.getD []) (exponent.getD 0) with
    | some x => float x
    | none => unreadable
  if fraction.isSome ∨ exponent.isSome then double
  else if !negative ∧ n < UInt64.size then int n
  else if negative ∧ 0 < n ∧ n ≤ UInt64.size / 2 then int (-n)
  else double

/-- Reads a number, whose sign was read before. -/
def readNumber? (negative : Bool) (cs : List Char) : Option (Json × List Char) := do
  let (whole, cs) ← readWhole? cs
  let (fraction, cs) ← readFraction? cs
  let (exponent, cs) ← readExponent? cs
  return (numberValue negative whole fraction exponent, cs)

/-! ### Values -/

/-- What was read, and what follows unless there was a fault. -/
abbrev Read (α : Type) := α × Option (List Char)

/-- Reads the rest of a word. -/
def readWord (word : List Char) (value : Json) (cs : List Char) : Read Json :=
  if word.isPrefixOf cs then (value, some (cs.drop word.length)) else (fault, none)

/-- A member of an object. The key is `none` where it has half a surrogate pair. -/
def member : Option String → Json → String × Json
  | some key, value => (key, value)
  | none, value => ("", nameless value)

mutual

/-- Reads a value. -/
def readValue : (fuel : Nat) → List Char → Read Json
  | 0, _ => (fault, none)
  | fuel + 1, cs =>
    match skipBlanks cs with
    | '"' :: cs =>
      match readString (cs.length + 1) (some []) cs with
      | some (some s, rest) => (str s, some rest)
      | some (none, rest) => (unreadable, some rest)
      | none => (fault, none)
    | '[' :: cs =>
      match skipBlanks cs with
      | ']' :: rest => (arr [], some rest)
      | cs =>
        let (items, rest) := readItems fuel cs
        (arr items, rest)
    | '{' :: cs =>
      match skipBlanks cs with
      | '}' :: rest => (obj [], some rest)
      | cs =>
        let (members, rest) := readMembers fuel cs
        (obj members, rest)
    | 'n' :: cs => readWord ['u', 'l', 'l'] null cs
    | 't' :: cs => readWord ['r', 'u', 'e'] (bool true) cs
    | 'f' :: cs => readWord ['a', 'l', 's', 'e'] (bool false) cs
    | '-' :: cs =>
      match readNumber? true cs with
      | some (value, rest) => (value, some rest)
      | none => (fault, none)
    | cs =>
      match readNumber? false cs with
      | some (value, rest) => (value, some rest)
      | none => (fault, none)

/-- Reads the items of an array up to its closing bracket. -/
def readItems : (fuel : Nat) → List Char → Read (List Json)
  | 0, _ => ([fault], none)
  | fuel + 1, cs =>
    match readValue fuel cs with
    | (item, none) => ([item], none)
    | (item, some rest) =>
      match skipBlanks rest with
      | ',' :: rest =>
        let (items, rest) := readItems fuel rest
        (item :: items, rest)
      | ']' :: rest => ([item], some rest)
      | _ => ([item, fault], none)

/-- Reads the members of an object up to its closing brace. -/
def readMembers : (fuel : Nat) → List Char → Read (List (String × Json))
  | 0, _ => ([("", fault)], none)
  | fuel + 1, cs =>
    match skipBlanks cs with
    | '"' :: cs =>
      match readString (cs.length + 1) (some []) cs with
      | some (key?, rest) =>
        match skipBlanks rest with
        | ':' :: rest =>
          match readValue fuel rest with
          | (value, none) => ([member key? value], none)
          | (value, some rest) =>
            match skipBlanks rest with
            | ',' :: rest =>
              let (members, rest) := readMembers fuel rest
              (member key? value :: members, rest)
            | '}' :: rest => ([member key? value], some rest)
            | _ => ([member key? value, ("", fault)], none)
        | _ => ([member key? fault], none)
      | none => ([("", fault)], none)
    | _ => ([("", fault)], none)

end

/-- The value of a text, and whether nothing but blanks follows it. -/
def parse (text : String) : Json × Bool :=
  let cs := text.toList
  match readValue (2 * cs.length + 2) cs with
  | (value, some rest) => (value, (skipBlanks rest).isEmpty)
  | (value, none) => (value, false)

end Availability.Json
