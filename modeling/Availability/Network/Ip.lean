import Availability.Text.Decimal
import Availability.Text.Hex

/-!
# Internet addresses

* `Ipv4` – four numbers below 256, separated by dots;
* `Ipv6` – eight numbers below 65536 in hexadecimal digits, separated by colons. The first of the
  **longest** runs of zeros is left out when it has more than one.
-/

namespace Availability

/-- Cuts characters at a separator. -/
def splitOnChar (separator : Char) : List Char → List (List Char)
  | [] => [[]]
  | c :: cs =>
    if c = separator then [] :: splitOnChar separator cs
    else
      match splitOnChar separator cs with
      | part :: parts => (c :: part) :: parts
      | [] => [[c]]

/-! ### Version 4 -/

/-- An address of version 4. -/
structure Ipv4 where
  /-- The four numbers. -/
  numbers : List Nat
deriving DecidableEq

namespace Ipv4

/-- Reads a number below 256, without zeros at the front. -/
def number? (cs : List Char) : Option Nat := do
  let n ← Decimal.digits? cs
  guard (n < 256 ∧ cs.length ≤ 3 ∧ (cs.length = 1 ∨ cs.head? ≠ some '0'))
  return n

/-- Reads an address. -/
def parse? (cs : List Char) : Option Ipv4 := do
  let numbers ← (splitOnChar '.' cs).mapM number?
  guard (numbers.length = 4)
  return ⟨numbers⟩

/-- The text of an address. -/
def toText (ip : Ipv4) : String :=
  ".".intercalate (ip.numbers.map toString)

end Ipv4

/-! ### Version 6 -/

/-- An address of version 6. -/
structure Ipv6 where
  /-- The eight numbers. -/
  numbers : List Nat
deriving DecidableEq

namespace Ipv6

/-- Reads a number of one to four hexadecimal digits. -/
def number? (cs : List Char) : Option Nat := do
  guard (1 ≤ cs.length ∧ cs.length ≤ 4)
  return (← cs.mapM Hex.digitValue?).foldl (fun n d => 16 * n + d) 0

/-- Reads numbers that are separated by colons. The last two may be written as an address of
version 4. -/
def numbers? (allowIpv4 : Bool) (cs : List Char) : Option (List Nat) :=
  if cs.isEmpty then some [] else go (splitOnChar ':' cs)
where
  /-- Reads the parts between the colons. -/
  go : List (List Char) → Option (List Nat)
    | [] => some []
    | [part] =>
      match number? part with
      | some n => some [n]
      | none => do
        guard allowIpv4
        match ← Ipv4.parse? part with
        | ⟨[a, b, c, d]⟩ => some [256 * a + b, 256 * c + d]
        | _ => none
    | part :: parts => do return (← number? part) :: (← go parts)

/-- Cuts characters at the first pair of colons. -/
def splitGap : List Char → Option (List Char × List Char)
  | ':' :: ':' :: rest => some ([], rest)
  | c :: rest => (splitGap rest).map fun (before, after) => (c :: before, after)
  | [] => none

/-- Reads an address. -/
def parse? (cs : List Char) : Option Ipv6 :=
  match splitGap cs with
  | none => do
    let numbers ← numbers? true cs
    guard (numbers.length = 8)
    return ⟨numbers⟩
  | some (before, after) => do
    let head ← numbers? false before
    let tail ← numbers? true after
    guard (head.length + tail.length ≤ 7)
    return ⟨head ++ List.replicate (8 - head.length - tail.length) 0 ++ tail⟩

/-- The number of zeros at the front. -/
def zeros (numbers : List Nat) : Nat :=
  (numbers.takeWhile (· = 0)).length

/-- The start and the length of the first of the longest runs of zeros. -/
def longestGap (numbers : List Nat) : Nat × Nat :=
  (List.range numbers.length).foldl
    (fun best start =>
      let length := zeros (numbers.drop start)
      if best.2 < length then (start, length) else best)
    (0, 0)

/-- The texts of numbers, separated by colons. -/
def join (numbers : List Nat) : String :=
  ":".intercalate (numbers.map fun n => String.ofList (Nat.toDigits 16 n))

/-- The text of an address. An address of version 4 that is mapped into version 6 shows it. -/
def toText (ip : Ipv6) : String :=
  match ip.numbers with
  | [0, 0, 0, 0, 0, 65535, a, b] =>
    "::ffff:" ++ Ipv4.toText ⟨[a / 256, a % 256, b / 256, b % 256]⟩
  | numbers =>
    let (start, length) := longestGap numbers
    if 1 < length then join (numbers.take start) ++ "::" ++ join (numbers.drop (start + length))
    else join numbers

end Ipv6

end Availability
