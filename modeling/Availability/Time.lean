/-!
# Points in time

Blocks and records of the node carry a time in RFC 3339: a date and a time of day to the
nanosecond, with an offset from UTC. Only the years 1 to 9999 of UTC are accepted.

* `Time` – **seconds since the start of the year 1** in UTC, and nanoseconds;
* `Time.parse?`, `Time.toText` – the text form; what is written is always in UTC and has no
  trailing zeros in the fraction;
* `Time.unixSeconds` – the same point counted from 1970.
-/

namespace Availability

/-- A point in time of the years 1 to 9999. -/
structure Time where
  /-- Whole seconds since 0001-01-01T00:00:00Z. -/
  seconds : Nat
  /-- Nanoseconds within the second. -/
  nanos : Nat
  /-- The year 9999 is the last one. -/
  seconds_lt : seconds < 315537897600 := by decide
  /-- A second has a thousand million nanoseconds. -/
  nanos_lt : nanos < 1000000000 := by decide
deriving DecidableEq

namespace Time

instance : Inhabited Time := ⟨{ seconds := 0, nanos := 0 }⟩

theorem ext {a b : Time} (hseconds : a.seconds = b.seconds) (hnanos : a.nanos = b.nanos) :
    a = b := by
  cases a; cases b; simp_all

/-- Earlier seconds come first, then earlier nanoseconds. -/
instance : LT Time :=
  ⟨fun a b => a.seconds < b.seconds ∨ (a.seconds = b.seconds ∧ a.nanos < b.nanos)⟩

instance (a b : Time) : Decidable (a < b) :=
  inferInstanceAs (Decidable (a.seconds < b.seconds ∨ (a.seconds = b.seconds ∧ a.nanos < b.nanos)))

/-! ### The calendar -/

/-- Whether the year has 366 days. -/
def isLeap (year : Int) : Bool :=
  year % 4 = 0 && (year % 100 ≠ 0 || year % 400 = 0)

/-- The lengths of the months. -/
def monthLengths (year : Int) : List Nat :=
  [31, if isLeap year then 29 else 28, 31, 30, 31, 30, 31, 31, 30, 31, 30, 31]

/-- The days between the start of the year 1 and the start of a year. -/
def daysBeforeYear (year : Int) : Int :=
  let y := year - 1
  365 * y + y / 4 - y / 100 + y / 400

/-- The days between the start of the year 1 and a date, if the date exists. -/
def dayNumber? (year : Int) (month day : Nat) : Option Int := do
  guard (1 ≤ month ∧ 1 ≤ day)
  let length ← (monthLengths year)[month - 1]?
  guard (day ≤ length)
  let daysBefore : Nat := ((monthLengths year).take (month - 1)).foldr (· + ·) 0
  pure (daysBeforeYear year + daysBefore + (day - 1 : Nat))

/-- The year that a day falls into, and its number in the year, from 0. Whole cycles of 400, 100
and 4 years are taken first; the last day of a cycle belongs to its last year. -/
def yearOfDay (day : Nat) : Nat × Nat :=
  let n₄₀₀ := day / 146097
  let d := day % 146097
  let n₁₀₀ := min 3 (d / 36524)
  let d := d - 36524 * n₁₀₀
  let n₄ := d / 1461
  let d := d % 1461
  let n₁ := min 3 (d / 365)
  (400 * n₄₀₀ + 100 * n₁₀₀ + 4 * n₄ + n₁ + 1, d - 365 * n₁)

/-- The month and the day of the month, both from 1, given the lengths of the months that are
left and the month that the first of them is. -/
def monthOfDay : List Nat → (month day : Nat) → Nat × Nat
  | length :: rest, month, day =>
    if day < length then (month, day + 1) else monthOfDay rest (month + 1) (day - length)
  | [], month, day => (month, day + 1)

/-! ### Text -/

/-- The digits of a number, filled up with zeros to a width. -/
def padded (width n : Nat) : List Char :=
  let digits := Nat.toDigits 10 n
  List.replicate (width - digits.length) '0' ++ digits

/-- The RFC 3339 form in UTC. -/
def toText (t : Time) : String :=
  let (year, dayOfYear) := yearOfDay (t.seconds / 86400)
  let (month, day) := monthOfDay (monthLengths year) 1 dayOfYear
  let s := t.seconds % 86400
  let fraction :=
    if t.nanos = 0 then [] else '.' :: ((padded 9 t.nanos).reverse.dropWhile (· = '0')).reverse
  String.ofList (padded 4 year ++ '-' :: padded 2 month ++ '-' :: padded 2 day ++
    'T' :: padded 2 (s / 3600) ++ ':' :: padded 2 (s / 60 % 60) ++ ':' :: padded 2 (s % 60) ++
    fraction ++ ['Z'])

/-- Reads exactly `n` digits, appending them to a number read before. -/
def readDigits? : (n : Nat) → Nat → List Char → Option (Nat × List Char)
  | 0, value, rest => some (value, rest)
  | n + 1, value, c :: rest =>
    if c.isDigit then readDigits? n (10 * value + (c.toNat - '0'.toNat)) rest else none
  | _, _, [] => none

/-- Reads the given character. -/
def expect? (expected : Char) : List Char → Option (List Char)
  | c :: rest => if c = expected then some rest else none
  | [] => none

/-- Reads what stands between the date and the time of day. Usually this is a `T`, but any other
character of ASCII may be chosen. -/
def separator? : List Char → Option (List Char)
  | c :: rest => if c.toNat < 128 then some rest else none
  | [] => none

/-- Reads the fraction of a second, if there is one, in nanoseconds; further digits are dropped. -/
def readFraction? (cs : List Char) : Option (Nat × List Char) :=
  match cs with
  | '.' :: rest =>
    let digits := rest.takeWhile Char.isDigit
    let nine := (digits ++ List.replicate 9 '0').take 9
    if digits.isEmpty then none
    else some (nine.foldl (fun n c => 10 * n + (c.toNat - '0'.toNat)) 0, rest.drop digits.length)
  | _ => some (0, cs)

/-- Reads the offset from UTC in seconds. -/
def readOffset? (cs : List Char) : Option (Int × List Char) :=
  match cs with
  | 'Z' :: rest | 'z' :: rest => some (0, rest)
  | sign :: rest => do
    guard (sign = '+' ∨ sign = '-')
    let (hours, rest) ← readDigits? 2 0 rest
    let (minutes, rest) ← readDigits? 2 0 (← expect? ':' rest)
    guard (hours ≤ 23 ∧ minutes ≤ 59)
    let offset : Int := 3600 * hours + 60 * minutes
    pure (if sign = '-' then -offset else offset, rest)
  | [] => none

/-- Whether a second of UTC is the last one of a month: only there a minute may have 61 seconds. -/
def endsMonth (seconds : Nat) : Bool :=
  let (year, dayOfYear) := yearOfDay (seconds / 86400)
  let (month, day) := monthOfDay (monthLengths year) 1 dayOfYear
  seconds % 86400 = 86399 && (monthLengths year)[month - 1]? = some day

/-- Reads a point in time. A leap second counts as the last nanosecond before it. -/
def parse? (text : String) : Option Time := do
  let (year, cs) ← readDigits? 4 0 text.toList
  let (month, cs) ← readDigits? 2 0 (← expect? '-' cs)
  let (day, cs) ← readDigits? 2 0 (← expect? '-' cs)
  let (hour, cs) ← readDigits? 2 0 (← separator? cs)
  let (minute, cs) ← readDigits? 2 0 (← expect? ':' cs)
  let (second, cs) ← readDigits? 2 0 (← expect? ':' cs)
  let (nanos, cs) ← readFraction? cs
  let (offset, cs) ← readOffset? cs
  guard (cs.isEmpty ∧ hour ≤ 23 ∧ minute ≤ 59 ∧ second ≤ 60)
  let (leap, second, nanos) := if second = 60 then (true, 59, 999999999) else (false, second, nanos)
  let days ← dayNumber? year month day
  let total := 86400 * days + 3600 * hour + 60 * minute + second - offset
  guard (0 ≤ total)
  guard (!leap || endsMonth total.toNat)
  -- the years 1 to 9999 of UTC; nine digits are always less than a second
  if h : total.toNat < 315537897600 ∧ nanos < 1000000000 then
    some { seconds := total.toNat, nanos, seconds_lt := h.1, nanos_lt := h.2 }
  else none

/-- Seconds since 1970-01-01T00:00:00Z. -/
def unixSeconds (t : Time) : Int :=
  t.seconds - 62135596800

end Time

end Availability
