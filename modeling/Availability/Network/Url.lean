import Availability.Network.Ip
import Availability.Text.Percent

/-!
# Addresses of nodes

Whoever dials a node needs its address to name a host, and where it names a port, a valid one. The
client itself does not look: it leaves this to the `dial` that it is given.

* `Url.authority` – the part of an address that names the host and the port;
* `Url.isHost` – whether a text **names a host**;
* `Url.isReachable` – whether an address can be dialled.

The forms are those of the web: slashes may be missing or turned, blanks at the end and line breaks
are passed over, and a host that ends in a number is an address of version 4 in up to four parts.
Hosts are taken as they are written, without the mapping that names in other scripts go through.
-/

namespace Availability.Url

/-! ### Hosts -/

/-- Reads digits of a base of at most 16. -/
def digits? (base : Nat) (cs : List Char) : Option Nat := do
  let ds ← cs.mapM Hex.digitValue?
  guard (ds.all (· < base))
  return ds.foldl (fun n d => base * n + d) 0

/-- Reads a number, which is hexadecimal after `0x` and octal after any other zero. -/
def number? : List Char → Option Nat
  | [] => none
  | '0' :: 'x' :: cs | '0' :: 'X' :: cs => digits? 16 cs
  | '0' :: c :: cs => digits? 8 (c :: cs)
  | cs => digits? 10 cs

/-- The parts of a host between its points. A point at the end has nothing after it. -/
def labels (host : List Char) : List (List Char) :=
  match (splitOnChar '.' host).reverse with
  | [] :: label :: rest => (label :: rest).reverse
  | _ => splitOnChar '.' host

/-- Whether the parts are an address of version 4: all but the last are bytes, and the last one
stands for the bytes that are left. -/
def isIpv4 (parts : List (List Char)) : Bool :=
  match parts.mapM number? with
  | some numbers =>
    numbers.length ≤ 4 && numbers.dropLast.all (· < 256) &&
      numbers.getLast?.any (· < 1 <<< (8 * (5 - numbers.length)))
  | none => false

/-- Whether the last part of a host is a number. -/
def endsInNumber (parts : List (List Char)) : Bool :=
  parts.getLast?.any fun label =>
    !label.isEmpty && (label.all Char.isDigit || (number? label).isSome)

/-- Characters that no host has, apart from blanks and control characters. -/
def forbidden : List Char :=
  "%#/:<>?@[\\]^|".toList

/-- Whether a text is the name or the address of a host. -/
def isHost (host : List Char) : Bool :=
  match host with
  | '[' :: rest => rest.getLast? = some ']' && (Ipv6.parse? rest.dropLast).isSome
  | _ =>
    match Percent.decode? (String.ofList host) with
    | some name =>
      let cs := name.toList
      let isPlain (c : Char) : Bool := 32 < c.toNat && c.toNat ≠ 127 && !forbidden.contains c
      !cs.isEmpty && cs.all isPlain && (!endsInNumber (labels cs) || isIpv4 (labels cs))
    | none => false

/-! ### Addresses -/

/-- What follows the protocol of an address, as far as it counts. -/
def afterScheme (url : String) : List Char :=
  let cs := (url.toList.dropWhile (· ≠ ':')).drop 1
  let cs := (cs.reverse.dropWhile (·.toNat ≤ 32)).reverse
  cs.filter fun c => c ≠ '\t' && c ≠ '\n' && c ≠ '\r'

/-- What names the host and the port: it stands after any slashes and ends before the path. Who asks
may be named before it, up to the last at sign. -/
def authority (url : String) : List Char :=
  let isSlash (c : Char) : Bool := c = '/' || c = '\\'
  let cs := (afterScheme url).dropWhile isSlash
  let cs := cs.takeWhile fun c => !isSlash c && c ≠ '?' && c ≠ '#'
  (cs.reverse.takeWhile (· ≠ '@')).reverse

/-- Cuts the host off at the first colon outside of brackets. -/
def splitPort (isInside : Bool) : List Char → List Char × List Char
  | [] => ([], [])
  | c :: cs =>
    if c = ':' && !isInside then ([], c :: cs)
    else
      let (host, port) := splitPort (c = '[' || (isInside && c ≠ ']')) cs
      (c :: host, port)

/-- Whether what follows the host is a port, which may be left out. -/
def isPort (port : List Char) : Bool :=
  (digits? 10 (port.drop 1)).any (· < UInt16.size)

/-- Whether an address can be dialled. -/
def isReachable (url : String) : Bool :=
  let (host, port) := splitPort false (authority url)
  isHost host && isPort port

end Availability.Url
