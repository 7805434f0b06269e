import Availability.Share.Builder

/-!
# Splitting data into shares

Data is written as a sequence of shares: the first one holds the length of the data, and the last
one is filled up with zeros. Sequences may be followed by padding of the same namespace.

* `Share.split` – the shares of one sequence;
* `ShareSplitter` – the shares written so far;
* `ShareSplitter.write`, `ShareSplitter.pad` – append a sequence or padding, or **nothing**.
-/

namespace Availability

namespace Share

/-- The shares of a sequence after the first one. -/
def splitRest (ns : Namespace) (version : UInt8) (data : Bytes) : List Share :=
  if _ : data = [] then []
  else
    let added := (ShareBuilder.blank ns version false).add data
    added.1.build :: splitRest ns version added.2
termination_by data.length
decreasing_by
  exact ShareBuilder.length_add_lt (ShareBuilder.available_blank_pos _ _ _) ‹_›

/-- The shares of a sequence. -/
def split (ns : Namespace) (version : UInt8) (data : Bytes) : List Share :=
  let first := { ShareBuilder.blank ns version true with sequenceLength := .ofNat data.length }
  let added := first.add data
  added.1.build :: splitRest ns version added.2

end Share

/-- The shares written so far. -/
structure ShareSplitter where
  /-- The shares, in order. -/
  shares : List Share

namespace ShareSplitter

/-- Nothing written yet. -/
def empty : ShareSplitter := ⟨[]⟩

/-- Appends the shares of a sequence. -/
def write (s : ShareSplitter) (ns : Namespace) (version : UInt8) (data : Bytes) :
    Except Error ShareSplitter :=
  if version ∉ Share.supportedVersions then .error (.shareVersion version)
  else if UInt32.size ≤ data.length then .error (.sequenceLength data.length)
  else .ok ⟨s.shares ++ Share.split ns version data⟩

/-- Appends padding of the namespace of the last share. -/
def pad (s : ShareSplitter) (count : Nat) : Except Error ShareSplitter :=
  if count = 0 then .ok s
  else
    match s.shares.getLast? with
    | some last => .ok ⟨s.shares ++ List.replicate count (Share.padding last.ns)⟩
    | none => .error .noNamespaceToPad

end ShareSplitter

end Availability
