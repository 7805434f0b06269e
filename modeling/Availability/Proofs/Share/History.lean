import Availability.Proofs.Guarded.Buffer
import Mathlib.Data.List.Induction

/-!
# What a share shows of the calls that built it

A share is built by calls in any order. The length of the sequence may be written before the data or
after it, once or again and again; the reserved index holds the position at which it was first
asked for; data may be offered to a share that is full, or was filled up with zeros before. Whoever
reads the share has nothing but its 512 bytes, and finds its fields without the builder. Yet **all
that was done can be read off**, and the statements here say how.

* `ShareBuffer.Call`, `ShareBuffer.CallEvent` – a call, and a call that was made, with its answer
  and the bytes before and after it;
* `ShareBuffer.history`, `ShareBuffer.finish` – the events of some calls, and the bytes after them;
* `ShareBuffer.CallEvent.Proper` – a call that fails **has changed nothing**, none breaks the run,
  and data is taken from the front;
* `ShareBuilder.Reflects` – what a builder holds of the events until now. A call keeps it
  (`ShareBuilder.Reflects.perform`), and so do all calls (`ShareBuilder.reflects_after`);
* `ShareBuilder.build_after_calls` – a share that is built after any calls shows what was accepted,
  the **last** length and the **first** reserved index.
-/

namespace Availability

namespace Guarded.ShareBuffer

/-! ### Calls and events -/

/-- A call that changes a share while it is built. -/
inductive Call where
  /-- Data is offered. -/
  | add (data : Bytes)
  /-- The share is filled up with zeros. -/
  | pad
  /-- The length of the sequence is written. -/
  | writeSequenceLength (length : UInt32)
  /-- The reserved index is written, unless it has been. -/
  | writeReserved
deriving DecidableEq

/-- What a call gives back. -/
inductive Answer where
  /-- The rest of the data. -/
  | rest (data : Bytes)
  /-- The number of zeros. -/
  | padded (count : Nat)
  /-- Nothing, but that it is done. -/
  | done
  /-- Why the call failed. -/
  | failed (stop : Stop)
deriving DecidableEq

/-- A call that was made. -/
structure CallEvent where
  /-- The share before the call. -/
  before : ShareBuffer
  /-- The call. -/
  call : Call
  /-- What it gave back. -/
  answer : Answer
  /-- The share after the call. -/
  after : ShareBuffer
deriving DecidableEq

/-- What a call does. -/
def Call.action : Call → Action ShareBuffer Answer
  | .add data => return .rest (← ShareBuffer.add data)
  | .pad => return .padded (← ShareBuffer.pad)
  | .writeSequenceLength length => do
    ShareBuffer.writeSequenceLength length
    return .done
  | .writeReserved => do
    ShareBuffer.writeReserved
    return .done

/-- A call is made. -/
def event (b : ShareBuffer) (call : Call) : CallEvent :=
  match call.action.run b with
  | .ok answer after => ⟨b, call, answer, after⟩
  | .error stop after => ⟨b, call, .failed stop, after⟩

/-- What happens when calls are made one after the other. -/
def history : ShareBuffer → List Call → List CallEvent
  | _, [] => []
  | b, call :: calls => b.event call :: (b.event call).after.history calls

/-- The share after some calls. -/
def finish (b : ShareBuffer) (calls : List Call) : ShareBuffer :=
  calls.foldl (fun b call => (b.event call).after) b

theorem finish_concat (b : ShareBuffer) (calls : List Call) (call : Call) :
    b.finish (calls ++ [call]) = ((b.finish calls).event call).after := by
  rw [finish, List.foldl_append, List.foldl_cons, List.foldl_nil, finish]

theorem history_concat (b : ShareBuffer) (calls : List Call) (call : Call) :
    b.history (calls ++ [call]) = b.history calls ++ [(b.finish calls).event call] := by
  induction calls generalizing b with
  | nil => rfl
  | cons first calls ih =>
    rw [List.cons_append, history, ih, history, List.cons_append]
    rfl

/-! ### What was done -/

/-- The part of the offered data that was taken: all but the rest. -/
def CallEvent.accepted (e : CallEvent) : Bytes :=
  match e.call, e.answer with
  | .add data, .rest rest => data.take (data.length - rest.length)
  | _, _ => []

/-- The length that was written. -/
def CallEvent.writtenLength? (e : CallEvent) : Option UInt32 :=
  match e.call, e.answer with
  | .writeSequenceLength length, .done => some length
  | _, _ => none

/-- Where the share had got to when its reserved index was asked for, if there was no failure. -/
def CallEvent.reservedAt? (e : CallEvent) : Option Nat :=
  match e.call, e.answer with
  | .writeReserved, .done => some e.before.raw.length
  | _, _ => none

/-- All the data that was taken. -/
def accepted (events : List CallEvent) : Bytes :=
  events.flatMap CallEvent.accepted

/-- The last length that was written, and 0 if none was. -/
def lastLength (events : List CallEvent) : UInt32 :=
  (events.filterMap CallEvent.writtenLength?).getLastD 0

/-- Where the share had got to when its reserved index was first asked for without a failure. -/
def firstReserved? (events : List CallEvent) : Option Nat :=
  events.findSome? CallEvent.reservedAt?

section Concat

variable (events : List CallEvent) (e : CallEvent)

theorem accepted_concat : accepted (events ++ [e]) = accepted events ++ e.accepted := by
  rw [accepted, List.flatMap_append, List.flatMap_singleton, accepted]

theorem lastLength_concat :
    lastLength (events ++ [e]) = e.writtenLength?.getD (lastLength events) := by
  rw [lastLength, List.filterMap_append, lastLength]
  cases h : e.writtenLength? with
  | none => simp [h]
  | some length => simp [h]

theorem firstReserved?_concat :
    firstReserved? (events ++ [e]) = (firstReserved? events).or e.reservedAt? := by
  rw [firstReserved?, List.findSome?_append, firstReserved?]
  cases h : e.reservedAt? with
  | none => simp [h]
  | some position => simp [h]

end Concat

/-- **How a call is answered**: it leaves the share within its bounds, changes nothing when it
fails, and takes data from the front, as much of it as fits. -/
structure CallEvent.Proper (e : CallEvent) : Prop where
  /-- The share was not overfull. -/
  length_before : e.before.raw.length ≤ 512
  /-- The share is not overfull now. -/
  length_after : e.after.raw.length ≤ 512
  /-- A failure changes nothing. -/
  after_of_failed : ∀ stop, e.answer = .failed stop → e.after = e.before
  /-- Nothing breaks the run. -/
  not_broken : ∀ fault, e.answer ≠ .failed (.broken fault)
  /-- Data is taken from the front, and exactly the rest is given back. -/
  answer_of_add : ∀ data, e.call = .add data → ∃ rest, e.answer = .rest rest ∧
    data = e.accepted ++ rest ∧ e.after.raw = e.before.raw ++ e.accepted ∧
    e.accepted.length = min (512 - e.before.raw.length) data.length

end Guarded.ShareBuffer

/-- What a share shows of the events that led to it. -/
structure Share.Shows (share : Share) (ns : Namespace) (version : UInt8) (isFirst : Bool)
    (events : List Guarded.ShareBuffer.CallEvent) : Prop where
  /-- It has the namespace. -/
  ns_eq : share.ns = ns
  /-- It has the version. -/
  version_eq : share.info.version = version
  /-- It starts a sequence when it was to be the first share of one. -/
  isStart_eq : share.isStart = isFirst
  /-- It holds what was taken, and only zeros after that. -/
  payload_eq : ∃ n,
    share.payload = Guarded.ShareBuffer.accepted events ++ List.replicate n 0
  /-- A first share tells the length that was written last. -/
  sequenceLength?_eq : share.sequenceLength? =
    if isFirst then some (Guarded.ShareBuffer.lastLength events) else none
  /-- A compact share tells the position that was written first, and 0 if none was. -/
  reservedIndex?_eq : share.reservedIndex?.map UInt32.toNat =
    if ns.isCompact then some ((Guarded.ShareBuffer.firstReserved? events).getD 0) else none

namespace ShareBuilder

open Guarded (ShareBuffer Stop)
open Guarded.ShareBuffer (Call Answer CallEvent accepted lastLength firstReserved?)

/-! ### Calls of a builder -/

/-- The answer to a call that may fail, and the parts after it. -/
def settle (b : ShareBuilder) : Except Error ShareBuilder → Answer × ShareBuilder
  | .ok b' => (.done, b')
  | .error error => (.failed (.refused error), b)

/-- What a call does to the parts of a share. -/
def perform (b : ShareBuilder) : Call → Answer × ShareBuilder
  | .add data => (.rest (b.add data).2, (b.add data).1)
  | .pad => (.padded b.pad.2, b.pad.1)
  | .writeSequenceLength length => b.settle (b.writeSequenceLength length)
  | .writeReserved => b.settle b.writeReserved

/-- The parts after some calls. -/
def after (b : ShareBuilder) (calls : List Call) : ShareBuilder :=
  calls.foldl (fun b call => (b.perform call).2) b

/-- A call of a builder, told as if it were one of the bytes. -/
def event (b : ShareBuilder) (call : Call) : CallEvent :=
  ⟨b.buffer, call, (b.perform call).1, (b.perform call).2.buffer⟩

theorem after_concat (b : ShareBuilder) (calls : List Call) (call : Call) :
    b.after (calls ++ [call]) = ((b.after calls).perform call).2 := by
  rw [after, List.foldl_append, List.foldl_cons, List.foldl_nil, after]

section Event

variable (b : ShareBuilder)

/-- A call that may fail has the same answer for the bytes as for the parts. -/
theorem event_settle {call : Call} {x : Guarded.Action ShareBuffer Unit}
    {result : Except Error ShareBuilder} (haction : call.action = do x; return .done)
    (hrun : x.run b.buffer =
      match result with
      | .ok b' => .ok () b'.buffer
      | .error error => .error (.refused error) b.buffer) :
    b.buffer.event call = ⟨b.buffer, call, (b.settle result).1, (b.settle result).2.buffer⟩ := by
  rw [ShareBuffer.event, haction]
  cases result with
  | ok b' =>
    rw [Guarded.bind_of_ok hrun]
    rfl
  | error error =>
    rw [Guarded.bind_of_error hrun]
    rfl

/-- **Calls do the same to the bytes as to the parts.** -/
theorem event_buffer (hreserved : b.reserved.toNat < 512) (call : Call) :
    b.buffer.event call = b.event call := by
  cases call with
  | add data =>
    rw [ShareBuffer.event, Call.action, Guarded.bind_of_ok (b.add_buffer data)]
    rfl
  | pad =>
    rw [ShareBuffer.event, Call.action, Guarded.bind_of_ok b.pad_buffer]
    rfl
  | writeSequenceLength length => exact b.event_settle rfl (b.writeSequenceLength_buffer length)
  | writeReserved => exact b.event_settle rfl (b.writeReserved_buffer hreserved)

theorem length_raw_pos : 0 < b.raw.length := by
  rw [raw_eq, List.length_append, length_front]
  exact Nat.add_pos_left (by decide) _

theorem accepted_event_add (data : Bytes) :
    (b.event (.add data)).accepted = data.take b.available := by
  change data.take (data.length - (data.drop b.available).length) = _
  rw [List.length_drop, List.take_eq_take_iff]
  omega

theorem settle_of_failed {result : Except Error ShareBuilder} {stop : Stop}
    (h : (b.settle result).1 = .failed stop) :
    (b.settle result).2 = b ∧ ∃ error, stop = .refused error := by
  cases result with
  | ok b' => cases h
  | error error =>
    cases h
    exact ⟨rfl, error, rfl⟩

/-- A failure leaves the builder as it was. -/
theorem perform_of_failed {call : Call} {stop : Stop} (h : (b.perform call).1 = .failed stop) :
    (b.perform call).2 = b ∧ ∃ error, stop = .refused error := by
  cases call with
  | add data => cases h
  | pad => cases h
  | writeSequenceLength length => exact b.settle_of_failed h
  | writeReserved => exact b.settle_of_failed h

/-- **Every call is answered properly.** -/
theorem proper_event (call : Call) : (b.event call).Proper where
  length_before := b.length_raw_le
  length_after := (b.perform call).2.length_raw_le
  after_of_failed stop h := congrArg buffer (b.perform_of_failed h).1
  not_broken fault h := by
    obtain ⟨-, error, herror⟩ := b.perform_of_failed h
    cases herror
  answer_of_add data h := by
    obtain rfl : call = .add data := h
    refine ⟨data.drop b.available, rfl, ?_, ?_, ?_⟩
    · rw [accepted_event_add, List.take_append_drop]
    · rw [accepted_event_add]
      exact b.raw_add data
    · rw [accepted_event_add, List.length_take]
      rfl

end Event

section WriteReserved

variable {b : ShareBuilder}

theorem writeReserved_of_not_isCompact (h : ¬b.ns.isCompact = true) :
    b.writeReserved = .error .notCompact := by
  rw [writeReserved, Bool.eq_false_iff.mpr h]
  rfl

variable (h : b.ns.isCompact = true)
include h

/-- An index that is there is kept. -/
theorem writeReserved_of_written (hwritten : b.reserved ≠ 0) : b.writeReserved = .ok b := by
  rw [writeReserved, if_neg (by rw [h]; decide), if_pos hwritten]

theorem writeReserved_of_room (hwritten : b.reserved = 0) (hlt : b.raw.length < 512) :
    b.writeReserved = .ok { b with reserved := .ofNat b.raw.length } := by
  rw [writeReserved, if_neg (by rw [h]; decide), if_neg (not_not_intro hwritten), if_pos hlt]

/-- The position behind a full share is no index. -/
theorem writeReserved_of_full (hwritten : b.reserved = 0) (hlt : ¬b.raw.length < 512) :
    b.writeReserved = .error (.reservedBytes (.ofNat b.raw.length)) := by
  rw [writeReserved, if_neg (by rw [h]; decide), if_neg (not_not_intro hwritten), if_neg hlt]

end WriteReserved

/-! ### All calls -/

/-- What a builder holds of the events until now. -/
structure Reflects (b : ShareBuilder) (ns : Namespace) (version : UInt8) (isFirst : Bool)
    (events : List CallEvent) : Prop where
  /-- The namespace does not change. -/
  ns_eq : b.ns = ns
  /-- Nor does the layout. -/
  isFirst_eq : b.isFirst = isFirst
  /-- Nor does the info byte. -/
  info_eq : b.info = .of version isFirst
  /-- Zeros only come after the data when there is no room for more of it. -/
  payload_eq : ∃ n, b.payload = accepted events ++ List.replicate n 0 ∧ (n = 0 ∨ b.available = 0)
  /-- A length replaces the one before it. -/
  sequenceLength_eq : b.sequenceLength = lastLength events
  /-- A reserved index stays, and 0 means that there is none. -/
  reserved_eq : firstReserved? events = if b.reserved = 0 then none else some b.reserved.toNat
  /-- A reserved index points into the share. -/
  reserved_lt : b.reserved.toNat < 512

theorem reflects_blank (ns : Namespace) (version : UInt8) (isFirst : Bool) :
    (blank ns version isFirst).Reflects ns version isFirst [] where
  ns_eq := rfl
  isFirst_eq := rfl
  info_eq := rfl
  payload_eq := ⟨0, rfl, .inl rfl⟩
  sequenceLength_eq := rfl
  reserved_eq := rfl
  reserved_lt := (show (0 : UInt32).toNat < 512 by decide)

section Step

variable {b : ShareBuilder} {ns : Namespace} {version : UInt8} {isFirst : Bool}
  {events : List CallEvent} (h : b.Reflects ns version isFirst events)
include h

/-- A call that writes a field, or nothing, keeps the data. -/
theorem Reflects.keeps_payload {b' : ShareBuilder} {e : CallEvent} (hns : b'.ns = b.ns)
    (hfirst : b'.isFirst = b.isFirst) (hpayload : b'.payload = b.payload)
    (haccepted : e.accepted = []) :
    ∃ n, b'.payload = accepted (events ++ [e]) ++ List.replicate n 0 ∧
      (n = 0 ∨ b'.available = 0) := by
  have havailable : b'.available = b.available := by
    rw [available, length_raw, available, length_raw, hns, hfirst, hpayload]
  rw [ShareBuffer.accepted_concat, haccepted, List.append_nil, hpayload, havailable]
  exact h.payload_eq

/-- Any other call keeps the length. -/
theorem Reflects.keeps_length {e : CallEvent} (hlength : e.writtenLength? = none) :
    b.sequenceLength = lastLength (events ++ [e]) := by
  rw [ShareBuffer.lastLength_concat, hlength]
  exact h.sequenceLength_eq

/-- Any other call keeps the reserved index. -/
theorem Reflects.keeps_reserved {e : CallEvent} (hreserved : e.reservedAt? = none) :
    firstReserved? (events ++ [e]) = if b.reserved = 0 then none else some b.reserved.toNat := by
  rw [ShareBuffer.firstReserved?_concat, hreserved, Option.or_none]
  exact h.reserved_eq

/-- Data goes to the end of the data before it. There is none when zeros stand there already. -/
theorem Reflects.add (data : Bytes) :
    (b.add data).1.Reflects ns version isFirst (events ++ [b.event (.add data)]) := by
  obtain ⟨n, hpayload, hfull⟩ := h.payload_eq
  refine { h with
    payload_eq := ?_, sequenceLength_eq := h.keeps_length rfl, reserved_eq := h.keeps_reserved rfl }
  rw [ShareBuffer.accepted_concat, accepted_event_add]
  rcases hfull with rfl | hfull
  · refine ⟨0, ?_, .inl rfl⟩
    rw [List.replicate_zero, List.append_nil] at hpayload ⊢
    rw [← hpayload]
    rfl
  · -- zeros were filled in before, so there is no room and nothing is taken
    refine ⟨n, ?_, .inr ?_⟩
    · rw [hfull, List.take_zero, List.append_nil, ← hpayload]
      change b.payload ++ data.take b.available = b.payload
      rw [hfull, List.take_zero, List.append_nil]
    · rw [available, raw_add, hfull, List.take_zero, List.append_nil]
      exact hfull

/-- After filling up there is no room for data. -/
theorem Reflects.pad : b.pad.1.Reflects ns version isFirst (events ++ [b.event .pad]) := by
  obtain ⟨n, hpayload, -⟩ := h.payload_eq
  refine { h with
    payload_eq := ⟨n + b.available, ?_, .inr ?_⟩, sequenceLength_eq := h.keeps_length rfl,
    reserved_eq := h.keeps_reserved rfl }
  · rw [ShareBuffer.accepted_concat, ← List.replicate_append_replicate]
    change b.payload ++ (List.replicate b.available 0).take b.available =
      accepted events ++ [] ++ _
    rw [hpayload, List.take_replicate, min_self, List.append_nil, List.append_assoc]
  · have hle := b.length_raw_le
    rw [ShareBuilder.pad, available, raw_add, List.length_append, List.length_take,
      List.length_replicate, available]
    omega

/-- A call that fails is not reflected. -/
theorem Reflects.failed {call : Call} (stop : Stop) (hanswer : (b.perform call).1 = .failed stop) :
    (b.perform call).2.Reflects ns version isFirst (events ++ [b.event call]) := by
  have hevent : b.event call = ⟨b.buffer, call, .failed stop, (b.perform call).2.buffer⟩ := by
    rw [event, hanswer]
  rw [(b.perform_of_failed hanswer).1, hevent]
  refine { h with
    payload_eq := h.keeps_payload rfl rfl rfl ?_, sequenceLength_eq := h.keeps_length ?_,
    reserved_eq := h.keeps_reserved ?_ }
  all_goals cases call <;> rfl

/-- The length that is written last replaces the one before it. -/
theorem Reflects.writeSequenceLength (length : UInt32) :
    (b.perform (.writeSequenceLength length)).2.Reflects ns version isFirst
      (events ++ [b.event (.writeSequenceLength length)]) := by
  by_cases hfirst : b.isFirst = true
  · have hperform : b.perform (.writeSequenceLength length) =
        (.done, { b with sequenceLength := length }) := by
      rw [perform, ShareBuilder.writeSequenceLength, if_pos hfirst, settle]
    rw [event, hperform]
    refine { h with
      payload_eq := h.keeps_payload rfl rfl rfl rfl, sequenceLength_eq := ?_,
      reserved_eq := h.keeps_reserved rfl }
    rw [ShareBuffer.lastLength_concat]
    rfl
  · refine h.failed (.refused .notFirstShare) ?_
    rw [perform, ShareBuilder.writeSequenceLength, if_neg hfirst, settle]

/-- The reserved index is written when there is none. The header comes before all data, so that the
index is not 0, and stays from then on. -/
theorem Reflects.writeReserved :
    (b.perform .writeReserved).2.Reflects ns version isFirst
      (events ++ [b.event .writeReserved]) := by
  by_cases hcompact : b.ns.isCompact = true
  case neg =>
    refine h.failed (.refused .notCompact) ?_
    rw [perform, writeReserved_of_not_isCompact hcompact, settle]
  by_cases hwritten : b.reserved = 0
  case neg =>
    have hperform : b.perform .writeReserved = (.done, b) := by
      rw [perform, writeReserved_of_written hcompact hwritten, settle]
    rw [event, hperform]
    refine { h with
      payload_eq := h.keeps_payload rfl rfl rfl rfl, sequenceLength_eq := h.keeps_length rfl,
      reserved_eq := ?_ }
    rw [ShareBuffer.firstReserved?_concat, h.reserved_eq, if_neg hwritten]
    rfl
  by_cases hlt : b.raw.length < 512
  case neg =>
    refine h.failed (.refused (.reservedBytes (.ofNat b.raw.length))) ?_
    rw [perform, writeReserved_of_full hcompact hwritten hlt, settle]
  have hperform :
      b.perform .writeReserved = (.done, { b with reserved := .ofNat b.raw.length }) := by
    rw [perform, writeReserved_of_room hcompact hwritten hlt, settle]
  -- a position is at least 30, so that it is never taken for a field that was not written
  have hindex : (UInt32.ofNat b.raw.length).toNat = b.raw.length := by
    rw [UInt32.toNat_ofNat', Nat.mod_eq_of_lt (hlt.trans (by decide))]
  have hne : UInt32.ofNat b.raw.length ≠ 0 := by
    intro hzero
    rw [hzero] at hindex
    exact absurd hindex.symm b.length_raw_pos.ne'
  rw [event, hperform]
  refine { h with
    payload_eq := h.keeps_payload rfl rfl rfl rfl, sequenceLength_eq := h.keeps_length rfl,
    reserved_eq := ?_, reserved_lt := hindex.trans_lt hlt }
  rw [ShareBuffer.firstReserved?_concat, h.reserved_eq, if_pos hwritten, if_neg hne, hindex]
  rfl

/-- **A call keeps what a builder holds of the events.** -/
theorem Reflects.perform (call : Call) :
    (b.perform call).2.Reflects ns version isFirst (events ++ [b.event call]) := by
  cases call with
  | add data => exact h.add data
  | pad => exact h.pad
  | writeSequenceLength length => exact h.writeSequenceLength length
  | writeReserved => exact h.writeReserved

end Step

/-- **A builder reflects what was done**, whatever it was. -/
theorem reflects_after (ns : Namespace) (version : UInt8) (isFirst : Bool) (calls : List Call) :
    (blank ns version isFirst).buffer.finish calls =
        ((blank ns version isFirst).after calls).buffer ∧
      (∀ e ∈ (blank ns version isFirst).buffer.history calls, e.Proper) ∧
      ((blank ns version isFirst).after calls).Reflects ns version isFirst
        ((blank ns version isFirst).buffer.history calls) := by
  -- from the right: the last call is made on what all calls before it have left
  induction calls using List.reverseRecOn with
  | nil => exact ⟨rfl, List.forall_mem_nil _, reflects_blank ns version isFirst⟩
  | append_singleton calls call ih =>
    obtain ⟨hfinish, hproper, hreflects⟩ := ih
    have hevent := event_buffer _ hreflects.reserved_lt call
    rw [ShareBuffer.finish_concat, ShareBuffer.history_concat, after_concat, hfinish, hevent]
    refine ⟨rfl, fun e he => ?_, hreflects.perform call⟩
    rcases List.mem_append.mp he with he | he
    · exact hproper e he
    · rw [List.mem_singleton.mp he]
      exact proper_event _ call

/-- The reserved index is read where it was written. -/
theorem reservedIndex?_build {b : ShareBuilder} (hcompact : b.ns.isCompact = true)
    (hstart : b.info.isStart = b.isFirst) (hreserved : b.reserved.toNat < 512) :
    b.build.reservedIndex? = some b.reserved := by
  have hfield : (b.build.bytes.drop (if b.isFirst then 34 else 30)).take 4 =
      Bytes.ofNat 4 b.reserved.toNat := by
    have hfront := b.length_front_lengthField
    rw [ShareBuffer.reservedStart] at hfront
    change ((b.raw ++ _).drop _).take 4 = _
    rw [raw_eq_of_isCompact b hcompact, ← hfront, List.append_assoc, List.drop_left,
      List.append_assoc, List.take_left' (Bytes.length_ofNat 4 _)]
  rw [Share.reservedIndex?, ns_build, if_pos hcompact, isStart_build, hstart, hfield,
    Share.parseReserved_ofNat hreserved]
  rfl

/-- A share shows what its builder reflects. -/
theorem Reflects.build {b : ShareBuilder} {ns : Namespace} {version : UInt8} {isFirst : Bool}
    {events : List CallEvent} (h : b.Reflects ns version isFirst events)
    (hversion : version ≤ InfoByte.maxVersion) : b.build.Shows ns version isFirst events := by
  have hstart : b.info.isStart = isFirst := by
    rw [h.info_eq, InfoByte.isStart_of]
  have hlayout : b.info.isStart = b.isFirst := hstart.trans h.isFirst_eq.symm
  constructor
  case ns_eq => rw [ns_build, h.ns_eq]
  case version_eq => rw [info_build, h.info_eq, InfoByte.version_of hversion]
  case isStart_eq => rw [isStart_build, hstart]
  case payload_eq =>
    obtain ⟨n, hpayload, -⟩ := h.payload_eq
    refine ⟨n + b.available, ?_⟩
    rw [payload_build b hlayout, hpayload, ← List.replicate_append_replicate, List.append_assoc]
  case sequenceLength?_eq =>
    cases isFirst with
    | true =>
      rw [sequenceLength?_build b hstart h.isFirst_eq, h.sequenceLength_eq]
      rfl
    | false =>
      rw [Share.sequenceLength?, isStart_build, hstart]
      rfl
  case reservedIndex?_eq =>
    by_cases hcompact : b.ns.isCompact = true
    · rw [reservedIndex?_build hcompact hlayout h.reserved_lt, if_pos (h.ns_eq ▸ hcompact),
        h.reserved_eq]
      split
      case isTrue hzero =>
        rw [hzero]
        rfl
      case isFalse => rfl
    · rw [Share.reservedIndex?, ns_build, if_neg hcompact, if_neg (h.ns_eq ▸ hcompact)]
      rfl

/-- **What was done can be read off the share that was built.** A share of any namespace and any
version that can be held is made, and any calls are made after that. The share is never overfull, a
failure changes nothing, and in the end the share can be built. It has the namespace and the
version, holds the data that was accepted, and tells the last length and the first reserved
index. -/
theorem build_after_calls (ns : Namespace) {version : UInt8}
    (hversion : version ≤ InfoByte.maxVersion) (isFirst : Bool) (calls : List Call) :
    ∃ b, make ns version isFirst = .ok b ∧ ShareBuffer.make ns version isFirst = .ok b.buffer ∧
      b.buffer.finish calls = (b.after calls).buffer ∧
      (b.buffer.finish calls).raw.length ≤ 512 ∧
      (∀ e ∈ b.buffer.history calls, e.Proper) ∧
      ShareBuffer.build.run (b.buffer.finish calls) =
        .ok (b.after calls).build (b.after calls).pad.1.buffer ∧
      (b.after calls).build.Shows ns version isFirst (b.buffer.history calls) := by
  have hmake : make ns version isFirst = .ok (blank ns version isFirst) := by
    rw [make, InfoByte.make, if_pos hversion]
    rfl
  have hbuffer : ShareBuffer.make ns version isFirst = .ok (blank ns version isFirst).buffer := by
    rw [make_buffer, hmake]
    rfl
  obtain ⟨hfinish, hproper, hreflects⟩ := reflects_after ns version isFirst calls
  refine ⟨_, hmake, hbuffer, hfinish, ?_, hproper, ?_, hreflects.build hversion⟩
  · rw [hfinish]
    exact length_raw_le _
  · rw [hfinish]
    exact build_buffer _

/-- More data than fits, offered between two lengths. There is no position left for the reserved
index after that. -/
def overfullCalls : List Call :=
  [.writeSequenceLength 9, .add (List.replicate 600 7), .writeReserved, .writeSequenceLength 600]

/-- What is shown by a first share of transactions that was overfull. -/
theorem build_after_overfullCalls :
    ∃ b, make .transaction 127 true = .ok b ∧
      (b.after overfullCalls).build.info.version = 127 ∧
      (b.after overfullCalls).build.payload.take 474 = List.replicate 474 7 ∧
      (b.after overfullCalls).build.sequenceLength? = some 600 ∧
      (b.after overfullCalls).build.reservedIndex?.map UInt32.toNat = some 0 := by
  obtain ⟨b, hmake, -, -, -, -, -, hshows⟩ :=
    build_after_calls .transaction (show (127 : UInt8) ≤ InfoByte.maxVersion by decide) true
      overfullCalls
  obtain rfl : blank .transaction 127 true = b := Except.ok.inj hmake
  have haccepted : accepted ((blank .transaction 127 true).buffer.history overfullCalls) =
      List.replicate 474 7 := by
    decide +kernel
  obtain ⟨n, hpayload⟩ := hshows.payload_eq
  refine ⟨_, hmake, hshows.version_eq, ?_, ?_, ?_⟩
  · rw [hpayload, haccepted]
    exact List.take_left' List.length_replicate
  · rw [hshows.sequenceLength?_eq]
    decide +kernel
  · rw [hshows.reservedIndex?_eq]
    decide +kernel

end ShareBuilder

end Availability
