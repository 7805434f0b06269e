import Availability.Json.Form

/-!
# Progress of a node

* `SamplingStats` – how far the node has sampled the chain;
* `SyncState` – how far the node has fetched headers;
* `HeaderHash.parse?` – hashes of headers are **upper case** hexadecimal digits, of which those at
  the end may be missing.
-/

namespace Availability

/-! ### Hashes -/

namespace HeaderHash

/-- Reads a hash of up to 64 upper case digits, two for each byte. Bytes without digits are zero,
but no digits at all stand for the empty hash. -/
def parse? (text : String) : Option HeaderHash :=
  if text.isEmpty then some none
  else some <$> (Hex.decodeUpper? text >>= Digest.ofFront?)

/-- Reads a hash, with `null` for the empty hash. -/
def orNull : Decoder HeaderHash :=
  .orNull none (.narrowed .string parse?)

/-- A member with a hash, which has to be there but may be `null`. -/
def member {ρ : Type} (key : String) (get : ρ → HeaderHash) : Members ρ HeaderHash :=
  .one key (.required key orNull) fun r => some (.str (toText (get r)))

end HeaderHash

/-! ### Sampling -/

/-- A part of the chain that is being sampled. -/
structure SamplingWorker where
  /-- Why it is sampled. -/
  job : String
  /-- The height that is being sampled. -/
  current : UInt64
  /-- The first height. -/
  first : UInt64
  /-- The last height. -/
  last : UInt64
deriving DecidableEq

instance : JsonForm SamplingWorker := Members.form <|
  SamplingWorker.mk <$> .need "job_type" SamplingWorker.job
    <*> .need "current" SamplingWorker.current <*> .need "from" SamplingWorker.first
    <*> .need "to" SamplingWorker.last

/-- How far a node has sampled the chain. -/
structure SamplingStats where
  /-- The height up to which all blocks are sampled. -/
  sampledHead : UInt64
  /-- The height up to which older blocks are handed out for sampling. -/
  catchUpHead : UInt64
  /-- The height of the network. -/
  networkHead : UInt64
  /-- What is being sampled. -/
  workers : List SamplingWorker
  /-- How many blocks may be sampled at once. -/
  concurrency : UInt64
  /-- Whether all older blocks are sampled. -/
  isCaughtUp : Bool
  /-- Whether the node samples at all. -/
  isRunning : Bool
deriving DecidableEq

namespace SamplingStats

/-- The number of heights that are still to be handed out. -/
def remaining (stats : SamplingStats) : Nat :=
  stats.networkHead.toNat - stats.catchUpHead.toNat

instance : JsonForm SamplingStats := Members.form <|
  SamplingStats.mk <$> .need "head_of_sampled_chain" SamplingStats.sampledHead
    <*> .need "head_of_catchup" SamplingStats.catchUpHead
    <*> .need "network_head_height" SamplingStats.networkHead
    <*> .list "workers" SamplingStats.workers <*> .need "concurrency" SamplingStats.concurrency
    <*> .need "catch_up_done" SamplingStats.isCaughtUp
    <*> .need "is_running" SamplingStats.isRunning

end SamplingStats

/-! ### Headers -/

/-- How far a node has fetched headers. -/
structure SyncState where
  /-- The number of the run. -/
  id : UInt64
  /-- The height that is reached. -/
  height : UInt64
  /-- The first height of the run. -/
  firstHeight : UInt64
  /-- The last height of the run. -/
  lastHeight : UInt64
  /-- The hash of the first header. -/
  firstHash : HeaderHash
  /-- The hash of the last header. -/
  lastHash : HeaderHash
  /-- When the run began. -/
  start : Time
  /-- When the run ended. -/
  stop : Time
  /-- Why the run failed, if it did. -/
  error : Option String
deriving DecidableEq

namespace SyncState

/-- Whether the run has reached its last height. -/
def isFinished (state : SyncState) : Bool :=
  state.lastHeight ≤ state.height

instance : JsonForm SyncState := Members.form <|
  SyncState.mk <$> .need "id" SyncState.id <*> .need "height" SyncState.height
    <*> .need "from_height" SyncState.firstHeight <*> .need "to_height" SyncState.lastHeight
    <*> HeaderHash.member "from_hash" SyncState.firstHash
    <*> HeaderHash.member "to_hash" SyncState.lastHash
    <*> .need "start" SyncState.start <*> .need "end" SyncState.stop
    <*> .optional "error" SyncState.error

end SyncState

end Availability
