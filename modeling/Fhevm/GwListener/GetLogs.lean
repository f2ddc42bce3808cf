import Fhevm.Foundation.System
import Fhevm.GwListener.TenantKeys

/-!
# Logs of the gateway

The gateway listener asks for the logs of one range of blocks after another. It keeps the last block
of a range in the database, and starts over from there after a failure, or from where its catch-up is.

## Main definitions

* `GwState` — where the listener is.
* `handleLogs` — what it does with the events of a range.
* `gwListener` — the loop, with its failures.
-/

namespace Fhevm.GwListener

open Foundation Gateway

structure GwConfig where
  hostChainId : ℕ
  getLogsBlockBatchSize : ℕ
  catchupKmsGenerationFromBlock : Option ℤ

/-- A range of blocks whose events have all been handled, with the tenants before that. -/
structure HandledRange where
  fromBlock : ℕ
  toBlock : ℕ
  logs : List Delivery
  tenants : Tenants

structure GwState where
  tenants : Tenants
  /-- The row of `gw_listener_last_block`. -/
  lastBlockNum : Option ℕ
  catchupKmsGenerationFrom : Option ℤ
  /-- `last_processed_block_num`, inside of `run_get_logs`. -/
  lastProcessedBlockNum : Option (Option ℕ)
  /-- The first head that has been observed, and the ranges so far; the listener reads neither. -/
  firstHead : Option ℕ
  handled : List HandledRange

section Loop

variable (K : KeyLibrary) (conf : GwConfig) (chain : ℕ → List KMSGenerationEvent)

/-- What the buckets have at each event of a range, and whether its transaction fails. -/
abbrev Answers := ℕ → BucketKeys × Bool

/-- The events of blocks. -/
def events (fromBlock toBlock : ℕ) : List KMSGenerationEvent :=
  (List.range' fromBlock (toBlock + 1 - fromBlock)).flatMap chain

def getLogs (fromBlock toBlock : ℕ) (answers : Answers) : List Delivery :=
  (events chain fromBlock toBlock).zipIdx.map fun e =>
    ⟨e.1, (answers e.2).1, (answers e.2).2⟩

/-- The rows after the events, and whether all of them have been handled. An event is ignored if the
digest of a key does not match. -/
def handleLogs : List Delivery → Tenants → Tenants × Bool
  | [], tenants => (tenants, true)
  | d :: logs, tenants =>
    match handleEvent K conf.hostChainId d tenants with
    | .ok tenants => handleLogs logs tenants
    | .error .digestMismatch => handleLogs logs tenants
    | .error _ => (tenants, false)

def GwState.observe (s : GwState) (currentBlock : Option ℕ) : GwState :=
  { s with firstHead := s.firstHead.or currentBlock }

/-- The position of the catch-up, clipped to a block. A negative one counts from the head. -/
def catchupPosition (catchup : ℤ) (currentBlock : Option ℕ) : Option ℕ :=
  if 0 ≤ catchup then some catchup.toNat
  else currentBlock.map fun current => ((current : ℤ) + catchup).toNat

/-- The beginning of `run_get_logs`, which fails if the head is needed and cannot be had. -/
def GwState.enter (s : GwState) (currentBlock : Option ℕ) : GwState :=
  match s.catchupKmsGenerationFrom with
  | none => { s with lastProcessedBlockNum := some s.lastBlockNum }
  | some catchup =>
    let s := if 0 ≤ catchup then s else s.observe currentBlock
    { s with lastProcessedBlockNum := (catchupPosition catchup currentBlock).map some }

/-- The end of the range that starts with a block. -/
def GwConfig.toBlock (fromBlock currentBlock : ℕ) : ℕ :=
  min (fromBlock + (conf.getLogsBlockBatchSize - 1)) currentBlock

/-- A range has been handled, and the database is updated or fails. -/
def GwState.finish (s : GwState) (fromBlock currentBlock : ℕ) (logs : List Delivery)
    (updated : Bool) : GwState :=
  let toBlock := conf.toBlock fromBlock currentBlock
  { s with
    tenants := (handleLogs K conf logs s.tenants).1
    catchupKmsGenerationFrom := s.catchupKmsGenerationFrom.bind fun _ =>
      if toBlock = currentBlock then none else some (toBlock + 1)
    handled := ⟨fromBlock, toBlock, logs, s.tenants⟩ :: s.handled
    lastBlockNum := if updated then some toBlock else s.lastBlockNum
    lastProcessedBlockNum := if updated then some (some toBlock) else none }

/-- A failure in the middle of a range keeps what has been done until then. -/
def GwState.range (s : GwState) (fromBlock currentBlock : ℕ) (answers : Option Answers)
    (updated : Bool) : GwState :=
  match answers with
  | none => { s with lastProcessedBlockNum := none }
  | some answers =>
    let logs := getLogs chain fromBlock (conf.toBlock fromBlock currentBlock) answers
    if (handleLogs K conf logs s.tenants).2 then s.finish K conf fromBlock currentBlock logs updated
    else
      { s with
        tenants := (handleLogs K conf logs s.tenants).1
        lastProcessedBlockNum := none }

/-- One round of the loop. -/
def GwState.tick (s : GwState) (last : Option ℕ) (currentBlock : ℕ) (answers : Option Answers)
    (updated : Bool) : GwState :=
  let s := s.observe (some currentBlock)
  match last with
  | some last =>
    if last ≥ currentBlock then s else s.range K conf chain (last + 1) currentBlock answers updated
  | none => s.range K conf chain currentBlock currentBlock answers updated

inductive GwInput
  /-- The current block is asked for if the catch-up is negative. -/
  | enter (currentBlock : Option ℕ)
  /-- The logs of a range cannot be had if there are no answers. -/
  | tick (currentBlock : ℕ) (answers : Option Answers) (updated : Bool)
  /-- The current block cannot be had. -/
  | fail

def GwState.step (s : GwState) : GwInput → Option GwState
  | .enter currentBlock => do
    guard (s.lastProcessedBlockNum = none)
    return s.enter currentBlock
  | .tick currentBlock answers updated => do
    let last ← s.lastProcessedBlockNum
    return s.tick K conf chain last currentBlock answers updated
  | .fail => some { s with lastProcessedBlockNum := none }

/-- From the start of the process, with the block that has been stored. -/
def gwListener (setup : Tenants) (stored : Option ℕ) : System GwState GwInput where
  init := {
    tenants := setup
    lastBlockNum := stored
    catchupKmsGenerationFrom := conf.catchupKmsGenerationFromBlock
    lastProcessedBlockNum := none
    firstHead := none
    handled := [] }
  step := GwState.step K conf chain

end Loop

end Fhevm.GwListener
