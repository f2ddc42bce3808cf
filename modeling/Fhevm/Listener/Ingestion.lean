import Fhevm.Listener.TfheEvents

/-!
# Recording the blocks of a host chain

The host listener records a block in one transaction: the permissions that its logs give, its
computations, and last the block itself. A row that is there already is kept.

## Main definitions

* `BlockLogs` — a block with its logs.
* `ListenerDb` — the tables that the listener writes.
* `dbInsertBlockNoRetry` — the transaction of a block.
* `computationRows`, `allowedHandleRows`, `pbsComputationRows` — the rows that it inserts.
-/

namespace Fhevm.Listener

open Foundation Host Worker

/-! ## Blocks -/

/-- What a log decodes to. The executor and the access control list have further events, which
leave no rows. -/
inductive LogData
  | acl (event : ACLEvent)
  | tfhe (event : TfheEvent)
  | other
deriving DecidableEq, Repr

structure HostLog where
  address : Address
  data : LogData
  transactionHash : Handle
deriving DecidableEq, Repr

structure BlockSummary where
  number : ℕ
  hash : Handle
  parentHash : Handle
deriving DecidableEq, Repr

structure BlockLogs where
  logs : List HostLog
  summary : BlockSummary
deriving DecidableEq, Repr

/-! ## Tables -/

inductive AllowEvents
  | allowedAccount | allowedForDecryption
deriving DecidableEq, Repr

/-- A row of `allowed_handles`. The address is empty where everybody may decrypt. -/
structure AllowedHandle where
  tenantId : ℤ
  handle : Handle
  accountAddress : Option Address
  eventType : AllowEvents
  transactionId : Handle
deriving DecidableEq, Repr

def AllowedHandle.key (a : AllowedHandle) : ℤ × Handle × Option Address :=
  (a.tenantId, a.handle, a.accountAddress)

/-- A row of `pbs_computations`. -/
structure PbsComputation where
  tenantId : ℤ
  handle : Handle
  transactionId : Handle
deriving DecidableEq, Repr

def PbsComputation.key (p : PbsComputation) : ℤ × Handle := (p.tenantId, p.handle)

/-- A row of `host_chain_blocks_valid`. -/
structure BlockValid where
  chainId : ℤ
  blockHash : Handle
  blockNumber : ℤ
deriving DecidableEq, Repr

def BlockValid.key (b : BlockValid) : ℤ × Handle := (b.chainId, b.blockHash)

@[ext]
structure ListenerDb where
  computations : Table Computation.key
  allowedHandles : Table AllowedHandle.key
  pbsComputations : Table PbsComputation.key
  hostChainBlocksValid : Table BlockValid.key

def ListenerDb.empty : ListenerDb := ⟨⟨[], .nil⟩, ⟨[], .nil⟩, ⟨[], .nil⟩, ⟨[], .nil⟩⟩

/-- What a listener knows of its tenant. A debug build may be given no addresses, and then reads
the logs of all contracts. -/
structure ListenerConfig where
  tenantId : ℤ
  chainId : ℤ
  aclContractAddress : Option Address
  tfheContractAddress : Option Address

variable (K : ListenerConfig)

/-! ## Permissions -/

def insertAllowedHandle (db : ListenerDb) (handle : Handle) (accountAddress : Option Address)
    (eventType : AllowEvents) (transactionId : Handle) : ListenerDb :=
  { db with
    allowedHandles := db.allowedHandles.insert
      ⟨K.tenantId, handle, accountAddress, eventType, transactionId⟩ }

def insertPbsComputations (db : ListenerDb) (handles : List Handle) (transactionId : Handle) :
    ListenerDb :=
  { db with
    pbsComputations := handles.foldl
      (fun t handle => t.insert ⟨K.tenantId, handle, transactionId⟩) db.pbsComputations }

def handleAclEvent (db : ListenerDb) (event : ACLEvent) (transactionHash : Handle) : ListenerDb :=
  match event with
  | .allowed _ account handle =>
    let db := insertAllowedHandle K db (wordBytes handle) (some account) .allowedAccount
      transactionHash
    insertPbsComputations K db [wordBytes handle] transactionHash
  | .allowedForDecryption _ handlesList =>
    let handles := handlesList.map wordBytes
    let db := handles.foldl (fun db handle =>
      insertAllowedHandle K db handle none .allowedForDecryption transactionHash) db
    insertPbsComputations K db handles transactionHash
  | _ => db

def aclResultHandles : ACLEvent → List Bytes32
  | .allowed _ _ handle => [handle]
  | .allowedForDecryption _ handlesList => handlesList
  | _ => []

def tfheResultHandle : TfheEvent → Option Bytes32
  | .binary _ _ _ _ _ result | .unary _ _ _ result | .cast _ _ _ result
  | .trivialEncrypt _ _ _ result | .fheIfThenElse _ _ _ _ result | .fheRand _ _ _ result
  | .fheRandBounded _ _ _ _ result => some result
  | .verifyInput _ _ _ _ _ _ => none

/-! ## The transaction of a block -/

/-- The event of a log, if it is one of the access control list. -/
def aclEvent (log : HostLog) : Option ACLEvent :=
  if K.aclContractAddress = none ∨ some log.address = K.aclContractAddress then
    match log.data with
    | .acl event => some event
    | _ => none
  else none

/-- The event of a log, if it is one of the executor. -/
def tfheEvent (log : HostLog) : Option TfheEvent :=
  if K.tfheContractAddress = none ∨ some log.address = K.tfheContractAddress then
    match log.data with
    | .tfhe event => some event
    | _ => none
  else none

/-- What the first loop over the logs collects. -/
structure LogPass where
  db : ListenerDb
  isAllowed : List Bytes32
  tfheEventLog : List LogTfhe

def LogPass.step (s : LogPass) (log : HostLog) : LogPass :=
  match aclEvent K log with
  | some event =>
    { s with
      db := handleAclEvent K s.db event log.transactionHash
      isAllowed := s.isAllowed ++ aclResultHandles event }
  | none =>
    match tfheEvent K log with
    | some event =>
      -- the flag is set in the second loop
      { s with tfheEventLog := s.tfheEventLog ++ [⟨event, log.transactionHash, false⟩] }
    | none => s

theorem lawfulBEq_bytes32 : LawfulBEq Bytes32 := inferInstance

attribute [local instance] lawfulBEq_bytes32

/-- The event with the flag: a log of the block allows its result. -/
def markAllowed (isAllowed : List Bytes32) (log : LogTfhe) : LogTfhe :=
  { log with
    isAllowed :=
      match tfheResultHandle log.event with
      | some resultHandle => decide (resultHandle ∈ isAllowed)
      | none => false }

def recordTfheEvent (now : ℕ) (db : ListenerDb) (log : LogTfhe) : ListenerDb :=
  match insertTfheEvent K.tenantId now log with
  | some c => { db with computations := db.computations.insert c }
  | none => db

def markBlockAsValid (db : ListenerDb) (summary : BlockSummary) : ListenerDb :=
  { db with
    hostChainBlocksValid :=
      db.hostChainBlocksValid.insert ⟨K.chainId, summary.hash, summary.number⟩ }

/-- The transaction, when no statement fails; when one does, nothing changes. -/
def dbInsertBlockNoRetry (now : ℕ) (db : ListenerDb) (block : BlockLogs) : ListenerDb :=
  let pass := block.logs.foldl (LogPass.step K) ⟨db, [], []⟩
  let tfheEventLog := pass.tfheEventLog.map (markAllowed pass.isAllowed)
  let db := tfheEventLog.foldl (recordTfheEvent K now) pass.db
  markBlockAsValid K db block.summary

/-! ## The rows of a block -/

/-- The events of the access control list in a block, with their transactions. -/
def aclEvents (block : BlockLogs) : List (ACLEvent × Handle) :=
  block.logs.filterMap fun log => (aclEvent K log).map fun event => (event, log.transactionHash)

/-- The handles that a block allows. -/
def allowedIn (block : BlockLogs) : List Bytes32 :=
  (aclEvents K block).flatMap fun e => aclResultHandles e.1

/-- The events of the executor in a block. A log is read as one of the access control list first. -/
def tfheEvents (block : BlockLogs) : List LogTfhe :=
  block.logs.filterMap fun log =>
    if (aclEvent K log).isSome then none
    else (tfheEvent K log).map fun event => ⟨event, log.transactionHash, false⟩

def computationRows (now : ℕ) (block : BlockLogs) : List Worker.Computation :=
  ((tfheEvents K block).map (markAllowed (allowedIn K block))).filterMap
    (insertTfheEvent K.tenantId now)

def eventAllowedHandles (event : ACLEvent) (tx : Handle) : List AllowedHandle :=
  match event with
  | .allowed _ account handle =>
    [⟨K.tenantId, wordBytes handle, some account, .allowedAccount, tx⟩]
  | .allowedForDecryption _ handlesList =>
    handlesList.map fun handle => ⟨K.tenantId, wordBytes handle, none, .allowedForDecryption, tx⟩
  | _ => []

def eventPbsComputations (event : ACLEvent) (tx : Handle) : List PbsComputation :=
  (aclResultHandles event).map fun handle => ⟨K.tenantId, wordBytes handle, tx⟩

def allowedHandleRows (block : BlockLogs) : List AllowedHandle :=
  (aclEvents K block).flatMap fun e => eventAllowedHandles K e.1 e.2

def pbsComputationRows (block : BlockLogs) : List PbsComputation :=
  (aclEvents K block).flatMap fun e => eventPbsComputations K e.1 e.2

variable {K}

/-! ### The transaction inserts these rows -/

theorem foldl_insertAllowedHandle (db : ListenerDb) (handles : List Bytes32) (tx : Handle) :
    (handles.map wordBytes).foldl (fun db handle =>
        insertAllowedHandle K db handle none .allowedForDecryption tx) db =
      { db with
        allowedHandles := db.allowedHandles.insertAll (handles.map fun handle =>
          ⟨K.tenantId, wordBytes handle, none, .allowedForDecryption, tx⟩) } := by
  induction handles generalizing db with
  | nil => rfl
  | cons handle handles ih => exact ih _

theorem handleAclEvent_eq (db : ListenerDb) (event : ACLEvent) (tx : Handle) :
    handleAclEvent K db event tx =
      { db with
        allowedHandles := db.allowedHandles.insertAll (eventAllowedHandles K event tx)
        pbsComputations := db.pbsComputations.insertAll (eventPbsComputations K event tx) } := by
  cases event with
  | allowedForDecryption caller handlesList =>
    simp only [handleAclEvent, foldl_insertAllowedHandle]
    simp only [insertPbsComputations, aclResultHandles, eventAllowedHandles, eventPbsComputations,
      Table.insertAll, List.foldl_map]
  | _ => rfl

/-- The first loop inserts the permissions and collects the rest. -/
theorem foldl_step (s : LogPass) (logs : List HostLog) (summary : BlockSummary) :
    logs.foldl (LogPass.step K) s =
      { db := { s.db with
          allowedHandles := s.db.allowedHandles.insertAll (allowedHandleRows K ⟨logs, summary⟩)
          pbsComputations := s.db.pbsComputations.insertAll (pbsComputationRows K ⟨logs, summary⟩) }
        isAllowed := s.isAllowed ++ allowedIn K ⟨logs, summary⟩
        tfheEventLog := s.tfheEventLog ++ tfheEvents K ⟨logs, summary⟩ } := by
  induction logs generalizing s with
  | nil => simp [allowedHandleRows, pbsComputationRows, allowedIn, tfheEvents, aclEvents]
  | cons log logs ih =>
    rw [List.foldl_cons, ih, LogPass.step]
    cases hacl : aclEvent K log with
    | some event =>
      simp [allowedHandleRows, pbsComputationRows, allowedIn, tfheEvents, aclEvents, hacl,
        handleAclEvent_eq, Table.insertAll_append]
    | none =>
      cases htfhe : tfheEvent K log with
      | some event =>
        simp [allowedHandleRows, pbsComputationRows, allowedIn, tfheEvents, aclEvents, hacl, htfhe]
      | none =>
        simp [allowedHandleRows, pbsComputationRows, allowedIn, tfheEvents, aclEvents, hacl, htfhe]

theorem foldl_recordTfheEvent (now : ℕ) (db : ListenerDb) (logs : List LogTfhe) :
    logs.foldl (recordTfheEvent K now) db =
      { db with
        computations :=
          db.computations.insertAll (logs.filterMap (insertTfheEvent K.tenantId now)) } := by
  induction logs generalizing db with
  | nil => rfl
  | cons log logs ih =>
    rw [List.foldl_cons, ih, recordTfheEvent]
    cases hrow : insertTfheEvent K.tenantId now log with
    | none => simp [hrow]
    | some c => simp [hrow, Table.insertAll]

/-- What the transaction of a block does. -/
theorem dbInsertBlockNoRetry_eq (now : ℕ) (db : ListenerDb) (block : BlockLogs) :
    dbInsertBlockNoRetry K now db block =
      { computations := db.computations.insertAll (computationRows K now block)
        allowedHandles := db.allowedHandles.insertAll (allowedHandleRows K block)
        pbsComputations := db.pbsComputations.insertAll (pbsComputationRows K block)
        hostChainBlocksValid := db.hostChainBlocksValid.insert
          ⟨K.chainId, block.summary.hash, block.summary.number⟩ } := by
  simp only [dbInsertBlockNoRetry, foldl_step _ _ block.summary, foldl_recordTfheEvent,
    markBlockAsValid, List.nil_append, computationRows]

end Fhevm.Listener
