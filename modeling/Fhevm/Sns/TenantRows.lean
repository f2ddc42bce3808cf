import Fhevm.Sns.NotLost
import Fhevm.TransactionSender.Batches

/-!
# Rows of several tenants

Workers that squash noise, uploads and the transaction sender work on rows of all tenants. A worker
has the keys of one tenant, and the sender reads the key id of a tenant when it prepares a
transaction. The columns for the transactions are kept apart from the digests here.

## Main definitions

* `Production` — what a worker has computed, and the key of which tenant it has used.
* `tenantsWorker` — the system of workers, uploads and the sender.
* `TenantsState.doneFor` — the rows that a step is done for.
* `OwnTenant` — a step that pairs and selects no rows of different tenants.
-/

namespace Fhevm.Sns

open Foundation Gateway
open TransactionSender (Bookkeeping tryIntoArray)

/-! ## The state -/

/-- A key of a tenant: the tenant and the id of the key. -/
abbrev TenantKey := ℤ × Bytes

/-- What the noise of a ciphertext has been squashed to, and with which key. -/
structure Production where
  key : TenantKey
  ct64 : Bytes
  bytes : Bytes
deriving DecidableEq, Repr

/-- The columns of `ciphertext_digest` for its transaction. -/
structure TxnColumns where
  txnIsSent : Bool := false
  txnHash : Option Bytes32 := none
  txnBlockNumber : Option ℤ := none
  txnLimitedRetriesCount : ℕ := 0
  txnUnlimitedRetriesCount : ℕ := 0
deriving DecidableEq, Repr

/-- A call that has been sent for a row. -/
structure TenantCall where
  tenantId : ℤ
  handle : Bytes
  args : AddCiphertextMaterial
deriving DecidableEq, Repr

/-- The columns of a row that is not there are those of a new one. -/
structure TenantsState where
  sns : SnsState
  txns : ℤ × Bytes → TxnColumns
  /-- The keys that have been activated, newest first. -/
  keyIds : List TenantKey
  /-- The rows that the sender has selected. -/
  selected : List CiphertextDigest
  /-- The rows whose transactions are under way. -/
  sending : List (ℤ × Bytes)
  calls : List TenantCall
  /-- What has been computed so far; no process reads it. -/
  productions : List Production

inductive TenantsInput
  | activateKey (key : TenantKey)
  /-- A step of a worker that has the key, or of the uploader. -/
  | sns (key : TenantKey) (i : SnsInput)
  | selectRow (key : ℤ × Bytes)
  | addCiphertextMaterial (row : ℕ)
  | skipRow (row : ℕ)
  | endTransaction (transaction : ℕ) (books : Bookkeeping)

/-! ## Steps -/

/-- What a worker computes in a step. -/
def SnsState.production (s : SnsState) (key : TenantKey) : SnsInput → Option Production
  | .computeTask batch task enableCompression squashed _ => do
    let tasks ← s.batches[batch]?
    let item ← tasks[task]?
    let computed ← computeTask enableCompression squashed item
    return ⟨key, item.ct64Compressed, computed.ct128.bytes⟩
  | _ => none

/-- `query_tenant_info` -/
def TenantsState.tenantKeyId (s : TenantsState) (tenantId : ℤ) : Option Bytes :=
  (s.keyIds.find? fun key => key.1 = tenantId).map Prod.snd

def TenantsState.prepare (s : TenantsState) (row : CiphertextDigest) : Option TenantCall := do
  let keyId ← s.tenantKeyId row.tenantId
  let ciphertext ← row.ciphertext
  let ciphertext128 ← row.ciphertext128
  let handle ← tryIntoArray row.handle
  return ⟨row.tenantId, row.handle, handle, BigEndian.decode keyId, ciphertext, ciphertext128⟩

/-- What is written to the columns of a row. -/
def TxnColumns.write (columns : TxnColumns) : Bookkeeping → TxnColumns
  | .sent txnHash txnBlockNumber => { columns with txnIsSent := true, txnHash, txnBlockNumber }
  | .limitedRetry => { columns with txnLimitedRetriesCount := columns.txnLimitedRetriesCount + 1 }
  | .unlimitedRetry =>
    { columns with txnUnlimitedRetriesCount := columns.txnUnlimitedRetriesCount + 1 }

/-- The statements of the sender select the rows with a handle. -/
def TenantsState.write (s : TenantsState) (handle : Bytes) (books : Bookkeeping) :
    ℤ × Bytes → TxnColumns := fun key =>
  if key.2 = handle ∧ (s.sns.db.ciphertextDigest.get? key).isSome then (s.txns key).write books
  else s.txns key

section System

variable (keccak256 : Bytes → Bytes32) (maxRetries : ℕ)

theorem lawfulBEq_key : LawfulBEq (ℤ × Bytes) := inferInstance

attribute [local instance] lawfulBEq_key

def TenantsState.step (s : TenantsState) : TenantsInput → Option TenantsState
  | .activateKey key => some { s with keyIds := key :: s.keyIds }
  | .sns key i => do
    let sns ← s.sns.step keccak256 i
    -- a worker has read its key from the row of its tenant
    guard ((s.sns.production key i).isSome → key ∈ s.keyIds)
    return { s with sns, productions := (s.sns.production key i).toList ++ s.productions }
  | .selectRow key => do
    let row ← s.sns.db.ciphertextDigest.get? key
    guard ((s.txns key).txnIsSent = false ∧ row.ciphertext ≠ none ∧ row.ciphertext128 ≠ none ∧
      (s.txns key).txnLimitedRetriesCount < maxRetries)
    return { s with selected := row :: s.selected }
  | .addCiphertextMaterial i => do
    let row ← s.selected[i]?
    let call ← s.prepare row
    return { s with
      selected := s.selected.eraseIdx i
      sending := row.key :: s.sending
      calls := call :: s.calls }
  | .skipRow i => some { s with selected := s.selected.eraseIdx i }
  | .endTransaction i books => do
    let key ← s.sending[i]?
    return { s with sending := s.sending.eraseIdx i, txns := s.write key.2 books }

def tenantsWorker : System TenantsState TenantsInput where
  init := {
    sns := (snsWorker keccak256).init
    txns := fun _ => {}
    keyIds := [], selected := [], sending := [], calls := [], productions := [] }
  step := TenantsState.step keccak256 maxRetries

end System

/-! ## What a step is done for -/

/-- The rows that a step is done for: those that it inserts, and those of its items. -/
def SnsState.doneFor (s : SnsState) : SnsInput → List (ℤ × Bytes)
  | .insertPbsComputation row => [row.key]
  | .insertCiphertext row => [(row.tenantId, row.handle)]
  | .commitTasks batch => (s.batches[batch]?.getD []).map fun task => (task.tenantId, task.handle)
  | .commitUpload upload =>
    s.uploads[upload]?.toList.map fun u => (u.item.tenantId, u.item.handle)
  | .garbageCollect picked => picked.map fun key => (key.1, key.2.1)
  | _ => []

def TenantsState.doneFor (s : TenantsState) : TenantsInput → List (ℤ × Bytes)
  | .sns _ i => s.sns.doneFor i
  | .endTransaction i _ => s.sending[i]?.toList
  | _ => []

/-- The rows of another key are as before. -/
structure SnsDatabase.SameAt (db db' : SnsDatabase) (key : ℤ × Bytes) : Prop where
  pbsComputations : db'.pbsComputations.get? key = db.pbsComputations.get? key
  ciphertexts : ∀ version,
    db'.ciphertexts.get? (key.1, key.2, version) = db.ciphertexts.get? (key.1, key.2, version)
  ciphertextDigest : db'.ciphertextDigest.get? key = db.ciphertextDigest.get? key

structure TenantsState.SameAt (s s' : TenantsState) (key : ℤ × Bytes) : Prop where
  db : s.sns.db.SameAt s'.sns.db key
  txns : s'.txns key = s.txns key

/-! ## Rows of one tenant -/

/-- No computation and no ciphertext of another tenant has the handle of the item. -/
def SnsDatabase.OwnHandle (db : SnsDatabase) (item : HandleItem) : Prop :=
  (∀ row ∈ db.pbsComputations.rows, row.handle = item.handle → row.tenantId = item.tenantId) ∧
    ∀ row ∈ db.ciphertexts.rows, row.handle = item.handle → row.tenantId = item.tenantId

instance (db : SnsDatabase) (item : HandleItem) : Decidable (db.OwnHandle item) :=
  inferInstanceAs (Decidable (_ ∧ _))

/-- No digests of another tenant have the handle. -/
def SnsDatabase.OwnDigest (db : SnsDatabase) (key : ℤ × Bytes) : Prop :=
  ∀ row ∈ db.ciphertextDigest.rows, row.handle = key.2 → row.tenantId = key.1

instance (db : SnsDatabase) (key : ℤ × Bytes) : Decidable (db.OwnDigest key) :=
  inferInstanceAs (Decidable (∀ row ∈ _, _))

/-- The rows that a step pairs, and those that its statements select, are of one tenant. -/
def SnsState.OwnTenant (s : SnsState) (key : TenantKey) : SnsInput → Prop
  | .querySnsTasks pairs => ∀ pair ∈ pairs, pair.2.1 = pair.1.1
  | .computeTask batch task enableCompression squashed _ =>
    ∀ tasks ∈ s.batches[batch]?, ∀ item ∈ tasks[task]?,
      (computeTask enableCompression squashed item).isSome → item.tenantId = key.1
  | .commitTasks batch =>
    ∀ tasks ∈ s.batches[batch]?, ∀ task ∈ tasks, task.computed → s.db.OwnHandle task
  | .commitUpload upload =>
    ∀ u ∈ s.uploads[upload]?, u.stage .ct64 = .uploaded ∨ u.stage .ct128 = .uploaded →
      s.db.OwnDigest (u.item.tenantId, u.item.handle)
  | _ => True

def OwnTenant (s : TenantsState) : TenantsInput → Prop
  | .sns key i => s.sns.OwnTenant key i
  | .endTransaction i _ => ∀ key ∈ s.sending[i]?, s.sns.db.OwnDigest key
  | _ => True

instance (s : SnsState) (key : TenantKey) (i : SnsInput) : Decidable (s.OwnTenant key i) :=
  match i with
  | .querySnsTasks pairs => inferInstanceAs (Decidable (∀ pair ∈ pairs, _))
  | .computeTask batch _ _ _ _ => inferInstanceAs (Decidable (∀ tasks ∈ s.batches[batch]?, _))
  | .commitTasks batch => inferInstanceAs (Decidable (∀ tasks ∈ s.batches[batch]?, _))
  | .commitUpload upload => inferInstanceAs (Decidable (∀ u ∈ s.uploads[upload]?, _))
  | .insertPbsComputation _ | .insertCiphertext _ | .abortTasks _ | .fetchPendingUploads _
  | .resubmit _ _ | .abortResubmit _ | .receive _ | .dropJob _ | .checkObject _ _
  | .putObject _ _ _ _ | .abortUpload _ | .garbageCollect _ => inferInstanceAs (Decidable True)

instance : DecidableRel OwnTenant := fun s i =>
  match i with
  | .sns key i => inferInstanceAs (Decidable (s.sns.OwnTenant key i))
  | .endTransaction i _ => inferInstanceAs (Decidable (∀ key ∈ s.sending[i]?, _))
  | .activateKey _ | .selectRow _ | .addCiphertextMaterial _ | .skipRow _ =>
    inferInstanceAs (Decidable True)

end Fhevm.Sns
