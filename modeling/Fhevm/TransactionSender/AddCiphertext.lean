import Fhevm.Foundation.Memo
import Fhevm.Foundation.System
import Fhevm.Gateway.CiphertextCommits
import Fhevm.GwListener.TenantKeys

/-!
# From computed ciphertexts to the gateway

Workers compute ciphertexts and squash their noise, with server keys that they read once and keep in
caches. The listener of the gateway replaces the keys in the meantime. The transaction sender reports
the digests of both ciphertexts of a handle, with the key id that the tenant has then.

## Main definitions

* `ServerKey` — a key that a worker has read.
* `PipelineState`, `PipelineInput` — the tables, and what the processes hold and do.
* `pipeline` — the system of all of them.
* `Call` — a call of `addCiphertextMaterial`, next to the keys of its ciphertexts.
-/

namespace Fhevm.TransactionSender

open Foundation Gateway GwListener

/-! ## Keys -/

/-- A server key as a worker has read it. Only its bytes are known to the worker: its id is that of
the event that has brought it, and the last column is the key id of the row at the time. -/
structure ServerKey where
  bytes : Bytes
  id : Bytes
  columnThen : Bytes
deriving DecidableEq, Repr

/-- The keys of a tenant, as far as ciphertexts are computed with them. -/
structure TfheTenantKeys where
  tenantId : ℕ
  sks : ServerKey
deriving DecidableEq, Repr

/-- What the processes use of libraries, and how they are set up. -/
structure Deployment where
  keys : KeyLibrary
  keccak256 : Bytes → Bytes32
  /-- Which bytes `safe_deserialize_key` accepts at the type of a key. -/
  isServerKey : Bytes → Bool
  isPublicKey : Bytes → Bool
  isPublicParams : Bytes → Bool
  isSnsKey : Bytes → Bool
  hostChainId : ℕ
  /-- The tenant with an API key. -/
  tenantOf : String → Option ℕ
  setup : Tenants
  addCiphertextsMaxRetries : ℕ

/-! ## Tables -/

/-- The bytes of a ciphertext, with the key that it has been computed with. -/
structure KeyedCiphertext where
  bytes : Bytes
  key : ServerKey
deriving DecidableEq, Repr

/-- The digest of a ciphertext that has been uploaded, with the key of the ciphertext. -/
structure KeyedDigest where
  digest : Bytes32
  key : ServerKey
deriving DecidableEq, Repr

def KeyedCiphertext.digest (keccak256 : Bytes → Bytes32) (ct : KeyedCiphertext) : KeyedDigest :=
  ⟨keccak256 ct.bytes, ct.key⟩

/-- A row of `ciphertexts`. -/
structure Ciphertext where
  tenantId : ℕ
  handle : Bytes
  ciphertextVersion : ℤ
  ciphertext : KeyedCiphertext
  ciphertext128 : Option KeyedCiphertext := none
deriving DecidableEq, Repr

def Ciphertext.key (row : Ciphertext) : ℕ × Bytes × ℤ :=
  (row.tenantId, row.handle, row.ciphertextVersion)

/-- A row of `ciphertext_digest`. -/
structure CiphertextDigest where
  tenantId : ℕ
  handle : Bytes
  ciphertext : Option KeyedDigest := none
  ciphertext128 : Option KeyedDigest := none
  txnIsSent : Bool := false
  txnLimitedRetriesCount : ℕ := 0
deriving DecidableEq, Repr

def CiphertextDigest.key (row : CiphertextDigest) : ℕ × Bytes := (row.tenantId, row.handle)

/-- An item of the worker that squashes noise, with the ciphertexts that it has. -/
structure HandleItem where
  tenantId : ℕ
  handle : Bytes
  ct64 : Option KeyedCiphertext
  ct128 : Option KeyedCiphertext
deriving DecidableEq, Repr

/-- A call of the contract. The keys of the ciphertexts are not in it. -/
structure Call where
  args : AddCiphertextMaterial
  key64 : ServerKey
  key128 : ServerKey
deriving DecidableEq, Repr

/-! ## The state -/

/-- The tables, and what any number of processes have. A key in their hands can be used at any time
later, and so can the snapshots that they have taken of rows. -/
structure PipelineState where
  tenants : Tenants
  ciphertexts : Table Ciphertext.key
  ciphertextDigest : Table CiphertextDigest.key
  /-- The id of the server key of each tenant. No process reads it. -/
  serverKeyIds : ℕ → Bytes
  /-- The caches of all workers, by tenant ids in some of them and by chain ids in others. -/
  tenantKeyCache : Cache (ℕ × Bool × ℕ) TfheTenantKeys
  fetchedKeys : List TfheTenantKeys
  keysCache : Cache (ℕ × String) ServerKey
  fetchedKeysets : List ServerKey
  tasks : List HandleItem
  pending : List CiphertextDigest
  jobs : List HandleItem
  /-- The rows that the transaction sender has selected. -/
  selected : List CiphertextDigest
  /-- The handles whose transactions are under way. -/
  sending : List Bytes
  calls : List Call

/-- What the transaction sender makes of the end of a transaction. -/
inductive TxnEnd
  /-- It is there, or has been there already. -/
  | sent
  | limitedRetry
  /-- An error that does not count, or one of the database. -/
  | unlimitedRetry
deriving DecidableEq, Repr

inductive PipelineInput
  | handleEvent (d : Delivery)
  /-- Of the rows of a chain, that of `tenantId` is put into the cache last. -/
  | fetchTenantServerKey (worker : ℕ) (isTenantId : Bool) (id tenantId : ℕ)
  | evictTenantKeys (worker : ℕ) (isTenantId : Bool) (id : ℕ)
  | insertCiphertext (keys : ℕ) (handle : Bytes) (ciphertextVersion : ℤ) (bytes : Bytes)
  | fetchKeyset (worker : ℕ) (tenantApiKey : String)
  | evictKeyset (worker : ℕ) (tenantApiKey : String)
  /-- The tenant is that of a row of `pbs_computations`, which is joined by its handle only. -/
  | querySnsTask (tenantId : ℕ) (ciphertext : ℕ × Bytes × ℤ)
  /-- The job of a task is sent at once unless the channel is full. -/
  | computeTask (task keyset : ℕ) (bytes : Bytes) (sent : Bool)
  | commitTask (task : ℕ)
  | abortTask (task : ℕ)
  | fetchPendingUpload (key : ℕ × Bytes)
  | resubmit (pending : ℕ) (ciphertextVersion : ℤ)
  /-- The transaction of an upload, with which ciphertexts have been uploaded. -/
  | commitUpload (job : ℕ) (uploaded64 uploaded128 : Bool)
  | dropJob (job : ℕ)
  | garbageCollect (picked : List (ℕ × Bytes × ℤ))
  | selectRow (key : ℕ × Bytes)
  | addCiphertextMaterial (row : ℕ)
  | skipRow (row : ℕ)
  | endTransaction (transaction : ℕ) (txnEnd : TxnEnd)

section Steps

variable (D : Deployment)

/-! ## Steps of the listener -/

/-- A server key has the id of the event that brings it. -/
def serverKeyIdsAfter (s : PipelineState) (d : Delivery) : ℕ → Bytes :=
  match d.event, tenantId s.tenants D.hostChainId with
  | .activateKey keyId _ digests, .ok tenant =>
    if ∃ key ∈ digests, key.keyType = .serverKey then
      Function.update s.serverKeyIds tenant (keyIdToDatabaseBytes keyId)
    else s.serverKeyIds
  | _, _ => s.serverKeyIds

def PipelineState.afterEvent (s : PipelineState) (d : Delivery) : PipelineState :=
  match handleEvent D.keys D.hostChainId d s.tenants with
  | .ok tenants => { s with tenants, serverKeyIds := serverKeyIdsAfter D s d }
  | .error _ => s

/-! ## Steps of the workers -/

/-- The server key in a column of a row. -/
def PipelineState.readKey (s : PipelineState) (row : Tenant) (column : Tenant → Bytes) : ServerKey :=
  ⟨column row, s.serverKeyIds row.tenantId, row.keyId⟩

def PipelineState.queryTenantKeys (s : PipelineState) (isTenantId : Bool) (id tenantId : ℕ) :
    Option TfheTenantKeys := do
  let row ← s.tenants.get? tenantId
  guard ((if isTenantId then row.tenantId else row.chainId) = id ∧ D.isServerKey row.sksKey ∧
    D.isPublicKey row.pksKey ∧ D.isPublicParams row.publicParams)
  return ⟨row.tenantId, s.readKey row Tenant.sksKey⟩

def PipelineState.fetchKeys (s : PipelineState) (tenantApiKey : String) : Option ServerKey := do
  let tenant ← D.tenantOf tenantApiKey
  let row ← s.tenants.get? tenant
  guard (row.snsPk ≠ [] ∧ D.isSnsKey row.snsPk)
  return s.readKey row Tenant.snsPk

/-- The task when its noise has been squashed. -/
def HandleItem.compute (item : HandleItem) (key : ServerKey) (bytes : Bytes) : HandleItem :=
  { item with ct128 := some ⟨bytes, key⟩ }

def enqueueUploadTask (digests : Table CiphertextDigest.key) (item : HandleItem) :
    Table CiphertextDigest.key :=
  digests.insert { tenantId := item.tenantId, handle := item.handle }

def updateCiphertext128 (ciphertexts : Table Ciphertext.key) (item : HandleItem) :
    Table Ciphertext.key :=
  ciphertexts.update (fun row => item.ct128 ≠ none ∧ row.handle = item.handle)
    (fun row => { row with ciphertext128 := item.ct128 }) fun _ => rfl

def updateCt128Uploaded (digests : Table CiphertextDigest.key) (handle : Bytes)
    (ct128 : KeyedDigest) : Table CiphertextDigest.key :=
  digests.update (fun row => row.handle = handle)
    (fun row => { row with ciphertext128 := some ct128 }) fun _ => rfl

def updateCt64Uploaded (digests : Table CiphertextDigest.key) (handle : Bytes)
    (ct64 : KeyedDigest) : Table CiphertextDigest.key :=
  digests.update (fun row => row.handle = handle)
    (fun row => { row with ciphertext := some ct64 }) fun _ => rfl

/-- The item for what a row lacked when it was selected. -/
def CiphertextDigest.item (row : CiphertextDigest) (ct : Option Ciphertext) : HandleItem where
  tenantId := row.tenantId
  handle := row.handle
  ct64 := if row.ciphertext = none then ct.map Ciphertext.ciphertext else none
  ct128 := if row.ciphertext128 = none then ct.bind Ciphertext.ciphertext128 else none

/-- The row of an item is inserted unless it is there, and has the digests of what has been
uploaded. -/
def HandleItem.commitUpload (item : HandleItem) (uploaded64 uploaded128 : Bool)
    (digests : Table CiphertextDigest.key) : Table CiphertextDigest.key :=
  let digests := enqueueUploadTask digests item
  let digests := match item.ct128 with
    | some ct128 =>
      if uploaded128 then updateCt128Uploaded digests item.handle (ct128.digest D.keccak256)
      else digests
    | none => digests
  match item.ct64 with
  | some ct64 =>
    if uploaded64 then updateCt64Uploaded digests item.handle (ct64.digest D.keccak256) else digests
  | none => digests

/-- A 128-bit ciphertext is cleared if it has a digest. -/
def PipelineState.garbageCollect (s : PipelineState) (picked : List (ℕ × Bytes × ℤ)) :
    Table Ciphertext.key :=
  s.ciphertexts.update
    (fun row => row.key ∈ picked ∧
      ((s.ciphertextDigest.get? (row.tenantId, row.handle)).bind
        CiphertextDigest.ciphertext128) ≠ none)
    (fun row => { row with ciphertext128 := none }) fun _ => rfl

/-! ## Steps of the transaction sender -/

/-- The key id of a tenant, if it has 32 bytes. -/
def queryTenantInfo (tenants : Tenants) (tenantId : ℕ) : Option Bytes := do
  let row ← tenants.get? tenantId
  guard (row.keyId.length = 32)
  return row.keyId

def CiphertextDigest.call (row : CiphertextDigest) (tenants : Tenants) : Option Call := do
  let keyId ← queryTenantInfo tenants row.tenantId
  let ct64 ← row.ciphertext
  let ct128 ← row.ciphertext128
  guard (row.handle.length = 32)
  return {
    args := {
      ctHandle := BitVec.ofNat 256 (BigEndian.decode row.handle)
      keyId := BigEndian.decode keyId
      ciphertextDigest := ct64.digest
      snsCiphertextDigest := ct128.digest }
    key64 := ct64.key
    key128 := ct128.key }

def setTxnIsSent (digests : Table CiphertextDigest.key) (handle : Bytes) :
    Table CiphertextDigest.key :=
  digests.update (fun row => row.handle = handle) (fun row => { row with txnIsSent := true })
    fun _ => rfl

def incrementTxnLimitedRetriesCount (digests : Table CiphertextDigest.key) (handle : Bytes) :
    Table CiphertextDigest.key :=
  digests.update (fun row => row.handle = handle)
    (fun row => { row with txnLimitedRetriesCount := row.txnLimitedRetriesCount + 1 }) fun _ => rfl

def TxnEnd.record (txnEnd : TxnEnd) (digests : Table CiphertextDigest.key) (handle : Bytes) :
    Table CiphertextDigest.key :=
  match txnEnd with
  | .sent => setTxnIsSent digests handle
  | .limitedRetry => incrementTxnLimitedRetriesCount digests handle
  | .unlimitedRetry => digests

/-! ## The system -/

def PipelineState.step (s : PipelineState) : PipelineInput → Option PipelineState
  | .handleEvent d => some (s.afterEvent D d)
  | .fetchTenantServerKey worker isTenantId id tenant => do
    let (keys, tenantKeyCache) ← s.tenantKeyCache.fetch (worker, isTenantId, id)
      (s.queryTenantKeys D isTenantId id tenant)
    return { s with tenantKeyCache, fetchedKeys := keys :: s.fetchedKeys }
  | .evictTenantKeys worker isTenantId id =>
    some { s with tenantKeyCache := s.tenantKeyCache.evict (worker, isTenantId, id) }
  | .insertCiphertext i handle ciphertextVersion bytes => do
    let keys ← s.fetchedKeys[i]?
    return { s with ciphertexts := s.ciphertexts.insert {
      tenantId := keys.tenantId, handle, ciphertextVersion, ciphertext := ⟨bytes, keys.sks⟩ } }
  | .fetchKeyset worker tenantApiKey => do
    let (key, keysCache) ← s.keysCache.fetch (worker, tenantApiKey) (s.fetchKeys D tenantApiKey)
    return { s with keysCache, fetchedKeysets := key :: s.fetchedKeysets }
  | .evictKeyset worker tenantApiKey =>
    some { s with keysCache := s.keysCache.evict (worker, tenantApiKey) }
  | .querySnsTask tenantId key => do
    let row ← s.ciphertexts.get? key
    return { s with
      tasks := ⟨tenantId, row.handle, some row.ciphertext, none⟩ :: s.tasks }
  | .computeTask i keyset bytes sent => do
    let item ← s.tasks[i]?
    let key ← s.fetchedKeysets[keyset]?
    guard (item.ct128 = none)
    return { s with
      tasks := s.tasks.set i (item.compute key bytes)
      jobs := if sent then item.compute key bytes :: s.jobs else s.jobs }
  | .commitTask i => do
    let item ← s.tasks[i]?
    return { s with
      ciphertexts := updateCiphertext128 s.ciphertexts item
      ciphertextDigest := enqueueUploadTask s.ciphertextDigest item
      tasks := s.tasks.eraseIdx i }
  | .abortTask i => some { s with tasks := s.tasks.eraseIdx i }
  | .fetchPendingUpload key => do
    let row ← s.ciphertextDigest.get? key
    guard (row.ciphertext = none ∨ row.ciphertext128 = none)
    return { s with pending := row :: s.pending }
  | .resubmit i ciphertextVersion => do
    let row ← s.pending[i]?
    let ct := s.ciphertexts.get? (row.tenantId, row.handle, ciphertextVersion)
    return { s with pending := s.pending.eraseIdx i, jobs := row.item ct :: s.jobs }
  | .commitUpload i uploaded64 uploaded128 => do
    let item ← s.jobs[i]?
    return { s with
      ciphertextDigest := item.commitUpload D uploaded64 uploaded128 s.ciphertextDigest
      jobs := s.jobs.eraseIdx i }
  | .dropJob i => some { s with jobs := s.jobs.eraseIdx i }
  | .garbageCollect picked => some { s with ciphertexts := s.garbageCollect picked }
  | .selectRow key => do
    let row ← s.ciphertextDigest.get? key
    guard (row.txnIsSent = false ∧ row.ciphertext ≠ none ∧ row.ciphertext128 ≠ none ∧
      row.txnLimitedRetriesCount < D.addCiphertextsMaxRetries)
    return { s with selected := row :: s.selected }
  | .addCiphertextMaterial i => do
    let row ← s.selected[i]?
    let call ← row.call s.tenants
    return { s with
      selected := s.selected.eraseIdx i
      sending := row.handle :: s.sending
      calls := call :: s.calls }
  | .skipRow i => some { s with selected := s.selected.eraseIdx i }
  | .endTransaction i txnEnd => do
    let handle ← s.sending[i]?
    return { s with
      ciphertextDigest := txnEnd.record s.ciphertextDigest handle
      sending := s.sending.eraseIdx i }

/-- The keys that the tenants are set up with have the key ids of the setup. -/
def pipeline : System PipelineState PipelineInput where
  init := {
    tenants := D.setup
    ciphertexts := ⟨[], .nil⟩
    ciphertextDigest := ⟨[], .nil⟩
    serverKeyIds := fun tenant => ((D.setup.get? tenant).map Tenant.keyId).getD []
    tenantKeyCache := .empty
    fetchedKeys := []
    keysCache := .empty
    fetchedKeysets := []
    tasks := [], pending := [], jobs := [], selected := [], sending := [], calls := [] }
  step := PipelineState.step D

end Steps

end Fhevm.TransactionSender
