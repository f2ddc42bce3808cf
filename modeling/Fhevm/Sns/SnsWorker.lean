import Fhevm.Common.Evm
import Fhevm.Foundation.System
import Fhevm.Foundation.Table

/-!
# Noise squashing

Workers squash the noise of the ciphertexts that the access control list gives away, and keep the
results in the database until they are uploaded. An upload starts as soon as a result is there. One
that fails is tried again with what the database has, and what has been uploaded is cleared.

## Main definitions

* `SnsDatabase` — the tables, and `garbageCollect` and the other statements.
* `computeTask` — a worker on a ciphertext.
* `Upload` — an upload that is under way, with the transaction that it commits at its end.
* `snsWorker` — the system of all of them.
-/

namespace Fhevm.Sns

open Foundation

/-! ## Ciphertexts -/

inductive Ciphertext128Format
  | unknown
  | uncompressedOnCpu
  | compressedOnCpu
  | uncompressedOnGpu
  | compressedOnGpu
deriving DecidableEq, Repr

namespace Ciphertext128Format

def toI16 : Ciphertext128Format → ℤ
  | unknown => 0
  | uncompressedOnCpu => 10
  | compressedOnCpu => 11
  | uncompressedOnGpu => 20
  | compressedOnGpu => 21

def fromI16 : ℤ → Option Ciphertext128Format
  | 10 => some uncompressedOnCpu
  | 11 => some compressedOnCpu
  | 20 => some uncompressedOnGpu
  | 21 => some compressedOnGpu
  | _ => none

def text : Ciphertext128Format → String
  | unknown => "unknown"
  | uncompressedOnCpu => "uncompressed_on_cpu"
  | compressedOnCpu => "compressed_on_cpu"
  | uncompressedOnGpu => "uncompressed_on_gpu"
  | compressedOnGpu => "compressed_on_gpu"

/-- All formats but the unknown one can be read back. -/
theorem fromI16_toI16 {f : Ciphertext128Format} (h : f ≠ unknown) : fromI16 f.toI16 = some f := by
  cases f with
  | unknown => exact absurd rfl h
  | _ => rfl

end Ciphertext128Format

structure BigCiphertext where
  format : Ciphertext128Format := .unknown
  bytes : Bytes := []
deriving DecidableEq, Repr

def BigCiphertext.newWithFormatId (bytes : Bytes) (formatId : ℤ) : Option BigCiphertext :=
  (Ciphertext128Format.fromI16 formatId).map fun format => { format, bytes }

/-- The two ciphertexts of a handle, each with a bucket of its own. -/
inductive CtType
  | ct64
  | ct128
deriving DecidableEq, Repr

structure HandleItem where
  tenantId : ℤ
  handle : Bytes
  ct64Compressed : Bytes
  ct128 : BigCiphertext
  transactionId : Option Bytes
deriving DecidableEq, Repr

/-- The noise of the ciphertext has been squashed. -/
def HandleItem.computed (item : HandleItem) : Bool := item.ct128.bytes ≠ []

inductive UploadJob
  /-- Right after the computation. -/
  | normal (item : HandleItem)
  /-- From the database, whose row is locked before the upload. -/
  | databaseLock (item : HandleItem)
deriving DecidableEq, Repr

def UploadJob.item : UploadJob → HandleItem
  | .normal item | .databaseLock item => item

/-! ## Tables -/

/-- A row of `pbs_computations`. -/
structure PbsComputation where
  tenantId : ℤ
  handle : Bytes
  transactionId : Option Bytes
  isCompleted : Bool := false
deriving DecidableEq, Repr

def PbsComputation.key (row : PbsComputation) : ℤ × Bytes := (row.tenantId, row.handle)

/-- A row of `ciphertexts`, with the columns that are read here. -/
structure Ciphertext where
  tenantId : ℤ
  handle : Bytes
  ciphertextVersion : ℤ
  ciphertext : Bytes
  ciphertext128 : Option Bytes := none
deriving DecidableEq, Repr

def Ciphertext.key (row : Ciphertext) : ℤ × Bytes × ℤ :=
  (row.tenantId, row.handle, row.ciphertextVersion)

/-- A row of `ciphertext_digest`. -/
structure CiphertextDigest where
  tenantId : ℤ
  handle : Bytes
  ciphertext : Option Bytes32 := none
  ciphertext128 : Option Bytes32 := none
  ciphertext128Format : ℤ := 10
  transactionId : Option Bytes
deriving DecidableEq, Repr

def CiphertextDigest.key (row : CiphertextDigest) : ℤ × Bytes := (row.tenantId, row.handle)

def CiphertextDigest.digest (row : CiphertextDigest) : CtType → Option Bytes32
  | .ct64 => row.ciphertext
  | .ct128 => row.ciphertext128

structure SnsDatabase where
  pbsComputations : Table PbsComputation.key
  ciphertexts : Table Ciphertext.key
  ciphertextDigest : Table CiphertextDigest.key

/-! ## Statements -/

/-- The row that is inserted for an upload. -/
def HandleItem.row (item : HandleItem) : CiphertextDigest where
  tenantId := item.tenantId
  handle := item.handle
  transactionId := item.transactionId

def enqueueUploadTask (db : SnsDatabase) (item : HandleItem) : SnsDatabase :=
  { db with ciphertextDigest := db.ciphertextDigest.insert item.row }

def enqueueUploadTasks (db : SnsDatabase) (tasks : List HandleItem) : SnsDatabase :=
  { db with ciphertextDigest := db.ciphertextDigest.insertAll (tasks.map HandleItem.row) }

def updateCt128Uploaded (db : SnsDatabase) (item : HandleItem) (digest : Bytes32) : SnsDatabase :=
  { db with
    ciphertextDigest := db.ciphertextDigest.update (fun row => row.handle = item.handle)
      (fun row => { row with
        ciphertext128 := some digest, ciphertext128Format := item.ct128.format.toI16 })
      fun _ => rfl }

def updateCt64Uploaded (db : SnsDatabase) (item : HandleItem) (digest : Bytes32) : SnsDatabase :=
  { db with
    ciphertextDigest := db.ciphertextDigest.update (fun row => row.handle = item.handle)
      (fun row => { row with ciphertext := some digest }) fun _ => rfl }

def updateComputationsStatus (db : SnsDatabase) (tasks : List HandleItem) : SnsDatabase :=
  { db with
    pbsComputations := db.pbsComputations.updateEach tasks
      (fun task row => task.computed && row.handle = task.handle)
      (fun _ row => { row with isCompleted := true }) fun _ _ => rfl }

def updateCiphertext128 (db : SnsDatabase) (tasks : List HandleItem) : SnsDatabase :=
  { db with
    ciphertexts := db.ciphertexts.updateEach tasks
      (fun task row => task.computed && row.handle = task.handle)
      (fun task row => { row with ciphertext128 := some task.ct128.bytes }) fun _ _ => rfl }

/-- The transaction of a batch. -/
def commitTasks (db : SnsDatabase) (tasks : List HandleItem) : SnsDatabase :=
  enqueueUploadTasks (updateCiphertext128 (updateComputationsStatus db tasks) tasks) tasks

/-- The 128-bit ciphertext of a row is cleared if it has a digest. Rows that are locked are skipped,
and so are those above the limit. -/
def garbageCollect (db : SnsDatabase) (picked : List (ℤ × Bytes × ℤ)) : SnsDatabase :=
  { db with
    ciphertexts := db.ciphertexts.update
      (fun row => row.key ∈ picked ∧ row.ciphertext128 ≠ none ∧
        ((db.ciphertextDigest.get? (row.tenantId, row.handle)).bind
          CiphertextDigest.ciphertext128) ≠ none)
      (fun row => { row with ciphertext128 := none }) fun _ => rfl }

/-! ## Workers -/

/-- A task of `query_sns_tasks`, from two rows that its join pairs. -/
def querySnsTask (db : SnsDatabase) (pair : (ℤ × Bytes) × (ℤ × Bytes × ℤ)) : Option HandleItem := do
  let a ← db.pbsComputations.get? pair.1
  let c ← db.ciphertexts.get? pair.2
  guard (a.handle = c.handle ∧ a.isCompleted = false)
  return {
    tenantId := a.tenantId
    handle := a.handle
    ct64Compressed := c.ciphertext
    ct128 := {}
    transactionId := a.transactionId }

/-- The task when its noise has been squashed, given the bytes that this results in. There are none
if it fails or is cancelled. -/
def computeTask (enableCompression : Bool) (squashed : Option Bytes) (task : HandleItem) :
    Option HandleItem :=
  if task.ct64Compressed = [] then none
  else squashed.map fun bytes =>
    let format := if enableCompression then .compressedOnCpu else .uncompressedOnCpu
    { task with ct128 := { format, bytes } }

/-! ## Uploads -/

structure Object where
  key : Bytes32
  body : Bytes
  /-- The metadata of `"Ct-Format"`. -/
  ctFormat : Option String
deriving DecidableEq, Repr

abbrev Buckets := CtType → List Object

def Buckets.checkObjectExists (buckets : Buckets) (kind : CtType) (key : Bytes32) : Bool :=
  (buckets kind).any fun o => o.key = key

def Buckets.putObject (buckets : Buckets) (kind : CtType) (o : Object) : Buckets :=
  Function.update buckets kind (o :: (buckets kind).filter fun old => old.key ≠ o.key)

theorem Buckets.mem_putObject {buckets : Buckets} {kind kind' : CtType} {o o' : Object}
    (h : o' ∈ buckets.putObject kind o kind') :
    o' ∈ buckets kind' ∨ (kind' = kind ∧ o' = o) := by
  by_cases hkind : kind' = kind
  · subst hkind
    simp only [putObject, Function.update_self, List.mem_cons] at h
    obtain rfl | hold := h
    · exact .inr ⟨rfl, rfl⟩
    · exact .inl (List.mem_of_mem_filter hold)
  · rw [putObject, Function.update_of_ne hkind] at h
    exact .inl h

/-- How far the upload of a ciphertext is. -/
inductive Stage
  | skipped
  | unchecked
  | absent
  | uploaded
  | failed
deriving DecidableEq, Repr

/-- An upload that is under way. Its transaction inserts the row of its item, unless that is known
to be there, and sets the digests of what has been uploaded. -/
structure Upload where
  item : HandleItem
  enqueues : Bool
  stage : CtType → Stage

def HandleItem.upload (item : HandleItem) (enqueues : Bool) : Upload where
  item := item
  enqueues := enqueues
  stage
    | .ct128 => if item.computed ∧ item.ct128.format ≠ .unknown then .unchecked else .skipped
    | .ct64 => if item.ct64Compressed ≠ [] then .unchecked else .skipped

/-- What is still to be done for a ciphertext before the transaction commits. -/
def Stage.pending : Stage → Bool
  | unchecked | absent => true
  | skipped | uploaded | failed => false

section Upload

variable (keccak256 : Bytes → Bytes32)

def HandleItem.object (item : HandleItem) : CtType → Object
  | .ct64 => ⟨keccak256 item.ct64Compressed, item.ct64Compressed, none⟩
  | .ct128 => ⟨keccak256 item.ct128.bytes, item.ct128.bytes, some item.ct128.format.text⟩

/-- The row of a new item is inserted, that of an item from the database is there. -/
def Upload.enqueue (u : Upload) (db : SnsDatabase) : SnsDatabase :=
  if u.enqueues then enqueueUploadTask db u.item else db

def Upload.updateCt128 (u : Upload) (db : SnsDatabase) : SnsDatabase :=
  if u.stage .ct128 = .uploaded then
    updateCt128Uploaded db u.item (u.item.object keccak256 .ct128).key
  else db

def Upload.updateCt64 (u : Upload) (db : SnsDatabase) : SnsDatabase :=
  if u.stage .ct64 = .uploaded then
    updateCt64Uploaded db u.item (u.item.object keccak256 .ct64).key
  else db

/-- The transaction of an upload. -/
def Upload.commit (u : Upload) (db : SnsDatabase) : SnsDatabase :=
  u.updateCt64 keccak256 (u.updateCt128 keccak256 (u.enqueue db))

end Upload

def Upload.setStage (u : Upload) (kind : CtType) (stage : Stage) : Upload :=
  { u with stage := Function.update u.stage kind stage }

@[simp] theorem Upload.stage_setStage (u : Upload) (kind : CtType) (stage : Stage) :
    (u.setStage kind stage).stage kind = stage := Function.update_self ..

@[simp] theorem Upload.stage_setStage_of_ne (u : Upload) {kind kind' : CtType} (stage : Stage)
    (h : kind' ≠ kind) : (u.setStage kind stage).stage kind' = u.stage kind' :=
  Function.update_of_ne h ..

@[simp] theorem Upload.item_setStage (u : Upload) (kind : CtType) (stage : Stage) :
    (u.setStage kind stage).item = u.item := rfl

section Resubmit

variable (row : CiphertextDigest) (ct : Option Ciphertext)

/-- The 64-bit ciphertext of a row, if it lacks the digest. -/
def CiphertextDigest.missingCt64 : Bytes :=
  if row.ciphertext = none then (ct.map Ciphertext.ciphertext).getD [] else []

/-- The 128-bit ciphertext of a row, if it lacks the digest. -/
def CiphertextDigest.missingCt128 : Bytes :=
  if row.ciphertext128 = none then (ct.bind Ciphertext.ciphertext128).getD [] else []

/-- What has been uploaded, or is not there, is the default. -/
def CiphertextDigest.bigCiphertext : Option BigCiphertext :=
  if row.missingCt128 ct ≠ [] then
    BigCiphertext.newWithFormatId (row.missingCt128 ct) row.ciphertext128Format
  else some {}

/-- The job of a row that lacks a digest, given the row of its ciphertexts. -/
def CiphertextDigest.job : Option UploadJob := do
  let ct128 ← row.bigCiphertext ct
  guard (row.missingCt64 ct ≠ [] ∨ row.missingCt128 ct ≠ [])
  return .databaseLock {
    tenantId := row.tenantId
    handle := row.handle
    ct64Compressed := row.missingCt64 ct
    ct128
    transactionId := row.transactionId }

end Resubmit

/-! ## The system -/

/-- Any number of processes share the tables and the buckets. The lists have what they all have
under way. -/
structure SnsState where
  db : SnsDatabase
  buckets : Buckets
  batches : List (List HandleItem)
  /-- The rows of `fetch_pending_uploads` whose ciphertexts have not been read yet. -/
  pending : List CiphertextDigest
  jobs : List UploadJob
  uploads : List Upload
  /-- What has been computed so far; no process reads it. -/
  produced : List BigCiphertext

inductive SnsInput
  | insertPbsComputation (row : PbsComputation)
  | insertCiphertext (row : Ciphertext)
  | querySnsTasks (pairs : List ((ℤ × Bytes) × (ℤ × Bytes × ℤ)))
  /-- A worker computes a task, and its job is sent unless the channel is full. -/
  | computeTask (batch task : ℕ) (enableCompression : Bool) (squashed : Option Bytes) (sent : Bool)
  | commitTasks (batch : ℕ)
  | abortTasks (batch : ℕ)
  | fetchPendingUploads (key : ℤ × Bytes)
  /-- The ciphertexts of a row are read, and its job is sent. -/
  | resubmit (pending : ℕ) (version : ℤ)
  | abortResubmit (pending : ℕ)
  | receive (job : ℕ)
  /-- The channel has been full, the buckets are not ready, or the process ends. -/
  | dropJob (job : ℕ)
  | checkObject (upload : ℕ) (kind : CtType)
  /-- An object can be stored without an answer that says so. -/
  | putObject (upload : ℕ) (kind : CtType) (stored acknowledged : Bool)
  | commitUpload (upload : ℕ)
  | abortUpload (upload : ℕ)
  | garbageCollect (picked : List (ℤ × Bytes × ℤ))

section System

variable (keccak256 : Bytes → Bytes32)

/-- The task of a batch is replaced by what has been computed. -/
def SnsState.compute (s : SnsState) (batch task : ℕ) (tasks : List HandleItem)
    (computed : HandleItem) (sent : Bool) : SnsState :=
  { s with
    batches := s.batches.set batch (tasks.set task computed)
    jobs := if sent then .normal computed :: s.jobs else s.jobs
    produced := computed.ct128 :: s.produced }

/-- The uploader takes a job. A row that is to be locked has to lack a digest still. -/
def SnsState.receive (s : SnsState) : UploadJob → SnsState
  | .normal item => { s with uploads := item.upload true :: s.uploads }
  | .databaseLock item =>
    match s.db.ciphertextDigest.get? (item.tenantId, item.handle) with
    | some row =>
      if row.ciphertext128 = none ∨ row.ciphertext = none then
        { s with uploads := item.upload false :: s.uploads }
      else s
    | none => s

def SnsState.step (s : SnsState) : SnsInput → Option SnsState
  | .insertPbsComputation row =>
    some { s with db := { s.db with
      pbsComputations := s.db.pbsComputations.insert { row with isCompleted := false } } }
  | .insertCiphertext row =>
    some { s with db := { s.db with
      ciphertexts := s.db.ciphertexts.insert { row with ciphertext128 := none } } }
  | .querySnsTasks pairs => do
    let tasks ← pairs.mapM (querySnsTask s.db)
    return { s with batches := tasks :: s.batches }
  | .computeTask batch task enableCompression squashed sent => do
    let tasks ← s.batches[batch]?
    let item ← tasks[task]?
    guard (item.computed = false)
    match computeTask enableCompression squashed item with
    | some computed => return s.compute batch task tasks computed sent
    | none => return s
  | .commitTasks batch => do
    let tasks ← s.batches[batch]?
    return { s with db := commitTasks s.db tasks, batches := s.batches.eraseIdx batch }
  | .abortTasks batch => some { s with batches := s.batches.eraseIdx batch }
  | .fetchPendingUploads key => do
    let row ← s.db.ciphertextDigest.get? key
    guard (row.ciphertext = none ∨ row.ciphertext128 = none)
    return { s with pending := row :: s.pending }
  | .resubmit i version => do
    let row ← s.pending[i]?
    let ct := s.db.ciphertexts.get? (row.tenantId, row.handle, version)
    return { s with
      pending := s.pending.eraseIdx i
      jobs := (row.job ct).toList ++ s.jobs }
  | .abortResubmit i => some { s with pending := s.pending.eraseIdx i }
  | .receive i => do
    let job ← s.jobs[i]?
    return { s with jobs := s.jobs.eraseIdx i }.receive job
  | .dropJob i => some { s with jobs := s.jobs.eraseIdx i }
  | .checkObject i kind => do
    let u ← s.uploads[i]?
    -- the 128-bit ciphertext is checked first
    guard (u.stage kind = .unchecked ∧ (kind = .ct64 → u.stage .ct128 ≠ .unchecked))
    let stage := if s.buckets.checkObjectExists kind (u.item.object keccak256 kind).key
      then .uploaded else .absent
    return { s with uploads := s.uploads.set i (u.setStage kind stage) }
  | .putObject i kind stored acknowledged => do
    let u ← s.uploads[i]?
    guard (u.stage kind = .absent ∧ u.stage .ct64 ≠ .unchecked ∧ u.stage .ct128 ≠ .unchecked ∧
      (acknowledged = true → stored = true))
    let stage := if acknowledged then .uploaded else .failed
    return { s with
      buckets := if stored then s.buckets.putObject kind (u.item.object keccak256 kind) else s.buckets
      uploads := s.uploads.set i (u.setStage kind stage) }
  | .commitUpload i => do
    let u ← s.uploads[i]?
    guard (¬ (u.stage .ct64).pending ∧ ¬ (u.stage .ct128).pending)
    return { s with db := u.commit keccak256 s.db, uploads := s.uploads.eraseIdx i }
  | .abortUpload i => some { s with uploads := s.uploads.eraseIdx i }
  | .garbageCollect picked => some { s with db := garbageCollect s.db picked }

def snsWorker : System SnsState SnsInput where
  init := {
    db := ⟨⟨[], .nil⟩, ⟨[], .nil⟩, ⟨[], .nil⟩⟩
    buckets := fun _ => []
    batches := [], pending := [], jobs := [], uploads := [], produced := [] }
  step := SnsState.step keccak256

end System

end Fhevm.Sns
