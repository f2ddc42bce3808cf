import Fhevm.Sns.SnsWorker

/-!
# Resubmissions

Uploads that have not been completed are resubmitted from the database. They are fetched in
batches, until a batch leads to fewer jobs than its limit. Meanwhile the uploader works on what has
been sent.

## Main definitions

* `SnsDatabase.pendingRows` — the rows that lack a digest.
* `SnsDatabase.job` — the job for a row, if there is something to upload.
* `FullyUsable` — the job carries all that the row lacks.
* `tryResubmit` — the loop, and what the uploader does in the course of it.
-/

namespace Fhevm.Sns

open Foundation

/-! ## Rows -/

/-- An incomplete upload. -/
def CiphertextDigest.pending (row : CiphertextDigest) : Bool :=
  decide (row.ciphertext = none ∨ row.ciphertext128 = none)

def SnsDatabase.pendingRows (db : SnsDatabase) : List CiphertextDigest :=
  db.ciphertextDigest.rows.filter CiphertextDigest.pending

/-- The row that the statements on `ciphertexts` find for a handle of a tenant. -/
def SnsDatabase.ciphertextOf (db : SnsDatabase) (row : CiphertextDigest) : Option Ciphertext :=
  db.ciphertexts.rows.find? fun c => c.tenantId = row.tenantId ∧ c.handle = row.handle

def SnsDatabase.job (db : SnsDatabase) (row : CiphertextDigest) : Option UploadJob :=
  row.job (db.ciphertextOf row)

/-- A ciphertext that the row lacks the digest of, if the database has it. -/
def SnsDatabase.missing (db : SnsDatabase) (row : CiphertextDigest) : CtType → Bytes
  | .ct64 => row.missingCt64 (db.ciphertextOf row)
  | .ct128 => row.missingCt128 (db.ciphertextOf row)

def HandleItem.body (item : HandleItem) : CtType → Bytes
  | .ct64 => item.ct64Compressed
  | .ct128 => item.ct128.bytes

def UploadJob.key (job : UploadJob) : ℤ × Bytes := (job.item.tenantId, job.item.handle)

/-- The database has all that the row lacks, in a known format. -/
def FullyUsable (db : SnsDatabase) (row : CiphertextDigest) : Prop :=
  (db.job row).isSome ∧ ∀ kind, row.digest kind = none → db.missing row kind ≠ []

/-- The format of the 128-bit ciphertext is known, if it is missing and there. -/
def KnownFormat (db : SnsDatabase) (row : CiphertextDigest) : Prop :=
  db.missing row .ct128 ≠ [] → ∃ format, Ciphertext128Format.fromI16 row.ciphertext128Format =
    some format

section Rows

variable {db db' : SnsDatabase} {row row' : CiphertextDigest} {job : UploadJob} {kind : CtType}

theorem pending_iff : row.pending = true ↔ ∃ kind, row.digest kind = none := by
  simp only [CiphertextDigest.pending, decide_eq_true_eq]
  constructor
  · rintro (h | h)
    · exact ⟨.ct64, h⟩
    · exact ⟨.ct128, h⟩
  · rintro ⟨kind, h⟩
    cases kind with
    | ct64 => exact .inl h
    | ct128 => exact .inr h

theorem mem_pendingRows : row ∈ db.pendingRows ↔
    row ∈ db.ciphertextDigest.rows ∧ row.pending = true := List.mem_filter

/-- What has a digest is not missing. -/
theorem digest_of_missing (h : db.missing row kind ≠ []) : row.digest kind = none := by
  cases kind with
  | ct64 =>
    simp only [SnsDatabase.missing, CiphertextDigest.missingCt64] at h
    split_ifs at h with hdigest
    · exact hdigest
    · exact absurd rfl h
  | ct128 =>
    simp only [SnsDatabase.missing, CiphertextDigest.missingCt128] at h
    split_ifs at h with hdigest
    · exact hdigest
    · exact absurd rfl h

/-- A job is made of what is missing, if there is any and its format is known. -/
theorem job_isSome : (db.job row).isSome ↔
    KnownFormat db row ∧ ∃ kind, db.missing row kind ≠ [] := by
  have hkinds : (∃ kind, db.missing row kind ≠ []) ↔
      row.missingCt64 (db.ciphertextOf row) ≠ [] ∨ row.missingCt128 (db.ciphertextOf row) ≠ [] := by
    constructor
    · rintro ⟨kind, h⟩
      cases kind with
      | ct64 => exact .inl h
      | ct128 => exact .inr h
    · rintro (h | h)
      · exact ⟨.ct64, h⟩
      · exact ⟨.ct128, h⟩
  rw [hkinds]
  simp only [SnsDatabase.job, CiphertextDigest.job, CiphertextDigest.bigCiphertext,
    BigCiphertext.newWithFormatId, KnownFormat, SnsDatabase.missing]
  split_ifs with hct128
  · cases Ciphertext128Format.fromI16 row.ciphertext128Format with
    | none => simp [hct128]
    | some format => simp [hct128]
  · by_cases hct64 : row.missingCt64 (db.ciphertextOf row) = [] <;> simp [hct128, hct64]

theorem job_spec (h : db.job row = some job) :
    job.key = row.key ∧ ∀ kind, job.item.body kind = db.missing row kind := by
  simp only [SnsDatabase.job, CiphertextDigest.job, Option.bind_eq_bind, Option.bind_eq_some_iff,
    Option.pure_def, Option.some.injEq, Option.guard_eq_some'] at h
  obtain ⟨ct128, hct128, -, -, rfl⟩ := h
  refine ⟨rfl, fun kind => ?_⟩
  cases kind with
  | ct64 => rfl
  | ct128 =>
    simp only [CiphertextDigest.bigCiphertext, BigCiphertext.newWithFormatId] at hct128
    split_ifs at hct128 with hmissing
    · obtain ⟨format, -, rfl⟩ := Option.map_eq_some_iff.mp hct128
      rfl
    · obtain rfl := Option.some.inj hct128
      exact (not_not.mp hmissing).symm

theorem pending_of_job (h : db.job row = some job) : row.pending = true := by
  obtain ⟨-, kind, hmissing⟩ := job_isSome.mp (Option.isSome_of_mem h)
  exact pending_iff.mpr ⟨kind, digest_of_missing hmissing⟩

theorem fullyUsable_iff : FullyUsable db row ↔ row.pending = true ∧ KnownFormat db row ∧
    ∀ kind, row.digest kind = none → db.missing row kind ≠ [] := by
  rw [FullyUsable, job_isSome, pending_iff]
  constructor
  · rintro ⟨⟨hformat, kind, hmissing⟩, hall⟩
    exact ⟨⟨kind, digest_of_missing hmissing⟩, hformat, hall⟩
  · rintro ⟨⟨kind, hdigest⟩, hformat, hall⟩
    exact ⟨⟨hformat, kind, hall kind hdigest⟩, hall⟩

/-- What is missing of a row is the same where the row and the ciphertexts are the same. -/
theorem ciphertextOf_congr (hciphertexts : db'.ciphertexts = db.ciphertexts)
    (hkey : row'.key = row.key) : db'.ciphertextOf row' = db.ciphertextOf row := by
  obtain ⟨htenant, hhandle⟩ := Prod.mk.inj hkey
  rw [SnsDatabase.ciphertextOf, SnsDatabase.ciphertextOf, hciphertexts, htenant, hhandle]

theorem job_congr (hciphertexts : db'.ciphertexts = db.ciphertexts) :
    db'.job row = db.job row := by
  rw [SnsDatabase.job, SnsDatabase.job, ciphertextOf_congr hciphertexts rfl]

theorem missing_congr (hciphertexts : db'.ciphertexts = db.ciphertexts) :
    db'.missing row kind = db.missing row kind := by
  have hct : db'.ciphertextOf row = db.ciphertextOf row := ciphertextOf_congr hciphertexts rfl
  cases kind <;> rw [SnsDatabase.missing, SnsDatabase.missing, hct]

theorem fullyUsable_congr (hciphertexts : db'.ciphertexts = db.ciphertexts) :
    FullyUsable db' row ↔ FullyUsable db row := by
  simp only [FullyUsable, job_congr hciphertexts, missing_congr hciphertexts]

end Rows

/-! ## Uploads -/

/-- The row with the digest of an upload. -/
def CiphertextDigest.uploaded (row : CiphertextDigest) (item : HandleItem) (digest : Bytes32) :
    CtType → CiphertextDigest
  | .ct64 => { row with ciphertext := some digest }
  | .ct128 =>
    { row with ciphertext128 := some digest, ciphertext128Format := item.ct128.format.toI16 }

/-- The row after the statement of an upload, which goes by the handle. -/
def CiphertextDigest.after (row : CiphertextDigest) (item : HandleItem) (digest : Bytes32)
    (kind : CtType) : CiphertextDigest :=
  if row.handle = item.handle then row.uploaded item digest kind else row

/-- The statement of an upload of a kind. -/
def updateUploaded (db : SnsDatabase) (item : HandleItem) (digest : Bytes32) :
    CtType → SnsDatabase
  | .ct64 => updateCt64Uploaded db item digest
  | .ct128 => updateCt128Uploaded db item digest

section Uploads

variable {db : SnsDatabase} {row : CiphertextDigest} {item : HandleItem} {digest : Bytes32}
  {kind kind' : CtType}

@[simp] theorem key_uploaded : (row.uploaded item digest kind).key = row.key := by
  cases kind <;> rfl

theorem digest_uploaded : (row.uploaded item digest kind).digest kind' =
    if kind' = kind then some digest else row.digest kind' := by
  cases kind <;> cases kind' <;> rfl

@[simp] theorem ciphertexts_updateUploaded :
    (updateUploaded db item digest kind).ciphertexts = db.ciphertexts := by
  cases kind <;> rfl

/-- The rows of the handle get the digest, whatever their tenants are. -/
theorem rows_updateUploaded : (updateUploaded db item digest kind).ciphertextDigest.rows =
    db.ciphertextDigest.rows.map fun row => row.after item digest kind := by
  cases kind with
  | ct64 =>
    change List.map _ _ = _
    simp [CiphertextDigest.after, CiphertextDigest.uploaded]
  | ct128 =>
    change List.map _ _ = _
    simp [CiphertextDigest.after, CiphertextDigest.uploaded]

/-- An upload makes up for what it has uploaded, and for nothing else. -/
theorem missing_uploaded : (updateUploaded db item digest kind).missing
    (row.uploaded item digest kind) kind' = if kind' = kind then [] else db.missing row kind' := by
  have hct : (updateUploaded db item digest kind).ciphertextOf (row.uploaded item digest kind) =
      db.ciphertextOf row := ciphertextOf_congr ciphertexts_updateUploaded key_uploaded
  cases kind' with
  | ct64 =>
    rw [SnsDatabase.missing, hct]
    cases kind <;> rfl
  | ct128 =>
    rw [SnsDatabase.missing, hct]
    cases kind <;> rfl

theorem pending_of_uploaded (h : (row.uploaded item digest kind).pending = true) :
    row.pending = true := by
  obtain ⟨kind', hdigest⟩ := pending_iff.mp h
  rw [digest_uploaded] at hdigest
  split_ifs at hdigest with hkind
  exact pending_iff.mpr ⟨kind', hdigest⟩

/-- A row that is fully usable stays so until it is complete. -/
theorem fullyUsable_uploaded (h : FullyUsable db row)
    (hpending : (row.uploaded item digest kind).pending = true) :
    FullyUsable (updateUploaded db item digest kind) (row.uploaded item digest kind) := by
  obtain ⟨-, hformat, hall⟩ := fullyUsable_iff.mp h
  refine fullyUsable_iff.mpr ⟨hpending, ?_, fun kind' hdigest => ?_⟩
  · rw [KnownFormat, missing_uploaded]
    cases kind with
    | ct64 => exact hformat
    | ct128 => simp
  · rw [digest_uploaded] at hdigest
    rw [missing_uploaded]
    split_ifs at hdigest with hkind
    rw [if_neg hkind]
    exact hall kind' hdigest

@[simp] theorem key_after : (row.after item digest kind).key = row.key := by
  unfold CiphertextDigest.after
  split_ifs
  · exact key_uploaded
  · rfl

theorem handle_after : (row.after item digest kind).handle = row.handle :=
  (Prod.mk.inj key_after).2

/-- The rows that are pending after an upload. -/
theorem mem_pendingRows_updateUploaded
    (h : row ∈ (updateUploaded db item digest kind).pendingRows) :
    ∃ old ∈ db.pendingRows, row = old.after item digest kind := by
  obtain ⟨hrow, hpending⟩ := mem_pendingRows.mp h
  rw [rows_updateUploaded] at hrow
  obtain ⟨old, hold, rfl⟩ := List.mem_map.mp hrow
  refine ⟨old, mem_pendingRows.mpr ⟨hold, ?_⟩, rfl⟩
  unfold CiphertextDigest.after at hpending
  split_ifs at hpending with hhandle
  · exact pending_of_uploaded hpending
  · exact hpending

end Uploads

/-! ## The loop -/

structure ResubmitState where
  db : SnsDatabase
  /-- The rows that the uploader has locked. -/
  locked : List (ℤ × Bytes)
  sent : List UploadJob
  returned : Bool

/-- The rows that a fetch may return. -/
def ResubmitState.available (s : ResubmitState) : List CiphertextDigest :=
  s.db.pendingRows.filter fun row => row.key ∉ s.locked

inductive ResubmitInput
  /-- A turn of the loop: rows are fetched, and their jobs are sent. -/
  | fetch (rows : List CiphertextDigest)
  /-- The uploader has locked these rows, and no others. It updates by the handle. -/
  | lock (keys : List (ℤ × Bytes))
  /-- The upload of a ciphertext of a job ends with its digest. -/
  | upload (job : UploadJob) (kind : CtType)

/-- Any rows that are not locked, as many as there are up to the limit. -/
def Fetched (s : ResubmitState) (limit : ℕ) (rows : List CiphertextDigest) : Prop :=
  rows.Nodup ∧ (∀ row ∈ rows, row ∈ s.available) ∧ rows.length = min limit s.available.length

instance (s : ResubmitState) (limit : ℕ) : DecidablePred (Fetched s limit) := fun rows =>
  inferInstanceAs (Decidable (rows.Nodup ∧ (∀ row ∈ rows, row ∈ s.available) ∧
    rows.length = min limit s.available.length))

/-- The jobs of a batch are sent. The loop ends with the batch if they are fewer than the limit. -/
def ResubmitState.send (s : ResubmitState) (batchSize : ℕ) (jobs : List UploadJob) :
    ResubmitState :=
  { s with sent := s.sent ++ jobs, returned := decide (jobs.length < batchSize) }

section Loop

variable (keccak256 : Bytes → Bytes32) (batchSize : ℕ)

def ResubmitState.upload (s : ResubmitState) (job : UploadJob) (kind : CtType) : ResubmitState :=
  { s with db := updateUploaded s.db job.item (job.item.object keccak256 kind).key kind }

/-- The limit of the statement is a signed number, which may not be negative. -/
def ResubmitState.step (s : ResubmitState) : ResubmitInput → Option ResubmitState
  | .fetch rows => do
    guard (s.returned = false ∧ batchSize < 2 ^ 63 ∧ Fetched s batchSize rows)
    return s.send batchSize (rows.filterMap s.db.job)
  | .lock keys => do
    guard (∀ key ∈ keys, ∃ job ∈ s.sent, job.item.handle = key.2)
    return { s with locked := keys }
  | .upload job kind => do
    guard (job ∈ s.sent ∧ job.item.body kind ≠ [])
    return s.upload keccak256 job kind

/-- The S3 setup is ready, the loop is not cancelled and no statement fails. Nobody else works on
the rows. -/
def tryResubmit (db : SnsDatabase) : System ResubmitState ResubmitInput where
  init := { db, locked := [], sent := [], returned := false }
  step := ResubmitState.step keccak256 batchSize

/-- A run of the loop on the tables. -/
def ResubmitRun (db : SnsDatabase) (past : List ResubmitInput) (s : ResubmitState) : Prop :=
  (tryResubmit keccak256 batchSize db).Run (fun _ _ => True) past s

end Loop

section Steps

variable {keccak256 : Bytes → Bytes32} {batchSize : ℕ} {db : SnsDatabase}
  {past : List ResubmitInput} {s s' : ResubmitState} {rows : List CiphertextDigest}

theorem mem_available {row : CiphertextDigest} : row ∈ s.available ↔
    row ∈ s.db.ciphertextDigest.rows ∧ row.pending = true ∧ row.key ∉ s.locked := by
  simp [ResubmitState.available, mem_pendingRows, and_assoc]

theorem nodup_available : s.available.Nodup :=
  (s.db.ciphertextDigest.nodup.of_map.filter _).filter _

/-- Two available rows with the same key are the same. -/
theorem eq_of_available {row row' : CiphertextDigest} (hrow : row ∈ s.available)
    (hrow' : row' ∈ s.available) (hkey : row.key = row'.key) : row = row' :=
  s.db.ciphertextDigest.eq_of_key_eq (mem_available.mp hrow).1 (mem_available.mp hrow').1 hkey

/-- Where the limit is not exceeded, all available rows are fetched. -/
theorem Fetched.all {limit : ℕ} (h : Fetched s limit rows) (hlimit : s.available.length ≤ limit)
    {row : CiphertextDigest} (hrow : row ∈ s.available) : row ∈ rows := by
  obtain ⟨hnodup, hmem, hlength⟩ := h
  have hperm := (List.subperm_of_subset hnodup hmem).perm_of_length_le (by omega)
  exact hperm.mem_iff.mpr hrow

theorem Fetched.take (s : ResubmitState) (limit : ℕ) : Fetched s limit (s.available.take limit) :=
  ⟨nodup_available.sublist (List.take_sublist _ _), fun _ hrow => List.mem_of_mem_take hrow,
    List.length_take⟩

/-- What a step does. -/
theorem resubmit_step_cases {i : ResubmitInput} (h : s.step keccak256 batchSize i = some s') :
    (∃ rows, i = .fetch rows ∧ s.returned = false ∧ batchSize < 2 ^ 63 ∧ Fetched s batchSize rows ∧
        s' = s.send batchSize (rows.filterMap s.db.job)) ∨
      (∃ keys, i = .lock keys ∧ (∀ key ∈ keys, ∃ job ∈ s.sent, job.item.handle = key.2) ∧
        s' = { s with locked := keys }) ∨
      ∃ job kind, i = .upload job kind ∧ job ∈ s.sent ∧ job.item.body kind ≠ [] ∧
        s' = s.upload keccak256 job kind := by
  cases i with
  | fetch rows =>
    simp only [ResubmitState.step, Option.bind_eq_bind, Option.bind_eq_some_iff, Option.pure_def,
      Option.some.injEq, Option.guard_eq_some'] at h
    obtain ⟨-, ⟨hreturned, hlimit, hrows⟩, rfl⟩ := h
    exact .inl ⟨rows, rfl, hreturned, hlimit, hrows, rfl⟩
  | lock keys =>
    simp only [ResubmitState.step, Option.bind_eq_bind, Option.bind_eq_some_iff, Option.pure_def,
      Option.some.injEq, Option.guard_eq_some'] at h
    obtain ⟨-, hkeys, rfl⟩ := h
    exact .inr (.inl ⟨keys, rfl, hkeys, rfl⟩)
  | upload job kind =>
    simp only [ResubmitState.step, Option.bind_eq_bind, Option.bind_eq_some_iff, Option.pure_def,
      Option.some.injEq, Option.guard_eq_some'] at h
    obtain ⟨-, ⟨hsent, hbody⟩, rfl⟩ := h
    exact .inr (.inr ⟨job, kind, rfl, hsent, hbody, rfl⟩)

theorem ResubmitRun.fetch (h : ResubmitRun keccak256 batchSize db past s)
    (hreturned : s.returned = false) (hlimit : batchSize < 2 ^ 63)
    (hrows : Fetched s batchSize rows) :
    ResubmitRun keccak256 batchSize db (.fetch rows :: past)
      (s.send batchSize (rows.filterMap s.db.job)) := by
  refine System.Run.step h trivial ?_
  have hguard : s.returned = false ∧ batchSize < 2 ^ 63 ∧ Fetched s batchSize rows :=
    ⟨hreturned, hlimit, hrows⟩
  simp only [tryResubmit, ResubmitState.step, Option.bind_eq_bind, guard, if_pos hguard]
  rfl

theorem ResubmitRun.lock {keys : List (ℤ × Bytes)} (h : ResubmitRun keccak256 batchSize db past s)
    (hkeys : ∀ key ∈ keys, ∃ job ∈ s.sent, job.item.handle = key.2) :
    ResubmitRun keccak256 batchSize db (.lock keys :: past) { s with locked := keys } := by
  refine System.Run.step h trivial ?_
  simp only [tryResubmit, ResubmitState.step, Option.bind_eq_bind, guard, if_pos hkeys]
  rfl

theorem ResubmitRun.upload {job : UploadJob} {kind : CtType}
    (h : ResubmitRun keccak256 batchSize db past s) (hsent : job ∈ s.sent)
    (hbody : job.item.body kind ≠ []) : ResubmitRun keccak256 batchSize db
      (.upload job kind :: past) (s.upload keccak256 job kind) := by
  refine System.Run.step h trivial ?_
  have hguard : job ∈ s.sent ∧ job.item.body kind ≠ [] := ⟨hsent, hbody⟩
  simp only [tryResubmit, ResubmitState.step, Option.bind_eq_bind, guard, if_pos hguard]
  rfl

end Steps

end Fhevm.Sns
