import Fhevm.Sns.SnsWorker

/-!
# Formats of 128-bit ciphertexts

An object says in which format its 128-bit ciphertext is, and so does the row with its digest. Both
are right as long as what is read back from the database has been computed without compression: the
format of a row that has no digest yet is that of the default of its column.

## Main definitions

* `FormatsAgree` — formats are those of computations.
* `ReadsUncompressed` — when what a step reads back has the format that it is given.
* `formats_agree` — the formats agree in runs of such steps.
-/

namespace Fhevm.Sns

open Foundation

section Rows

variable {keccak256 : Bytes → Bytes32} {db : SnsDatabase} {row : CiphertextDigest}

/-- The rows of a batch have no digest and the format of the default. -/
theorem mem_commitTasks {tasks : List HandleItem}
    (h : row ∈ (commitTasks db tasks).ciphertextDigest.rows) :
    row ∈ db.ciphertextDigest.rows ∨ ∃ task ∈ tasks, row = task.row := by
  obtain hold | hnew := Table.mem_insertAll h
  · exact .inl hold
  · obtain ⟨task, htask, rfl⟩ := List.mem_map.mp hnew
    exact .inr ⟨task, htask, rfl⟩

variable {u : Upload}

theorem mem_enqueue (h : row ∈ (u.enqueue db).ciphertextDigest.rows) :
    row ∈ db.ciphertextDigest.rows ∨ row = u.item.row := by
  unfold Upload.enqueue at h
  split at h
  · obtain hold | ⟨-, rfl⟩ := Table.mem_insert.mp h
    · exact .inl hold
    · exact .inr rfl
  · exact .inl h

theorem mem_updateCt128 (h : row ∈ (u.updateCt128 keccak256 db).ciphertextDigest.rows) :
    row ∈ db.ciphertextDigest.rows ∨ (u.stage .ct128 = .uploaded ∧
      ∃ old ∈ db.ciphertextDigest.rows, row = { old with
        ciphertext128 := some (u.item.object keccak256 .ct128).key
        ciphertext128Format := u.item.ct128.format.toI16 }) := by
  unfold Upload.updateCt128 at h
  split at h
  · next hstage =>
    obtain ⟨old, hold, rfl⟩ := List.mem_map.mp h
    split
    · exact .inr ⟨hstage, old, hold, rfl⟩
    · exact .inl hold
  · exact .inl h

theorem mem_updateCt64 (h : row ∈ (u.updateCt64 keccak256 db).ciphertextDigest.rows) :
    row ∈ db.ciphertextDigest.rows ∨ (u.stage .ct64 = .uploaded ∧
      ∃ old ∈ db.ciphertextDigest.rows, row = { old with
        ciphertext := some (u.item.object keccak256 .ct64).key }) := by
  unfold Upload.updateCt64 at h
  split at h
  · next hstage =>
    obtain ⟨old, hold, rfl⟩ := List.mem_map.mp h
    split
    · exact .inr ⟨hstage, old, hold, rfl⟩
    · exact .inl hold
  · exact .inl h

/-- Where a digest and its format come from, in the transaction of an upload. -/
theorem mem_commit (h : row ∈ (u.commit keccak256 db).ciphertextDigest.rows) :
    ∃ old, (old ∈ db.ciphertextDigest.rows ∨ old = u.item.row) ∧
      ((row.ciphertext128 = old.ciphertext128 ∧
          row.ciphertext128Format = old.ciphertext128Format) ∨
        (u.stage .ct128 = .uploaded ∧
          row.ciphertext128 = some (u.item.object keccak256 .ct128).key ∧
          row.ciphertext128Format = u.item.ct128.format.toI16)) ∧
      (row.ciphertext = old.ciphertext ∨
        (u.stage .ct64 = .uploaded ∧
          row.ciphertext = some (u.item.object keccak256 .ct64).key)) := by
  obtain hrow | ⟨h64, mid, hmid, rfl⟩ := mem_updateCt64 h
  · obtain hold | ⟨h128, old, hold, rfl⟩ := mem_updateCt128 hrow
    · exact ⟨row, mem_enqueue hold, .inl ⟨rfl, rfl⟩, .inl rfl⟩
    · exact ⟨old, mem_enqueue hold, .inr ⟨h128, rfl, rfl⟩, .inl rfl⟩
  · obtain hold | ⟨h128, old, hold, rfl⟩ := mem_updateCt128 hmid
    · exact ⟨mid, mem_enqueue hold, .inl ⟨rfl, rfl⟩, .inr ⟨h64, rfl⟩⟩
    · exact ⟨old, mem_enqueue hold, .inr ⟨h128, rfl, rfl⟩, .inr ⟨h64, rfl⟩⟩

end Rows

/-! ## Formats -/

section Formats

variable (keccak256 : Bytes → Bytes32)

/-- The format that is recorded with a digest, and that of an object, are formats in which the
bytes have been computed. -/
structure FormatsAgree (s : SnsState) : Prop where
  recorded : ∀ row ∈ s.db.ciphertextDigest.rows, ∀ digest, row.ciphertext128 = some digest →
    ∃ ct ∈ s.produced, keccak256 ct.bytes = digest ∧ row.ciphertext128Format = ct.format.toI16
  metadata : ∀ o ∈ s.buckets .ct128, ∃ ct ∈ s.produced,
    o.key = keccak256 ct.bytes ∧ o.body = ct.bytes ∧ o.ctFormat = some ct.format.text

/-- The 128-bit ciphertext that a step reads back from the database, if any. -/
def SnsState.readBack (s : SnsState) : SnsInput → Bytes
  | .resubmit i version => (s.pending[i]?.map fun row =>
      row.missingCt128 (s.db.ciphertexts.get? (row.tenantId, row.handle, version))).getD []
  | _ => []

/-- What is read back has been computed without compression. -/
def ReadsUncompressed (s : SnsState) (i : SnsInput) : Prop :=
  s.readBack i ≠ [] → ⟨.uncompressedOnCpu, s.readBack i⟩ ∈ s.produced

instance : DecidableRel ReadsUncompressed := fun s i =>
  inferInstanceAs (Decidable (s.readBack i ≠ [] → _ ∈ s.produced))

/-- What a step can do to the formats. -/
structure FormatInvariant (s : SnsState) : Prop extends FormatsAgree keccak256 s where
  rows : ∀ row ∈ s.db.ciphertextDigest.rows, row.ciphertext128 = none → row.ciphertext128Format = 10
  pending : ∀ row ∈ s.pending, row.ciphertext128 = none → row.ciphertext128Format = 10
  jobs : ∀ job ∈ s.jobs, job.item.computed → job.item.ct128 ∈ s.produced
  uploads : ∀ u ∈ s.uploads, u.stage .ct128 ≠ .skipped → u.item.ct128 ∈ s.produced

variable {keccak256} {s s' : SnsState} {i : SnsInput}

/-- A step that only loses what is under way keeps the formats. -/
theorem FormatInvariant.keep (h : FormatInvariant keccak256 s)
    (hrows : s'.db.ciphertextDigest = s.db.ciphertextDigest) (hbuckets : s'.buckets = s.buckets)
    (hpending : s'.pending ⊆ s.pending) (hjobs : s'.jobs ⊆ s.jobs)
    (huploads : s'.uploads ⊆ s.uploads) (hproduced : s.produced ⊆ s'.produced) :
    FormatInvariant keccak256 s' where
  recorded row hrow digest hdigest := by
    obtain ⟨ct, hct, hkey⟩ := h.recorded row (hrows ▸ hrow) digest hdigest
    exact ⟨ct, hproduced hct, hkey⟩
  metadata o ho := by
    obtain ⟨ct, hct, hkey⟩ := h.metadata o (hbuckets ▸ ho)
    exact ⟨ct, hproduced hct, hkey⟩
  rows row hrow := h.rows row (hrows ▸ hrow)
  pending row hrow := h.pending row (hpending hrow)
  jobs job hjob hcomputed := hproduced (h.jobs job (hjobs hjob) hcomputed)
  uploads u hu hstage := hproduced (h.uploads u (huploads hu) hstage)

theorem computeTask_eq_some {enableCompression : Bool} {squashed : Option Bytes}
    {task computed : HandleItem} (h : computeTask enableCompression squashed task = some computed) :
    computed.tenantId = task.tenantId ∧ computed.handle = task.handle := by
  unfold computeTask at h
  split at h
  · cases h
  · obtain ⟨bytes, -, rfl⟩ := Option.map_eq_some_iff.mp h
    exact ⟨rfl, rfl⟩

/-- The job of a row has the format of the row. -/
theorem job_eq_some {row : CiphertextDigest} {ct : Option Ciphertext} {job : UploadJob}
    (h : row.job ct = some job) (hcomputed : job.item.computed) :
    row.ciphertext128 = none ∧ row.missingCt128 ct ≠ [] ∧
      BigCiphertext.newWithFormatId (row.missingCt128 ct) row.ciphertext128Format =
        some job.item.ct128 := by
  simp only [CiphertextDigest.job, Option.bind_eq_bind, Option.bind_eq_some_iff, Option.pure_def,
    Option.some.injEq] at h
  obtain ⟨ct128, hct128, -, -, rfl⟩ := h
  unfold CiphertextDigest.bigCiphertext at hct128
  split at hct128
  · next hbytes =>
    refine ⟨?_, hbytes, hct128⟩
    by_contra hsome
    simp [CiphertextDigest.missingCt128, hsome] at hbytes
  · obtain rfl := Option.some.inj hct128
    simp [UploadJob.item, HandleItem.computed] at hcomputed

theorem stage_upload {item : HandleItem} {enqueues : Bool}
    (h : (item.upload enqueues).stage .ct128 ≠ .skipped) : item.computed := by
  by_contra hcomputed
  simp [HandleItem.upload, hcomputed] at h

/-- The statements of an upload record the format of what has been uploaded. -/
theorem FormatInvariant.commit (h : FormatInvariant keccak256 s) {u : Upload} {uploads : List Upload}
    (hu : u ∈ s.uploads) (huploads : uploads ⊆ s.uploads) :
    FormatInvariant keccak256 { s with db := u.commit keccak256 s.db, uploads } where
  metadata := h.metadata
  pending := h.pending
  jobs := h.jobs
  uploads u' hu' := h.uploads u' (huploads hu')
  recorded row hrow digest hdigest := by
    obtain ⟨old, hold, ⟨h128, hformat⟩ | ⟨hstage, h128, hformat⟩, -⟩ := mem_commit hrow
    · rw [h128] at hdigest
      obtain hold | rfl := hold
      · obtain ⟨ct, hct, hkey, hct'⟩ := h.recorded old hold digest hdigest
        exact ⟨ct, hct, hkey, hformat.trans hct'⟩
      · cases hdigest
    · have hct := h.uploads u hu (by rw [hstage]; decide)
      rw [h128] at hdigest
      exact ⟨u.item.ct128, hct, Option.some.inj hdigest, hformat⟩
  rows row hrow hnone := by
    obtain ⟨old, hold, ⟨h128, hformat⟩ | ⟨-, h128, -⟩, -⟩ := mem_commit hrow
    · rw [hformat]
      obtain hold | rfl := hold
      · exact h.rows old hold (h128 ▸ hnone)
      · rfl
    · rw [hnone] at h128
      cases h128

theorem FormatInvariant.setStage (h : FormatInvariant keccak256 s) {u : Upload} {kind : CtType}
    {i : ℕ} {stage : Stage} (hu : u ∈ s.uploads) (hskipped : u.stage kind ≠ .skipped) :
    FormatInvariant keccak256 { s with uploads := s.uploads.set i (u.setStage kind stage) } := by
  refine { h with uploads := fun u' hu' hstage => ?_ }
  obtain hold | rfl := List.mem_or_eq_of_mem_set hu'
  · exact h.uploads u' hold hstage
  · refine h.uploads u hu fun h128 => hstage ?_
    have hkind : kind ≠ .ct128 := fun hkind => hskipped (hkind ▸ h128)
    rw [u.stage_setStage_of_ne stage hkind.symm, h128]

/-- An object that is put has the format of its item. -/
theorem FormatInvariant.put (h : FormatInvariant keccak256 s) {u : Upload} {kind : CtType}
    {i : ℕ} {stage : Stage} (hu : u ∈ s.uploads) (habsent : u.stage kind = .absent) (stored : Bool) :
    FormatInvariant keccak256 { s with
      buckets := if stored then s.buckets.putObject kind (u.item.object keccak256 kind)
        else s.buckets
      uploads := s.uploads.set i (u.setStage kind stage) } := by
  have hstage : u.stage kind ≠ .skipped := by
    rw [habsent]
    decide
  refine { h.setStage hu hstage with metadata := fun o ho => ?_ }
  cases stored with
  | false => exact h.metadata o ho
  | true =>
    obtain hold | ⟨rfl, rfl⟩ := Buckets.mem_putObject ho
    · exact h.metadata o hold
    · exact ⟨u.item.ct128, h.uploads u hu hstage, rfl, rfl, rfl⟩

theorem FormatInvariant.step (h : FormatInvariant keccak256 s) (hallowed : ReadsUncompressed s i)
    (hstep : s.step keccak256 i = some s') : FormatInvariant keccak256 s' := by
  cases i with
  | insertPbsComputation row =>
    obtain rfl := Option.some.inj hstep
    exact h.keep rfl rfl (fun _ => id) (fun _ => id) (fun _ => id) (fun _ => id)
  | insertCiphertext row =>
    obtain rfl := Option.some.inj hstep
    exact h.keep rfl rfl (fun _ => id) (fun _ => id) (fun _ => id) (fun _ => id)
  | querySnsTasks pairs =>
    simp only [SnsState.step, Option.bind_eq_bind, Option.bind_eq_some_iff, Option.pure_def,
      Option.some.injEq] at hstep
    obtain ⟨tasks, -, rfl⟩ := hstep
    exact h.keep rfl rfl (fun _ => id) (fun _ => id) (fun _ => id) (fun _ => id)
  | computeTask batch task enableCompression squashed sent =>
    simp only [SnsState.step, Option.bind_eq_bind, Option.bind_eq_some_iff, Option.pure_def] at hstep
    obtain ⟨tasks, -, item, -, -, -, hcompute⟩ := hstep
    split at hcompute
    · next computed _ =>
      obtain rfl := Option.some.inj hcompute
      have hkept : FormatInvariant keccak256 { s.compute batch task tasks computed sent with
          jobs := s.jobs } :=
        h.keep rfl rfl (fun _ => id) (fun _ => id) (fun _ => id) (List.subset_cons_self _ _)
      refine { hkept with jobs := fun job hjob hcomputed => ?_ }
      cases sent with
      | false => exact hkept.jobs job hjob hcomputed
      | true =>
        obtain rfl | hold := List.mem_cons.mp hjob
        · exact List.mem_cons_self
        · exact hkept.jobs job hold hcomputed
    · obtain rfl := Option.some.inj hcompute
      exact h
  | commitTasks batch =>
    simp only [SnsState.step, Option.bind_eq_bind, Option.bind_eq_some_iff, Option.pure_def,
      Option.some.injEq] at hstep
    obtain ⟨tasks, -, rfl⟩ := hstep
    refine { h with recorded := fun row hrow digest hdigest => ?_, rows := fun row hrow hnone => ?_ }
    · obtain hold | ⟨task, -, rfl⟩ := mem_commitTasks hrow
      · exact h.recorded row hold digest hdigest
      · cases hdigest
    · obtain hold | ⟨task, -, rfl⟩ := mem_commitTasks hrow
      · exact h.rows row hold hnone
      · rfl
  | abortTasks batch =>
    obtain rfl := Option.some.inj hstep
    exact h.keep rfl rfl (fun _ => id) (fun _ => id) (fun _ => id) (fun _ => id)
  | fetchPendingUploads key =>
    simp only [SnsState.step, Option.bind_eq_bind, Option.bind_eq_some_iff, Option.pure_def,
      Option.some.injEq] at hstep
    obtain ⟨row, hget, -, -, rfl⟩ := hstep
    refine { h with pending := fun row' hrow' => ?_ }
    obtain rfl | hold := List.mem_cons.mp hrow'
    · exact h.rows row' (Table.get?_eq_some.mp hget).1
    · exact h.pending row' hold
  | resubmit i version =>
    simp only [SnsState.step, Option.bind_eq_bind, Option.bind_eq_some_iff, Option.pure_def,
      Option.some.injEq] at hstep
    obtain ⟨row, hrow, rfl⟩ := hstep
    refine { h with
      pending := fun row' hrow' => h.pending row' (List.mem_of_mem_eraseIdx hrow')
      jobs := fun job hjob hcomputed => ?_ }
    obtain hnew | hold := List.mem_append.mp hjob
    · obtain ⟨hnone, hbytes, hct⟩ := job_eq_some (Option.mem_toList.mp hnew) hcomputed
      -- the format of a row without a digest is that of the default
      rw [h.pending row (List.mem_of_getElem? hrow) hnone] at hct
      rw [← Option.some.inj hct]
      simp only [ReadsUncompressed, SnsState.readBack, hrow, Option.map_some, Option.getD_some]
        at hallowed
      exact hallowed hbytes
    · exact h.jobs job hold hcomputed
  | abortResubmit i =>
    obtain rfl := Option.some.inj hstep
    exact h.keep rfl rfl (fun _ => List.mem_of_mem_eraseIdx) (fun _ => id) (fun _ => id) (fun _ => id)
  | receive i =>
    simp only [SnsState.step, Option.bind_eq_bind, Option.bind_eq_some_iff, Option.pure_def,
      Option.some.injEq] at hstep
    obtain ⟨job, hjob, rfl⟩ := hstep
    have hkept : FormatInvariant keccak256 { s with jobs := s.jobs.eraseIdx i } :=
      h.keep rfl rfl (fun _ => id) (fun _ => List.mem_of_mem_eraseIdx) (fun _ => id) (fun _ => id)
    have hstart : ∀ enqueues, FormatInvariant keccak256 { s with
        jobs := s.jobs.eraseIdx i, uploads := job.item.upload enqueues :: s.uploads } := by
      intro enqueues
      refine { hkept with uploads := fun u hu hstage => ?_ }
      obtain rfl | hold := List.mem_cons.mp hu
      · exact h.jobs job (List.mem_of_getElem? hjob) (stage_upload hstage)
      · exact h.uploads u hold hstage
    cases job with
    | normal item => exact hstart true
    | databaseLock item =>
      simp only [SnsState.receive]
      split
      · split
        · exact hstart false
        · exact hkept
      · exact hkept
  | dropJob i =>
    obtain rfl := Option.some.inj hstep
    exact h.keep rfl rfl (fun _ => id) (fun _ => List.mem_of_mem_eraseIdx) (fun _ => id) (fun _ => id)
  | checkObject i kind =>
    simp only [SnsState.step, Option.bind_eq_bind, Option.bind_eq_some_iff, Option.pure_def,
      Option.some.injEq, Option.guard_eq_some'] at hstep
    obtain ⟨u, hu, -, ⟨hunchecked, -⟩, rfl⟩ := hstep
    exact h.setStage (List.mem_of_getElem? hu) (by rw [hunchecked]; decide)
  | putObject i kind stored acknowledged =>
    simp only [SnsState.step, Option.bind_eq_bind, Option.bind_eq_some_iff, Option.pure_def,
      Option.some.injEq, Option.guard_eq_some'] at hstep
    obtain ⟨u, hu, -, ⟨habsent, -⟩, rfl⟩ := hstep
    exact h.put (List.mem_of_getElem? hu) habsent stored
  | commitUpload i =>
    simp only [SnsState.step, Option.bind_eq_bind, Option.bind_eq_some_iff, Option.pure_def,
      Option.some.injEq] at hstep
    obtain ⟨u, hu, -, -, rfl⟩ := hstep
    exact h.commit (List.mem_of_getElem? hu) fun _ => List.mem_of_mem_eraseIdx
  | abortUpload i =>
    obtain rfl := Option.some.inj hstep
    exact h.keep rfl rfl (fun _ => id) (fun _ => id) (fun _ => List.mem_of_mem_eraseIdx) (fun _ => id)
  | garbageCollect picked =>
    obtain rfl := Option.some.inj hstep
    exact h.keep rfl rfl (fun _ => id) (fun _ => id) (fun _ => id) (fun _ => id)

/-- The formats agree as long as all that is read back has been computed without compression. -/
theorem formats_agree {past : List SnsInput}
    (h : (snsWorker keccak256).Run ReadsUncompressed past s) : FormatsAgree keccak256 s := by
  have hinvariant : FormatInvariant keccak256 s := by
    apply h.invariant
    · constructor
      · constructor <;> simp [snsWorker]
      all_goals simp [snsWorker]
    · intro past i s s' _ hs hallowed hstep
      exact hs.step hallowed hstep
  exact hinvariant.toFormatsAgree

end Formats

/-! ## Samples -/

def sampleHash (bytes : Bytes) : Bytes32 := BitVec.ofNat 256 bytes.length

/-- A handle is computed, its first job is lost, and it is read back and uploaded. -/
def sampleFormatInputs (enableCompression : Bool) : List SnsInput :=
  [.commitUpload 0, .putObject 0 .ct64 true true, .putObject 0 .ct128 true true,
    .checkObject 0 .ct64, .checkObject 0 .ct128, .receive 0, .resubmit 0 0,
    .fetchPendingUploads (1, [7]), .commitTasks 0,
    .computeTask 0 0 enableCompression (some [1, 2, 3]) false,
    .querySnsTasks [((1, [7]), (1, [7], 0))],
    .insertPbsComputation ⟨1, [7], none, false⟩, .insertCiphertext ⟨1, [7], 0, [9], none⟩]

theorem sampleFormat_agrees : ∃ s, (snsWorker sampleHash).replay ReadsUncompressed
    (sampleFormatInputs false) = some s ∧
      s.buckets .ct128 = [⟨3, [1, 2, 3], some "uncompressed_on_cpu"⟩] ∧
      FormatsAgree sampleHash s := by
  have hobjects : ((snsWorker sampleHash).replay ReadsUncompressed
      (sampleFormatInputs false)).map (fun s => s.buckets .ct128) =
        some [⟨3, [1, 2, 3], some "uncompressed_on_cpu"⟩] := by decide +kernel
  obtain ⟨s, hs, hobject⟩ := Option.map_eq_some_iff.mp hobjects
  exact ⟨s, hs, hobject, formats_agree (System.run_of_replay hs)⟩

/-- With compression, the object that is uploaded from the database is said to be uncompressed. -/
theorem sampleFormat_differs : ¬ ∀ past s,
    (snsWorker sampleHash).Run (fun _ _ => True) past s → FormatsAgree sampleHash s := by
  intro h
  have hobjects : ((snsWorker sampleHash).replay (fun _ _ => True) (sampleFormatInputs true)).map
      (fun s => (s.buckets .ct128, s.produced)) =
        some ([⟨3, [1, 2, 3], some "uncompressed_on_cpu"⟩], [⟨.compressedOnCpu, [1, 2, 3]⟩]) := by
    decide +kernel
  obtain ⟨s, hs, hobject⟩ := Option.map_eq_some_iff.mp hobjects
  obtain ⟨hbucket, hproduced⟩ := Prod.mk.inj hobject
  obtain ⟨ct, hct, -, -, hformat⟩ := (h _ s (System.run_of_replay hs)).metadata _
    (hbucket ▸ List.mem_cons_self)
  rw [hproduced, List.mem_singleton] at hct
  subst hct
  exact absurd hformat (by decide)

end Fhevm.Sns
