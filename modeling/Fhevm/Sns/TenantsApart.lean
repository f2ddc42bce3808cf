import Fhevm.Foundation.Lease
import Fhevm.Sns.TenantRows

/-!
# Tenants are kept apart

What is stored, recorded and sent for a handle of a tenant comes from a ciphertext of the tenant and
from its key, and the rows of the others stay as they are. Both hold as long as no step pairs or
selects rows of different tenants, and as long as a worker has the key of the tenant of its task.

## Main definitions

* `TenantsState.Origin` — the ciphertexts of a tenant, and what has been computed from them.
* `TenantsApart` — everything has its origin with its tenant.
* `tenants_apart` — it has in runs of steps on rows of one tenant.
-/

namespace Fhevm.Sns

open Foundation Gateway
open TransactionSender (Bookkeeping tryIntoArray)

/-! ## Origins -/

/-- The bytes of an item that are uploaded. -/
def HandleItem.content (item : HandleItem) : CtType → Bytes
  | .ct64 => item.ct64Compressed
  | .ct128 => item.ct128.bytes

theorem HandleItem.computed_iff {item : HandleItem} :
    item.computed ↔ item.content .ct128 ≠ [] := by
  simp [computed, content]

/-- The tenant has a ciphertext with these bytes for the handle. -/
def SnsDatabase.HasCiphertext (db : SnsDatabase) (tenantId : ℤ) (handle bytes : Bytes) : Prop :=
  ∃ row ∈ db.ciphertexts.rows,
    row.tenantId = tenantId ∧ row.handle = handle ∧ row.ciphertext = bytes

/-- The bytes have been computed from a ciphertext of the tenant for the handle, with a key of the
tenant. -/
def TenantsState.ComputedFor (s : TenantsState) (tenantId : ℤ) (handle bytes : Bytes) : Prop :=
  ∃ p ∈ s.productions, p.key ∈ s.keyIds ∧ p.key.1 = tenantId ∧
    s.sns.db.HasCiphertext tenantId handle p.ct64 ∧ p.bytes = bytes

def TenantsState.Origin (s : TenantsState) : CtType → ℤ → Bytes → Bytes → Prop
  | .ct64 => s.sns.db.HasCiphertext
  | .ct128 => s.ComputedFor

section Workers

variable (O : CtType → ℤ → Bytes → Bytes → Prop) (keccak256 : Bytes → Bytes32)

def HandleItem.Own (item : HandleItem) : Prop :=
  ∀ kind, item.content kind ≠ [] → O kind item.tenantId item.handle (item.content kind)

/-- The digests of a row are those of bytes with an origin. -/
def CiphertextDigest.Own (row : CiphertextDigest) : Prop :=
  ∀ kind digest, row.digest kind = some digest →
    ∃ bytes, O kind row.tenantId row.handle bytes ∧ digest = keccak256 bytes

/-- Both ciphertexts of a row have their origin. -/
structure Ciphertext.Own (row : Ciphertext) : Prop where
  ciphertext : O .ct64 row.tenantId row.handle row.ciphertext
  ciphertext128 : ∀ bytes, row.ciphertext128 = some bytes →
    O .ct128 row.tenantId row.handle bytes

/-- The call has the digests of ciphertexts of its tenant, and a key id of the tenant. -/
structure TenantCall.Own (keyIds : List TenantKey) (call : TenantCall) : Prop where
  ctHandle : tryIntoArray call.handle = some call.args.ctHandle
  keyId : ∃ keyId, (call.tenantId, keyId) ∈ keyIds ∧ call.args.keyId = BigEndian.decode keyId
  ciphertextDigest : ∃ bytes, O .ct64 call.tenantId call.handle bytes ∧
    call.args.ciphertextDigest = keccak256 bytes
  snsCiphertextDigest : ∃ bytes, O .ct128 call.tenantId call.handle bytes ∧
    call.args.snsCiphertextDigest = keccak256 bytes

/-- All that workers and uploads have is of its tenant. -/
structure Origins (s : SnsState) : Prop where
  ciphertexts : ∀ row ∈ s.db.ciphertexts.rows, row.Own O
  digests : ∀ row ∈ s.db.ciphertextDigest.rows, row.Own O keccak256
  batches : ∀ batch ∈ s.batches, ∀ item ∈ batch, item.Own O
  jobs : ∀ job ∈ s.jobs, job.item.Own O
  uploads : ∀ u ∈ s.uploads, ∀ kind, u.stage kind ≠ .skipped →
    O kind u.item.tenantId u.item.handle (u.item.content kind)

variable {O keccak256} {O' : CtType → ℤ → Bytes → Bytes → Prop} {s s' : SnsState} {i : SnsInput}
  {db : SnsDatabase}

theorem HandleItem.Own.mono {item : HandleItem} (h : item.Own O) (hO : O ≤ O') :
    item.Own O' := fun kind hne => hO _ _ _ _ (h kind hne)

theorem CiphertextDigest.Own.mono {row : CiphertextDigest} (h : row.Own O keccak256)
    (hO : O ≤ O') : row.Own O' keccak256 := by
  intro kind digest hdigest
  obtain ⟨bytes, horigin, hkey⟩ := h kind digest hdigest
  exact ⟨bytes, hO _ _ _ _ horigin, hkey⟩

theorem TenantCall.Own.mono {call : TenantCall} {keyIds keyIds' : List TenantKey}
    (h : call.Own O keccak256 keyIds) (hkeys : keyIds ⊆ keyIds') (hO : O ≤ O') :
    call.Own O' keccak256 keyIds' where
  ctHandle := h.ctHandle
  keyId := by
    obtain ⟨keyId, hmem, hkeyId⟩ := h.keyId
    exact ⟨keyId, hkeys hmem, hkeyId⟩
  ciphertextDigest := by
    obtain ⟨bytes, horigin, hdigest⟩ := h.ciphertextDigest
    exact ⟨bytes, hO _ _ _ _ horigin, hdigest⟩
  snsCiphertextDigest := by
    obtain ⟨bytes, horigin, hdigest⟩ := h.snsCiphertextDigest
    exact ⟨bytes, hO _ _ _ _ horigin, hdigest⟩

theorem Origins.mono (h : Origins O keccak256 s) (hO : O ≤ O') : Origins O' keccak256 s where
  ciphertexts row hrow :=
    ⟨hO _ _ _ _ (h.ciphertexts row hrow).ciphertext,
      fun bytes hbytes => hO _ _ _ _ ((h.ciphertexts row hrow).ciphertext128 bytes hbytes)⟩
  digests row hrow := (h.digests row hrow).mono hO
  batches batch hbatch item hitem := (h.batches batch hbatch item hitem).mono hO
  jobs job hjob := (h.jobs job hjob).mono hO
  uploads u hu kind hstage := hO _ _ _ _ (h.uploads u hu kind hstage)

/-- A step that only loses what is under way. -/
theorem Origins.keep (h : Origins O keccak256 s)
    (hciphertexts : s'.db.ciphertexts = s.db.ciphertexts)
    (hdigests : s'.db.ciphertextDigest = s.db.ciphertextDigest) (hbatches : s'.batches ⊆ s.batches)
    (hjobs : s'.jobs ⊆ s.jobs) (huploads : s'.uploads ⊆ s.uploads) : Origins O keccak256 s' where
  ciphertexts row hrow := h.ciphertexts row (hciphertexts ▸ hrow)
  digests row hrow := h.digests row (hdigests ▸ hrow)
  batches batch hbatch := h.batches batch (hbatches hbatch)
  jobs job hjob := h.jobs job (hjobs hjob)
  uploads u hu := h.uploads u (huploads hu)

/-! ### Statements -/

/-- A row without digests. -/
theorem HandleItem.own_row (item : HandleItem) : item.row.Own O keccak256 := by
  intro kind digest hdigest
  cases kind <;> cases hdigest

/-- The batch of computed tasks sets ciphertexts of their own tenants. -/
theorem own_commitTasks {tasks : List HandleItem} (hrows : ∀ row ∈ db.ciphertexts.rows, row.Own O)
    (htasks : ∀ task ∈ tasks, task.Own O)
    (hown : ∀ task ∈ tasks, task.computed → db.OwnHandle task) :
    ∀ row ∈ (commitTasks db tasks).ciphertexts.rows, row.Own O := by
  let P : Ciphertext → Prop := fun row => row.Own O ∧
    ∃ old ∈ db.ciphertexts.rows, old.tenantId = row.tenantId ∧ old.handle = row.handle
  have hP : ∀ row ∈ (commitTasks db tasks).ciphertexts.rows, P row := by
    apply Table.forall_updateEach
    · exact fun row hrow => ⟨hrows row hrow, row, hrow, rfl, rfl⟩
    · rintro task htask row hselected ⟨hrow, old, hold, htenant, hhandle⟩
      simp only [Bool.and_eq_true, decide_eq_true_eq] at hselected
      obtain ⟨hcomputed, hsame⟩ := hselected
      refine ⟨⟨hrow.ciphertext, fun bytes hbytes => ?_⟩, old, hold, htenant, hhandle⟩
      -- the row that is selected is of the tenant of the task
      have htask' : row.tenantId = task.tenantId :=
        htenant ▸ (hown task htask hcomputed).2 old hold (hhandle.trans hsame)
      have horigin := htasks task htask .ct128 (HandleItem.computed_iff.mp hcomputed)
      rw [← htask', ← hsame] at horigin
      exact Option.some.inj hbytes ▸ horigin
  exact fun row hrow => (hP row hrow).1

theorem own_insertAll {tasks : List HandleItem}
    (hrows : ∀ row ∈ db.ciphertextDigest.rows, row.Own O keccak256) :
    ∀ row ∈ (commitTasks db tasks).ciphertextDigest.rows, row.Own O keccak256 := by
  intro row hrow
  obtain hold | ⟨task, -, rfl⟩ := mem_commitTasks hrow
  · exact hrows row hold
  · exact task.own_row

theorem pbsComputations_commit (u : Upload) (db : SnsDatabase) :
    (u.commit keccak256 db).pbsComputations = db.pbsComputations := by
  unfold Upload.commit Upload.updateCt64 Upload.updateCt128 Upload.enqueue
  split <;> split <;> split <;> rfl

/-- The rows whose digests an upload sets are of the tenant of its item. -/
theorem own_commit {u : Upload} (hrows : ∀ row ∈ db.ciphertextDigest.rows, row.Own O keccak256)
    (hu : ∀ kind, u.stage kind ≠ .skipped →
      O kind u.item.tenantId u.item.handle (u.item.content kind))
    (hown : u.stage .ct64 = .uploaded ∨ u.stage .ct128 = .uploaded →
      db.OwnDigest (u.item.tenantId, u.item.handle)) :
    ∀ row ∈ (u.commit keccak256 db).ciphertextDigest.rows, row.Own O keccak256 := by
  let P : CiphertextDigest → Prop := fun row => row.Own O keccak256 ∧
    (u.stage .ct64 = .uploaded ∨ u.stage .ct128 = .uploaded → row.handle = u.item.handle →
      row.tenantId = u.item.tenantId)
  have henqueue : ∀ row ∈ (u.enqueue db).ciphertextDigest.rows, P row := by
    intro row hrow
    obtain hold | rfl := mem_enqueue hrow
    · exact ⟨hrows row hold, fun hstage => hown hstage row hold⟩
    · exact ⟨u.item.own_row, fun _ _ => rfl⟩
  have hset : ∀ kind, u.stage kind = .uploaded → ∀ row, P row → row.handle = u.item.handle →
      ∃ bytes, O kind row.tenantId row.handle bytes ∧
        (u.item.object keccak256 kind).key = keccak256 bytes := by
    intro kind hstage row hP hhandle
    have huploaded : u.stage .ct64 = .uploaded ∨ u.stage .ct128 = .uploaded := by
      cases kind with
      | ct64 => exact .inl hstage
      | ct128 => exact .inr hstage
    have horigin := hu kind (by rw [hstage]; decide)
    rw [← hP.2 huploaded hhandle, ← hhandle] at horigin
    refine ⟨_, horigin, ?_⟩
    cases kind <;> rfl
  have h128 : ∀ row ∈ (u.updateCt128 keccak256 (u.enqueue db)).ciphertextDigest.rows, P row := by
    unfold Upload.updateCt128
    split
    · next hstage =>
      apply Table.forall_update_where henqueue
      · intro row hselected hP
        refine ⟨fun kind digest hdigest => ?_, hP.2⟩
        cases kind with
        | ct64 => exact hP.1 .ct64 digest hdigest
        | ct128 =>
          obtain rfl := Option.some.inj hdigest
          exact hset .ct128 hstage row hP (of_decide_eq_true hselected)
      · exact fun _ => rfl
    · exact henqueue
  have h64 : ∀ row ∈ (u.commit keccak256 db).ciphertextDigest.rows, P row := by
    unfold Upload.commit Upload.updateCt64
    split
    · next hstage =>
      apply Table.forall_update_where h128
      · intro row hselected hP
        refine ⟨fun kind digest hdigest => ?_, hP.2⟩
        cases kind with
        | ct128 => exact hP.1 .ct128 digest hdigest
        | ct64 =>
          obtain rfl := Option.some.inj hdigest
          exact hset .ct64 hstage row hP (of_decide_eq_true hselected)
      · exact fun _ => rfl
    · exact h128
  exact fun row hrow => (h64 row hrow).1

/-! ### Steps -/

/-- A task pairs a computation with a ciphertext of its tenant. -/
theorem own_querySnsTask {pair : (ℤ × Bytes) × (ℤ × Bytes × ℤ)} {item : HandleItem}
    (hrows : ∀ row ∈ db.ciphertexts.rows, row.Own O) (h : querySnsTask db pair = some item)
    (hpair : pair.2.1 = pair.1.1) : item.Own O := by
  simp only [querySnsTask, Option.bind_eq_bind, Option.bind_eq_some_iff, Option.pure_def,
    Option.some.injEq, Option.guard_eq_some'] at h
  obtain ⟨a, ha, c, hc, -, ⟨hhandle, -⟩, rfl⟩ := h
  obtain ⟨-, hakey⟩ := Table.get?_eq_some.mp ha
  obtain ⟨hcmem, hckey⟩ := Table.get?_eq_some.mp hc
  have htenant : c.tenantId = a.tenantId := by
    rw [← congrArg Prod.fst hakey, ← congrArg Prod.fst hckey] at hpair
    exact hpair
  intro kind hne
  cases kind with
  | ct64 =>
    have horigin := (hrows c hcmem).ciphertext
    rwa [htenant, ← hhandle] at horigin
  | ct128 => exact absurd rfl hne

theorem own_job {row : CiphertextDigest} {version : ℤ} {job : UploadJob}
    (hrows : ∀ row ∈ db.ciphertexts.rows, row.Own O)
    (h : row.job (db.ciphertexts.get? (row.tenantId, row.handle, version)) = some job) :
    job.item.Own O := by
  have hfound : ∀ c, db.ciphertexts.get? (row.tenantId, row.handle, version) = some c →
      c.Own O ∧ c.tenantId = row.tenantId ∧ c.handle = row.handle := by
    intro c hc
    obtain ⟨hmem, hkey⟩ := Table.get?_eq_some.mp hc
    simp only [Ciphertext.key, Prod.mk.injEq] at hkey
    exact ⟨hrows c hmem, hkey.1, hkey.2.1⟩
  intro kind hne
  cases kind with
  | ct64 =>
    simp only [CiphertextDigest.job, Option.bind_eq_bind, Option.bind_eq_some_iff, Option.pure_def,
      Option.some.injEq] at h
    obtain ⟨ct128, -, -, -, rfl⟩ := h
    change row.missingCt64 _ ≠ [] at hne
    change O .ct64 row.tenantId row.handle (row.missingCt64 _)
    unfold CiphertextDigest.missingCt64 at hne ⊢
    split at hne
    · cases hc : db.ciphertexts.get? (row.tenantId, row.handle, version) with
      | none => simp [hc] at hne
      | some c =>
        obtain ⟨hown, htenant, hhandle⟩ := hfound c hc
        rw [← htenant, ← hhandle]
        simpa [*] using hown.ciphertext
    · exact absurd rfl hne
  | ct128 =>
    obtain ⟨hnone, hbytes, hformat⟩ := job_eq_some h (HandleItem.computed_iff.mpr hne)
    have hct : job.item.ct128.bytes = row.missingCt128
        (db.ciphertexts.get? (row.tenantId, row.handle, version)) := by
      obtain ⟨format, -, hmk⟩ := Option.map_eq_some_iff.mp hformat
      rw [← hmk]
    have hkey : job.item.tenantId = row.tenantId ∧ job.item.handle = row.handle := by
      simp only [CiphertextDigest.job, Option.bind_eq_bind, Option.bind_eq_some_iff,
        Option.pure_def, Option.some.injEq] at h
      obtain ⟨ct128, -, -, -, rfl⟩ := h
      exact ⟨rfl, rfl⟩
    change O .ct128 job.item.tenantId job.item.handle job.item.ct128.bytes
    rw [hkey.1, hkey.2, hct]
    unfold CiphertextDigest.missingCt128 at hbytes ⊢
    rw [if_pos hnone] at hbytes ⊢
    cases hc : db.ciphertexts.get? (row.tenantId, row.handle, version) with
    | none => simp [hc] at hbytes
    | some c =>
      obtain ⟨hown, htenant, hhandle⟩ := hfound c hc
      rw [← htenant, ← hhandle]
      cases h128 : c.ciphertext128 with
      | none => simp [hc, h128] at hbytes
      | some bytes => simpa [h128] using hown.ciphertext128 bytes h128

theorem own_upload {item : HandleItem} {enqueues : Bool} (h : item.Own O) (kind : CtType)
    (hstage : (item.upload enqueues).stage kind ≠ .skipped) :
    O kind item.tenantId item.handle (item.content kind) := by
  refine h kind ?_
  cases kind with
  | ct64 =>
    intro hnil
    exact hstage (if_neg (not_not_intro hnil))
  | ct128 => exact HandleItem.computed_iff.mp (stage_upload hstage)

theorem Origins.setStage (h : Origins O keccak256 s) {u : Upload} {kind : CtType} {n : ℕ}
    {stage : Stage} (hu : u ∈ s.uploads) (hskipped : u.stage kind ≠ .skipped) :
    ∀ u' ∈ s.uploads.set n (u.setStage kind stage), ∀ kind, u'.stage kind ≠ .skipped →
      O kind u'.item.tenantId u'.item.handle (u'.item.content kind) := by
  intro u' hu' kind' hstage
  obtain hold | rfl := List.mem_or_eq_of_mem_set hu'
  · exact h.uploads u' hold kind' hstage
  · refine h.uploads u hu kind' fun hnone => hstage ?_
    have hkind : kind' ≠ kind := fun hkind => hskipped (hkind ▸ hnone)
    rw [u.stage_setStage_of_ne stage hkind, hnone]

/-- The origins of what is new: a ciphertext that is inserted, and what a worker computes from the
ciphertext of its own tenant. -/
structure NewOrigins (O : CtType → ℤ → Bytes → Bytes → Prop) (s : SnsState) (key : TenantKey)
    (i : SnsInput) : Prop where
  inserted : ∀ row, i = .insertCiphertext row →
    row.key ∉ s.db.ciphertexts.rows.map Ciphertext.key →
      O .ct64 row.tenantId row.handle row.ciphertext
  produced : ∀ p ∈ s.production key i, ∀ handle, O .ct64 key.1 handle p.ct64 →
    O .ct128 key.1 handle p.bytes

variable {key : TenantKey}

theorem Origins.compute (h : Origins O keccak256 s) {batch task : ℕ} {enableCompression : Bool}
    {squashed : Option Bytes} {sent : Bool} {tasks : List HandleItem} {item computed : HandleItem}
    (hnew : NewOrigins O s key (.computeTask batch task enableCompression squashed sent))
    (hown : s.OwnTenant key (.computeTask batch task enableCompression squashed sent))
    (htasks : s.batches[batch]? = some tasks) (hitem : tasks[task]? = some item)
    (hcompute : computeTask enableCompression squashed item = some computed) :
    Origins O keccak256 (s.compute batch task tasks computed sent) := by
  have hold : item.Own O :=
    h.batches tasks (List.mem_of_getElem? htasks) item (List.mem_of_getElem? hitem)
  have htenant : item.tenantId = key.1 :=
    hown tasks htasks item hitem (by rw [hcompute]; rfl)
  have hproduced : s.production key (.computeTask batch task enableCompression squashed sent) =
      some ⟨key, item.ct64Compressed, computed.ct128.bytes⟩ := by
    simp [SnsState.production, htasks, hitem, hcompute]
  have hcomputed : computed.Own O := by
    have hct64 : item.ct64Compressed ≠ [] := by
      intro hnil
      simp [computeTask, hnil] at hcompute
    have horigin := hold .ct64 hct64
    have horigin128 := hnew.produced _ hproduced item.handle (htenant ▸ horigin)
    obtain ⟨hsameTenant, hsameHandle⟩ := computeTask_eq_some hcompute
    have hsame : computed.ct64Compressed = item.ct64Compressed := by
      unfold computeTask at hcompute
      rw [if_neg hct64] at hcompute
      obtain ⟨bytes, -, rfl⟩ := Option.map_eq_some_iff.mp hcompute
      rfl
    intro kind _
    rw [hsameTenant, hsameHandle]
    cases kind with
    | ct64 =>
      change O .ct64 item.tenantId item.handle computed.ct64Compressed
      rw [hsame]
      exact horigin
    | ct128 => exact htenant ▸ horigin128
  refine { h with batches := fun b hb item' hitem' => ?_, jobs := fun job hjob => ?_ }
  · obtain hb | rfl := List.mem_or_eq_of_mem_set hb
    · exact h.batches b hb item' hitem'
    · obtain hitem' | rfl := List.mem_or_eq_of_mem_set hitem'
      · exact h.batches tasks (List.mem_of_getElem? htasks) item' hitem'
      · exact hcomputed
  · cases sent with
    | false => exact h.jobs job hjob
    | true =>
      obtain rfl | hjob := List.mem_cons.mp hjob
      · exact hcomputed
      · exact h.jobs job hjob

theorem Origins.step (h : Origins O keccak256 s) (hnew : NewOrigins O s key i)
    (hown : s.OwnTenant key i) (hstep : s.step keccak256 i = some s') :
    Origins O keccak256 s' := by
  cases i with
  | insertPbsComputation row =>
    obtain rfl := Option.some.inj hstep
    exact h.keep rfl rfl (fun _ => id) (fun _ => id) fun _ => id
  | insertCiphertext row =>
    obtain rfl := Option.some.inj hstep
    refine { h with ciphertexts := fun row' hrow' => ?_ }
    obtain hold | ⟨hfree, rfl⟩ := Table.mem_insert.mp hrow'
    · exact h.ciphertexts row' hold
    · exact ⟨hnew.inserted row rfl hfree, fun bytes hbytes => by cases hbytes⟩
  | querySnsTasks pairs =>
    simp only [SnsState.step, Option.bind_eq_bind, Option.bind_eq_some_iff, Option.pure_def,
      Option.some.injEq] at hstep
    obtain ⟨tasks, htasks, rfl⟩ := hstep
    refine { h with batches := fun b hb item hitem => ?_ }
    obtain rfl | hb := List.mem_cons.mp hb
    · obtain ⟨pair, hpair, htask⟩ := exists_of_mem_mapM_some htasks hitem
      exact own_querySnsTask h.ciphertexts htask (hown pair hpair)
    · exact h.batches b hb item hitem
  | computeTask batch task enableCompression squashed sent =>
    simp only [SnsState.step, Option.bind_eq_bind, Option.bind_eq_some_iff, Option.pure_def] at hstep
    obtain ⟨tasks, htasks, item, hitem, -, -, hcompute⟩ := hstep
    split at hcompute
    · next hcomputed =>
      obtain rfl := Option.some.inj hcompute
      exact h.compute hnew hown htasks hitem hcomputed
    · obtain rfl := Option.some.inj hcompute
      exact h
  | commitTasks batch =>
    simp only [SnsState.step, Option.bind_eq_bind, Option.bind_eq_some_iff, Option.pure_def,
      Option.some.injEq] at hstep
    obtain ⟨tasks, htasks, rfl⟩ := hstep
    have hitems := h.batches tasks (List.mem_of_getElem? htasks)
    exact { h with
      ciphertexts := own_commitTasks h.ciphertexts hitems (hown tasks htasks)
      digests := own_insertAll h.digests
      batches := fun b hb => h.batches b (List.mem_of_mem_eraseIdx hb) }
  | abortTasks batch =>
    obtain rfl := Option.some.inj hstep
    exact h.keep rfl rfl (fun _ => List.mem_of_mem_eraseIdx) (fun _ => id) fun _ => id
  | fetchPendingUploads key =>
    simp only [SnsState.step, Option.bind_eq_bind, Option.bind_eq_some_iff, Option.pure_def,
      Option.some.injEq] at hstep
    obtain ⟨row, -, -, -, rfl⟩ := hstep
    exact h.keep rfl rfl (fun _ => id) (fun _ => id) fun _ => id
  | resubmit i version =>
    simp only [SnsState.step, Option.bind_eq_bind, Option.bind_eq_some_iff, Option.pure_def,
      Option.some.injEq] at hstep
    obtain ⟨row, -, rfl⟩ := hstep
    refine { h with jobs := fun job hjob => ?_ }
    obtain hjob | hjob := List.mem_append.mp hjob
    · exact own_job h.ciphertexts (Option.mem_toList.mp hjob)
    · exact h.jobs job hjob
  | abortResubmit i =>
    obtain rfl := Option.some.inj hstep
    exact h.keep rfl rfl (fun _ => id) (fun _ => id) fun _ => id
  | receive i =>
    simp only [SnsState.step, Option.bind_eq_bind, Option.bind_eq_some_iff, Option.pure_def,
      Option.some.injEq] at hstep
    obtain ⟨job, hjob, rfl⟩ := hstep
    have hkept : Origins O keccak256 { s with jobs := s.jobs.eraseIdx i } :=
      h.keep rfl rfl (fun _ => id) (fun _ => List.mem_of_mem_eraseIdx) fun _ => id
    have hitem := h.jobs job (List.mem_of_getElem? hjob)
    have hstart : ∀ enqueues, Origins O keccak256 { s with
        jobs := s.jobs.eraseIdx i, uploads := job.item.upload enqueues :: s.uploads } := by
      intro enqueues
      refine { hkept with uploads := fun u hu kind hstage => ?_ }
      obtain rfl | hold := List.mem_cons.mp hu
      · exact own_upload hitem kind hstage
      · exact h.uploads u hold kind hstage
    cases job with
    | normal item => exact hstart true
    | databaseLock item =>
      simp only [SnsState.receive]
      split
      · split
        · exact hstart false
        · exact hkept
      · exact hkept
  | dropJob i =>
    obtain rfl := Option.some.inj hstep
    exact h.keep rfl rfl (fun _ => id) (fun _ => List.mem_of_mem_eraseIdx) fun _ => id
  | checkObject i kind =>
    simp only [SnsState.step, Option.bind_eq_bind, Option.bind_eq_some_iff, Option.pure_def,
      Option.some.injEq, Option.guard_eq_some'] at hstep
    obtain ⟨u, hu, -, ⟨hunchecked, -⟩, rfl⟩ := hstep
    exact { h with
      uploads := h.setStage (List.mem_of_getElem? hu) (by rw [hunchecked]; decide) }
  | putObject i kind stored acknowledged =>
    simp only [SnsState.step, Option.bind_eq_bind, Option.bind_eq_some_iff, Option.pure_def,
      Option.some.injEq, Option.guard_eq_some'] at hstep
    obtain ⟨u, hu, -, ⟨habsent, -⟩, rfl⟩ := hstep
    exact { h with uploads := h.setStage (List.mem_of_getElem? hu) (by rw [habsent]; decide) }
  | commitUpload i =>
    simp only [SnsState.step, Option.bind_eq_bind, Option.bind_eq_some_iff, Option.pure_def,
      Option.some.injEq] at hstep
    obtain ⟨u, hu, -, -, rfl⟩ := hstep
    have hitem := h.uploads u (List.mem_of_getElem? hu)
    exact { h with
      ciphertexts := fun row hrow => h.ciphertexts row (ciphertexts_commit u s.db ▸ hrow)
      digests := own_commit h.digests hitem (hown u hu)
      uploads := fun u' hu' => h.uploads u' (List.mem_of_mem_eraseIdx hu') }
  | abortUpload i =>
    obtain rfl := Option.some.inj hstep
    exact h.keep rfl rfl (fun _ => id) (fun _ => id) fun _ => List.mem_of_mem_eraseIdx
  | garbageCollect picked =>
    obtain rfl := Option.some.inj hstep
    refine { h with ciphertexts := ?_ }
    apply Table.forall_update h.ciphertexts
    · intro row hrow
      exact ⟨hrow.ciphertext, fun bytes hbytes => by cases hbytes⟩
    · exact fun _ => rfl

/-- Ciphertexts stay; only their 128-bit ciphertexts are set and cleared. -/
theorem keeps_ciphertexts {P : Ciphertext → Prop}
    (hP : ∀ row ciphertext128, P row → P { row with ciphertext128 })
    (hstep : s.step keccak256 i = some s') : Table.Keeps P s.db.ciphertexts s'.db.ciphertexts := by
  cases i with
  | insertCiphertext row =>
    obtain rfl := Option.some.inj hstep
    exact .insert _ _
  | commitTasks batch =>
    simp only [SnsState.step, Option.bind_eq_bind, Option.bind_eq_some_iff, Option.pure_def,
      Option.some.injEq] at hstep
    obtain ⟨tasks, -, rfl⟩ := hstep
    exact .updateEach _ _ fun task row _ hrow => hP row _ hrow
  | commitUpload n =>
    simp only [SnsState.step, Option.bind_eq_bind, Option.bind_eq_some_iff, Option.pure_def,
      Option.some.injEq] at hstep
    obtain ⟨u, -, -, -, rfl⟩ := hstep
    rw [ciphertexts_commit]
    exact .refl _
  | garbageCollect picked =>
    obtain rfl := Option.some.inj hstep
    apply Table.Keeps.update
    · exact fun _ => rfl
    · exact fun row _ hrow => hP row _ hrow
  | computeTask batch task enableCompression squashed sent =>
    simp only [SnsState.step, Option.bind_eq_bind, Option.bind_eq_some_iff, Option.pure_def] at hstep
    obtain ⟨tasks, -, item, -, -, -, hcompute⟩ := hstep
    split at hcompute <;> obtain rfl := Option.some.inj hcompute <;> exact .refl _
  | receive n =>
    simp only [SnsState.step, Option.bind_eq_bind, Option.bind_eq_some_iff, Option.pure_def,
      Option.some.injEq] at hstep
    obtain ⟨job, -, rfl⟩ := hstep
    cases job with
    | normal item => exact .refl _
    | databaseLock item =>
      simp only [SnsState.receive]
      split
      · split <;> exact .refl _
      · exact .refl _
  | querySnsTasks _ | fetchPendingUploads _ | resubmit _ _ | checkObject _ _ | putObject _ _ _ _ =>
    simp only [SnsState.step, Option.bind_eq_bind, Option.bind_eq_some_iff, Option.pure_def,
      Option.some.injEq, Option.guard_eq_some'] at hstep
    grind [Table.Keeps.refl]
  | insertPbsComputation _ | abortTasks _ | abortResubmit _ | dropJob _ | abortUpload _ =>
    obtain rfl := Option.some.inj hstep
    exact .refl _

theorem SnsDatabase.HasCiphertext.step {tenantId : ℤ} {handle bytes : Bytes}
    (h : s.db.HasCiphertext tenantId handle bytes) (hstep : s.step keccak256 i = some s') :
    s'.db.HasCiphertext tenantId handle bytes := by
  obtain ⟨row, hrow, hbytes⟩ := h
  have hkeeps := keeps_ciphertexts (P := fun row =>
    row.tenantId = tenantId ∧ row.handle = handle ∧ row.ciphertext = bytes) (fun _ _ hP => hP) hstep
  obtain ⟨row', hrow', -, hbytes'⟩ := hkeeps row hrow hbytes
  exact ⟨row', hrow', hbytes'⟩

/-! ### Rows of other keys -/

theorem SnsDatabase.SameAt.refl (db : SnsDatabase) (k : ℤ × Bytes) : db.SameAt db k :=
  ⟨rfl, fun _ => rfl, rfl⟩

/-- A row that is not that of the item does not have the handle of the item. -/
theorem handle_ne {α κ : Type} [DecidableEq κ] {rowKey : α → κ} {t : Table rowKey}
    {tenantId : ℤ} {handle : Bytes} {k : ℤ × Bytes} {k' : κ} {rowTenant : α → ℤ}
    {rowHandle : α → Bytes}
    (hown : ∀ row ∈ t.rows, rowHandle row = handle → rowTenant row = tenantId)
    (hkey : ∀ row, rowKey row = k' → rowTenant row = k.1 ∧ rowHandle row = k.2)
    (hk : k ≠ (tenantId, handle)) (hrow : t.get? k' ≠ none) : k.2 ≠ handle := by
  intro hhandle
  obtain ⟨row, hget⟩ := Option.ne_none_iff_exists'.mp hrow
  obtain ⟨hmem, hrowKey⟩ := Table.get?_eq_some.mp hget
  obtain ⟨htenant, hrowHandle⟩ := hkey row hrowKey
  have hsame := hown row hmem (hrowHandle.trans hhandle)
  exact hk (Prod.ext (htenant.symm.trans hsame) hhandle)

theorem sameAt_commitTasks {tasks : List HandleItem}
    (hown : ∀ task ∈ tasks, task.computed → db.OwnHandle task) {k : ℤ × Bytes}
    (hk : k ∉ tasks.map fun task => (task.tenantId, task.handle)) :
    db.SameAt (commitTasks db tasks) k := by
  have hne : ∀ task ∈ tasks, k ≠ (task.tenantId, task.handle) := fun task htask heq =>
    hk (List.mem_map.mpr ⟨task, htask, heq.symm⟩)
  constructor
  · apply Table.get?_updateEach_of
    intro task htask row hkey hrow
    by_contra hselected
    simp only [Bool.not_eq_false, Bool.and_eq_true, decide_eq_true_eq] at hselected
    refine handle_ne (hown task htask hselected.1).1 ?_ (hne task htask) hrow ?_
    · exact fun row hkey => ⟨congrArg Prod.fst hkey, congrArg Prod.snd hkey⟩
    · exact (congrArg Prod.snd hkey).symm.trans hselected.2
  · intro version
    apply Table.get?_updateEach_of
    intro task htask row hkey hrow
    by_contra hselected
    simp only [Bool.not_eq_false, Bool.and_eq_true, decide_eq_true_eq] at hselected
    refine handle_ne (hown task htask hselected.1).2 ?_ (hne task htask) hrow ?_
    · exact fun row hkey => ⟨congrArg Prod.fst hkey, congrArg (fun key => key.2.1) hkey⟩
    · exact (congrArg (fun key => key.2.1) hkey).symm.trans hselected.2
  · apply Table.get?_insertAll_of
    rw [List.map_map]
    exact hk

/-- An upload sets the digests of rows with the handle of its item only. -/
theorem sameAt_commit {u : Upload}
    (hown : u.stage .ct64 = .uploaded ∨ u.stage .ct128 = .uploaded →
      db.OwnDigest (u.item.tenantId, u.item.handle)) {k : ℤ × Bytes}
    (hk : k ≠ (u.item.tenantId, u.item.handle)) : db.SameAt (u.commit keccak256 db) k := by
  have henqueue : (u.enqueue db).ciphertextDigest.get? k = db.ciphertextDigest.get? k := by
    unfold Upload.enqueue
    split
    · apply Table.get?_insertAll_of _ [u.item.row]
      simpa [CiphertextDigest.key, HandleItem.row] using hk
    · rfl
  have hselected : u.stage .ct64 = .uploaded ∨ u.stage .ct128 = .uploaded →
      db.ciphertextDigest.get? k ≠ none → k.2 ≠ u.item.handle := fun huploaded =>
    handle_ne (hown huploaded) (fun row hkey => ⟨congrArg Prod.fst hkey, congrArg Prod.snd hkey⟩) hk
  have h128 : (u.updateCt128 keccak256 (u.enqueue db)).ciphertextDigest.get? k =
      db.ciphertextDigest.get? k := by
    refine Eq.trans ?_ henqueue
    unfold Upload.updateCt128
    split
    · next hstage =>
      apply Table.get?_update_of
      · exact fun _ => rfl
      intro row hkey hrow
      have hhandle := hselected (.inr hstage) (henqueue ▸ hrow)
      exact decide_eq_false fun hsame => hhandle ((congrArg Prod.snd hkey).symm.trans hsame)
    · rfl
  refine ⟨?_, fun version => ?_, ?_⟩
  · rw [pbsComputations_commit]
  · rw [ciphertexts_commit]
  · refine Eq.trans ?_ h128
    unfold Upload.commit Upload.updateCt64
    split
    · next hstage =>
      apply Table.get?_update_of
      · exact fun _ => rfl
      intro row hkey hrow
      have hhandle := hselected (.inl hstage) (h128 ▸ hrow)
      exact decide_eq_false fun hsame => hhandle ((congrArg Prod.snd hkey).symm.trans hsame)
    · rfl

theorem SnsState.sameAt_step (hown : s.OwnTenant key i) (hstep : s.step keccak256 i = some s')
    {k : ℤ × Bytes} (hk : k ∉ s.doneFor i) : s.db.SameAt s'.db k := by
  cases i with
  | insertPbsComputation row =>
    obtain rfl := Option.some.inj hstep
    refine ⟨?_, fun _ => rfl, rfl⟩
    exact Table.get?_insertAll_of _ [_] (by simpa [doneFor, PbsComputation.key] using hk)
  | insertCiphertext row =>
    obtain rfl := Option.some.inj hstep
    refine ⟨rfl, fun version => ?_, rfl⟩
    apply Table.get?_insertAll_of _ [_]
    simp only [doneFor, List.mem_singleton] at hk
    simp only [List.map_cons, List.map_nil, List.mem_singleton, Ciphertext.key, Prod.mk.injEq]
    exact fun hsame => hk (Prod.ext hsame.1 hsame.2.1)
  | commitTasks batch =>
    simp only [SnsState.step, Option.bind_eq_bind, Option.bind_eq_some_iff, Option.pure_def,
      Option.some.injEq] at hstep
    obtain ⟨tasks, htasks, rfl⟩ := hstep
    simp only [doneFor, htasks, Option.getD_some] at hk
    exact sameAt_commitTasks (hown tasks htasks) hk
  | commitUpload n =>
    simp only [SnsState.step, Option.bind_eq_bind, Option.bind_eq_some_iff, Option.pure_def,
      Option.some.injEq] at hstep
    obtain ⟨u, hu, -, -, rfl⟩ := hstep
    simp only [doneFor, hu, Option.toList_some, List.map_cons, List.map_nil,
      List.mem_singleton] at hk
    exact sameAt_commit (hown u hu) hk
  | garbageCollect picked =>
    obtain rfl := Option.some.inj hstep
    refine ⟨rfl, fun version => ?_, rfl⟩
    apply Table.get?_update_of
    · exact fun _ => rfl
    intro row hkey _
    refine decide_eq_false fun hcollected => hk ?_
    refine List.mem_map.mpr ⟨row.key, hcollected.1, ?_⟩
    rw [hkey]
  | computeTask batch task enableCompression squashed sent =>
    simp only [SnsState.step, Option.bind_eq_bind, Option.bind_eq_some_iff, Option.pure_def] at hstep
    obtain ⟨tasks, -, item, -, -, -, hcompute⟩ := hstep
    split at hcompute <;> obtain rfl := Option.some.inj hcompute <;> exact .refl _ _
  | receive n =>
    simp only [SnsState.step, Option.bind_eq_bind, Option.bind_eq_some_iff, Option.pure_def,
      Option.some.injEq] at hstep
    obtain ⟨job, -, rfl⟩ := hstep
    cases job with
    | normal item => exact .refl _ _
    | databaseLock item =>
      simp only [SnsState.receive]
      split
      · split <;> exact .refl _ _
      · exact .refl _ _
  | querySnsTasks _ | fetchPendingUploads _ | resubmit _ _ | checkObject _ _ | putObject _ _ _ _ =>
    simp only [SnsState.step, Option.bind_eq_bind, Option.bind_eq_some_iff, Option.pure_def,
      Option.some.injEq, Option.guard_eq_some'] at hstep
    grind [SnsDatabase.SameAt.refl]
  | abortTasks _ | abortResubmit _ | dropJob _ | abortUpload _ =>
    obtain rfl := Option.some.inj hstep
    exact .refl _ _

end Workers

/-! ## Runs -/

section Runs

variable (keccak256 : Bytes → Bytes32)

/-- What is stored, recorded and sent for a handle has its origin with the tenant. -/
structure TenantsApart (s : TenantsState) : Prop where
  stored : ∀ row ∈ s.sns.db.ciphertexts.rows, row.Own s.Origin
  recorded : ∀ row ∈ s.sns.db.ciphertextDigest.rows, row.Own s.Origin keccak256
  sent : ∀ call ∈ s.calls, call.Own s.Origin keccak256 s.keyIds

/-- What a step can do to the origins. -/
structure TenantsInvariant (s : TenantsState) : Prop where
  origins : Origins s.Origin keccak256 s.sns
  selected : ∀ row ∈ s.selected, row.Own s.Origin keccak256
  sent : ∀ call ∈ s.calls, call.Own s.Origin keccak256 s.keyIds

variable {keccak256} {maxRetries : ℕ} {s s' : TenantsState}

/-- What has an origin keeps it when keys are activated and when more is computed. -/
theorem origin_mono (hkeys : s.keyIds ⊆ s'.keyIds) (hproductions : s.productions ⊆ s'.productions)
    (hct : s.sns.db.HasCiphertext ≤ s'.sns.db.HasCiphertext) : s.Origin ≤ s'.Origin := by
  intro kind tenantId handle bytes h
  cases kind with
  | ct64 => exact hct _ _ _ h
  | ct128 =>
    obtain ⟨p, hp, hkey, htenant, hct64, hbytes⟩ := h
    exact ⟨p, hproductions hp, hkeys hkey, htenant, hct _ _ _ hct64, hbytes⟩

theorem own_prepare {row : CiphertextDigest} {call : TenantCall}
    (hrow : row.Own s.Origin keccak256) (h : s.prepare row = some call) :
    call.Own s.Origin keccak256 s.keyIds := by
  simp only [TenantsState.prepare, Option.bind_eq_bind, Option.bind_eq_some_iff, Option.pure_def,
    Option.some.injEq] at h
  obtain ⟨keyId, hkeyId, ct, hct, ct128, hct128, handle, hhandle, rfl⟩ := h
  obtain ⟨key, hfind, rfl⟩ := Option.map_eq_some_iff.mp hkeyId
  have htenant : key.1 = row.tenantId := by simpa using List.find?_some hfind
  refine ⟨hhandle, ⟨key.2, ?_, rfl⟩, hrow .ct64 ct hct, hrow .ct128 ct128 hct128⟩
  rw [← htenant]
  exact List.mem_of_find?_eq_some hfind

/-- A step of a worker or of an upload. -/
theorem TenantsInvariant.sns (h : TenantsInvariant keccak256 s) {key : TenantKey} {i : SnsInput}
    {sns : SnsState} (hown : s.sns.OwnTenant key i) (hstep : s.sns.step keccak256 i = some sns)
    (hkey : (s.sns.production key i).isSome → key ∈ s.keyIds) :
    TenantsInvariant keccak256 { s with
      sns, productions := (s.sns.production key i).toList ++ s.productions } := by
  have hO := @origin_mono s
    { s with sns, productions := (s.sns.production key i).toList ++ s.productions }
    (fun _ => id) (List.subset_append_right _ _) fun _ _ _ hct => hct.step hstep
  refine ⟨?_, fun row hrow => (h.selected row hrow).mono hO,
    fun call hcall => (h.sent call hcall).mono (fun _ => id) hO⟩
  refine (h.origins.mono hO).step ⟨?_, ?_⟩ hown hstep
  · rintro row rfl hfree
    obtain rfl := Option.some.inj hstep
    exact ⟨_, Table.mem_insert.mpr (.inr ⟨hfree, rfl⟩), rfl, rfl, rfl⟩
  · intro p hp handle hct64
    have hproduced : p.key = key := by
      cases i with
      | computeTask batch task enableCompression squashed sent =>
        simp only [SnsState.production, Option.bind_eq_bind, Option.pure_def, Option.mem_def,
          Option.bind_eq_some_iff, Option.some.injEq] at hp
        obtain ⟨_, -, _, -, _, -, rfl⟩ := hp
        rfl
      | _ => cases hp
    refine ⟨p, List.mem_append_left _ (Option.mem_toList.mpr hp), ?_, ?_, hct64, rfl⟩
    · rw [hproduced]
      exact hkey (Option.isSome_of_mem hp)
    · rw [hproduced]

theorem TenantsInvariant.step (h : TenantsInvariant keccak256 s) {i : TenantsInput}
    (hown : OwnTenant s i) (hstep : s.step keccak256 maxRetries i = some s') :
    TenantsInvariant keccak256 s' := by
  cases i with
  | activateKey key =>
    obtain rfl := Option.some.inj hstep
    have hO := @origin_mono s { s with keyIds := key :: s.keyIds }
      (List.subset_cons_self _ _) (fun _ => id) fun _ _ _ => id
    exact ⟨h.origins.mono hO, fun row hrow => (h.selected row hrow).mono hO,
      fun call hcall => (h.sent call hcall).mono (List.subset_cons_self _ _) hO⟩
  | sns key i =>
    simp only [TenantsState.step, Option.bind_eq_bind, Option.bind_eq_some_iff, Option.pure_def,
      Option.some.injEq, Option.guard_eq_some'] at hstep
    obtain ⟨sns, hsns, -, hkey, rfl⟩ := hstep
    exact h.sns hown hsns hkey
  | selectRow key =>
    simp only [TenantsState.step, Option.bind_eq_bind, Option.bind_eq_some_iff, Option.pure_def,
      Option.some.injEq] at hstep
    obtain ⟨row, hrow, -, -, rfl⟩ := hstep
    refine ⟨h.origins, fun row' hrow' => ?_, h.sent⟩
    obtain rfl | hold := List.mem_cons.mp hrow'
    · exact h.origins.digests row' (Table.get?_eq_some.mp hrow).1
    · exact h.selected row' hold
  | addCiphertextMaterial i =>
    simp only [TenantsState.step, Option.bind_eq_bind, Option.bind_eq_some_iff, Option.pure_def,
      Option.some.injEq] at hstep
    obtain ⟨row, hrow, call, hcall, rfl⟩ := hstep
    refine ⟨h.origins, fun row' hrow' => h.selected row' (List.mem_of_mem_eraseIdx hrow'),
      fun call' hcall' => ?_⟩
    obtain rfl | hold := List.mem_cons.mp hcall'
    · exact own_prepare (h.selected row (List.mem_of_getElem? hrow)) hcall
    · exact h.sent call' hold
  | skipRow i =>
    obtain rfl := Option.some.inj hstep
    exact ⟨h.origins, fun row' hrow' => h.selected row' (List.mem_of_mem_eraseIdx hrow'), h.sent⟩
  | endTransaction i books =>
    simp only [TenantsState.step, Option.bind_eq_bind, Option.bind_eq_some_iff, Option.pure_def,
      Option.some.injEq] at hstep
    obtain ⟨key, -, rfl⟩ := hstep
    exact ⟨h.origins, h.selected, h.sent⟩

/-- The statements of the sender select the row of their tenant only. -/
theorem TenantsState.sameAt_step {i : TenantsInput} (hown : OwnTenant s i)
    (hstep : s.step keccak256 maxRetries i = some s') {k : ℤ × Bytes} (hk : k ∉ s.doneFor i) :
    s.SameAt s' k := by
  cases i with
  | sns key i =>
    simp only [TenantsState.step, Option.bind_eq_bind, Option.bind_eq_some_iff, Option.pure_def,
      Option.some.injEq] at hstep
    obtain ⟨sns, hsns, -, -, rfl⟩ := hstep
    exact ⟨SnsState.sameAt_step hown hsns hk, rfl⟩
  | endTransaction i books =>
    simp only [TenantsState.step, Option.bind_eq_bind, Option.bind_eq_some_iff, Option.pure_def,
      Option.some.injEq] at hstep
    obtain ⟨key, hkey, rfl⟩ := hstep
    refine ⟨.refl _ _, if_neg ?_⟩
    rintro ⟨hhandle, hrow⟩
    simp only [doneFor, hkey, Option.toList_some, List.mem_singleton] at hk
    exact handle_ne (hown key hkey) (fun row hrowKey =>
      ⟨congrArg Prod.fst hrowKey, congrArg Prod.snd hrowKey⟩) hk
      (Option.isSome_iff_ne_none.mp hrow) hhandle
  | selectRow _ | addCiphertextMaterial _ =>
    simp only [TenantsState.step, Option.bind_eq_bind, Option.bind_eq_some_iff, Option.pure_def,
      Option.some.injEq] at hstep
    grind [TenantsState.SameAt, SnsDatabase.SameAt.refl]
  | activateKey _ | skipRow _ =>
    obtain rfl := Option.some.inj hstep
    exact ⟨.refl _ _, rfl⟩

/-- Tenants are kept apart in runs of steps on rows of one tenant each, and each such step leaves
the rows of the others. -/
theorem tenants_apart {past : List TenantsInput}
    (h : (tenantsWorker keccak256 maxRetries).Run OwnTenant past s) :
    TenantsApart keccak256 s ∧ ∀ i s', OwnTenant s i → s.step keccak256 maxRetries i = some s' →
      ∀ k, k ∉ s.doneFor i → s.SameAt s' k := by
  have hinvariant : TenantsInvariant keccak256 s := by
    apply h.invariant
    · constructor
      · constructor <;> simp [tenantsWorker, snsWorker]
      all_goals simp [tenantsWorker]
    · intro past i s s' _ hs hown hstep
      exact hs.step hown hstep
  refine ⟨⟨hinvariant.origins.ciphertexts, hinvariant.origins.digests, hinvariant.sent⟩, ?_⟩
  intro i s' hown hstep k hk
  exact TenantsState.sameAt_step hown hstep hk

end Runs

/-! ## Samples -/

def sampleHandle (tenantId : ℕ) : Bytes := List.replicate 32 (UInt8.ofNat tenantId)

/-- Two tenants have a handle each. That of the first is computed, uploaded and sent. -/
def sampleTenantInputs : List TenantsInput :=
  let worker := TenantsInput.sns (1, [5])
  [.endTransaction 0 (.sent (some 77) (some 4)), .addCiphertextMaterial 0,
    .selectRow (1, sampleHandle 1), worker (.commitUpload 0), worker (.putObject 0 .ct64 true true),
    worker (.putObject 0 .ct128 true true), worker (.checkObject 0 .ct64),
    worker (.checkObject 0 .ct128), worker (.receive 0), worker (.commitTasks 0),
    worker (.computeTask 0 0 false (some [1, 2, 3]) true),
    worker (.querySnsTasks [((1, sampleHandle 1), (1, sampleHandle 1, 0))]),
    worker (.insertCiphertext ⟨2, sampleHandle 2, 0, [8, 8], none⟩),
    worker (.insertPbsComputation ⟨2, sampleHandle 2, none, false⟩),
    worker (.insertCiphertext ⟨1, sampleHandle 1, 0, [9], none⟩),
    worker (.insertPbsComputation ⟨1, sampleHandle 1, none, false⟩), .activateKey (1, [5])]

theorem sampleTenants_apart : ∃ s, (tenantsWorker sampleHash 3).replay OwnTenant
    sampleTenantInputs = some s ∧
      s.calls.map (fun call => (call.args.keyId, call.args.snsCiphertextDigest)) = [(5, 3)] ∧
      TenantsApart sampleHash s := by
  have hcalls : ((tenantsWorker sampleHash 3).replay OwnTenant sampleTenantInputs).map
      (fun s => s.calls.map fun call => (call.args.keyId, call.args.snsCiphertextDigest)) =
        some [(5, 3)] := by decide +kernel
  obtain ⟨s, hs, hcall⟩ := Option.map_eq_some_iff.mp hcalls
  exact ⟨s, hs, hcall, (tenants_apart (System.run_of_replay hs)).1⟩

/-- The ciphertext of the second tenant is joined with the computation of the first, which has the
same handle. The first tenant is then given what has been computed from it. -/
def sampleJoinInputs : List TenantsInput :=
  let worker := TenantsInput.sns (1, [5])
  [worker (.commitTasks 0), worker (.computeTask 0 0 false (some [1, 2, 3]) true),
    worker (.querySnsTasks [((1, [7]), (2, [7], 0))]),
    worker (.insertCiphertext ⟨2, [7], 0, [8, 8], none⟩),
    worker (.insertCiphertext ⟨1, [7], 0, [9], none⟩),
    worker (.insertPbsComputation ⟨1, [7], none, false⟩), .activateKey (1, [5])]

theorem sampleJoin_not_apart : ¬ ∀ past s,
    (tenantsWorker sampleHash 3).Run (fun _ _ => True) past s → TenantsApart sampleHash s ∧
      ∀ i s', s.step sampleHash 3 i = some s' → ∀ k, k ∉ s.doneFor i → s.SameAt s' k := by
  intro h
  have hrows : ((tenantsWorker sampleHash 3).replay (fun _ _ => True) sampleJoinInputs).map
      (fun s => (s.sns.db.ciphertexts.rows, s.productions)) =
        some ([⟨1, [7], 0, [9], some [1, 2, 3]⟩, ⟨2, [7], 0, [8, 8], some [1, 2, 3]⟩],
          [⟨(1, [5]), [8, 8], [1, 2, 3]⟩]) := by decide +kernel
  obtain ⟨s, hs, heq⟩ := Option.map_eq_some_iff.mp hrows
  obtain ⟨hciphertexts, hproductions⟩ := Prod.mk.inj heq
  have hstored := ((h _ s (System.run_of_replay hs)).1.stored ⟨1, [7], 0, [9], some [1, 2, 3]⟩
    (hciphertexts ▸ List.mem_cons_self)).ciphertext128 [1, 2, 3] rfl
  obtain ⟨p, hp, -, -, ⟨row, hrow, htenant, -, hct64⟩, -⟩ := hstored
  rw [hproductions, List.mem_singleton] at hp
  subst hp
  rw [hciphertexts] at hrow
  simp only [List.mem_cons, List.not_mem_nil, or_false] at hrow
  obtain rfl | rfl := hrow
  · exact absurd hct64 (by decide)
  · exact absurd htenant (by decide)

end Fhevm.Sns
