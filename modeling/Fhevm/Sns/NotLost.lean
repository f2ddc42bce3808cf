import Fhevm.Sns.FormatRecorded

/-!
# No 128-bit ciphertext is lost

A digest is that of an object of its bucket, the 128-bit ciphertext of a row is cleared only when it
has a digest, and what has been computed is in the database until then. The last holds as long as a
batch completes no computation of another tenant: statements select by the handle alone.

## Main definitions

* `Stored`, `ClearsUploaded`, `Retained` — the three parts.
* `MarksOwn` — a batch completes its own computations.
* `not_lost` — the three parts hold in runs of such batches.
-/

namespace Fhevm.Sns

open Foundation

/-! ## Where a 128-bit ciphertext is -/

/-- Every digest is the key of an object in the bucket of its kind. -/
def Stored (s : SnsState) : Prop :=
  ∀ row ∈ s.db.ciphertextDigest.rows, ∀ kind digest, row.digest kind = some digest →
    s.buckets.checkObjectExists kind digest = true

/-- The row has a 128-bit ciphertext. -/
def HasBlob (c : Ciphertext) : Prop := ∃ bytes, c.ciphertext128 = some bytes ∧ bytes ≠ []

/-- The row of a computation is there, and has the digest unless the database has the 128-bit
ciphertext. -/
def Retained (db : SnsDatabase) (p : PbsComputation) : Prop :=
  ∃ row ∈ db.ciphertextDigest.rows, row.key = p.key ∧ (row.ciphertext128 ≠ none ∨
    ∃ c ∈ db.ciphertexts.rows, c.tenantId = p.tenantId ∧ c.handle = p.handle ∧ HasBlob c)

/-- The computations that a batch completes. -/
def marks (db : SnsDatabase) (tasks : List HandleItem) : List PbsComputation :=
  db.pbsComputations.rows.filter fun p =>
    !p.isCompleted && tasks.any fun task => task.computed && p.handle = task.handle

/-- The batch that a step commits. -/
def SnsState.committed (s : SnsState) : SnsInput → List HandleItem
  | .commitTasks batch => s.batches[batch]?.getD []
  | _ => []

/-- A computation that is completed is a task of its batch, and its tenant has its ciphertext. -/
def MarksOwn (s : SnsState) (i : SnsInput) : Prop :=
  ∀ p ∈ marks s.db (s.committed i), (∃ task ∈ s.committed i, task.row.key = p.key) ∧
    ∃ c ∈ s.db.ciphertexts.rows, c.tenantId = p.tenantId ∧ c.handle = p.handle

instance : DecidableRel MarksOwn := fun s i =>
  inferInstanceAs (Decidable (∀ p ∈ marks s.db (s.committed i),
    (∃ task ∈ s.committed i, task.row.key = p.key) ∧
      ∃ c ∈ s.db.ciphertexts.rows, c.tenantId = p.tenantId ∧ c.handle = p.handle))

/-! ## What statements keep -/

/-- Rows stay, and keep their digests and 128-bit ciphertexts. -/
structure DbKeeps (db db' : SnsDatabase) : Prop where
  rows : Table.Keeps (fun _ => True) db.ciphertextDigest db'.ciphertextDigest
  digests : Table.Keeps (fun row => row.ciphertext128 ≠ none) db.ciphertextDigest
    db'.ciphertextDigest
  blobs : Table.Keeps HasBlob db.ciphertexts db'.ciphertexts

section Statements

variable {keccak256 : Bytes → Bytes32} {db db' : SnsDatabase} {p : PbsComputation}
  {tasks : List HandleItem}

theorem Retained.mono (h : Retained db p) (hkeeps : DbKeeps db db') : Retained db' p := by
  obtain ⟨row, hrow, hkey, hdigest | ⟨c, hc, htenant, hhandle, hblob⟩⟩ := h
  · obtain ⟨row', hrow', hkey', hdigest'⟩ := hkeeps.digests row hrow hdigest
    exact ⟨row', hrow', hkey'.trans hkey, .inl hdigest'⟩
  · obtain ⟨row', hrow', hkey', -⟩ := hkeeps.rows row hrow trivial
    obtain ⟨c', hc', hkey'', hblob'⟩ := hkeeps.blobs c hc hblob
    simp only [Ciphertext.key, Prod.mk.injEq] at hkey''
    exact ⟨row', hrow', hkey'.trans hkey,
      .inr ⟨c', hc', hkey''.1.trans htenant, hkey''.2.1.trans hhandle, hblob'⟩⟩

theorem dbKeeps_commitTasks (db : SnsDatabase) (tasks : List HandleItem) :
    DbKeeps db (commitTasks db tasks) where
  rows := Table.Keeps.insertAll _ _
  digests := Table.Keeps.insertAll _ _
  blobs := by
    apply Table.Keeps.updateEach
    intro task c hcomputed _
    simp only [Bool.and_eq_true] at hcomputed
    exact ⟨task.ct128.bytes, rfl, by simpa [HandleItem.computed] using hcomputed.1⟩

theorem ciphertexts_commit (u : Upload) (db : SnsDatabase) :
    (u.commit keccak256 db).ciphertexts = db.ciphertexts := by
  unfold Upload.commit Upload.updateCt64 Upload.updateCt128 Upload.enqueue
  split <;> split <;> split <;> rfl

theorem dbKeeps_commit (u : Upload) (db : SnsDatabase) : DbKeeps db (u.commit keccak256 db) := by
  have hrows : ∀ {P : CiphertextDigest → Prop},
      (∀ row digest, P row → P { row with ciphertext := some digest }) →
      (∀ row digest format, P row → P { row with
        ciphertext128 := some digest, ciphertext128Format := format }) →
      Table.Keeps P db.ciphertextDigest (u.commit keccak256 db).ciphertextDigest := by
    intro P h64 h128
    have henqueue : Table.Keeps P db.ciphertextDigest (u.enqueue db).ciphertextDigest := by
      unfold Upload.enqueue
      split
      · exact Table.Keeps.insert _ _
      · exact .refl _
    have hupdate : Table.Keeps P (u.enqueue db).ciphertextDigest
        (u.updateCt128 keccak256 (u.enqueue db)).ciphertextDigest := by
      unfold Upload.updateCt128
      split
      · apply Table.Keeps.update
        · exact fun _ => rfl
        · intro row _ hrow
          exact h128 row _ _ hrow
      · exact .refl _
    refine (henqueue.trans hupdate).trans ?_
    unfold Upload.commit Upload.updateCt64
    split
    · apply Table.Keeps.update
      · exact fun _ => rfl
      · intro row _ hrow
        exact h64 row _ hrow
    · exact .refl _
  constructor
  · exact hrows (fun _ _ _ => trivial) fun _ _ _ _ => trivial
  · exact hrows (fun _ _ h => h) fun _ _ _ _ => Option.some_ne_none _
  · rw [ciphertexts_commit]
    exact .refl _

/-- A row is completed if it has been, or if it has the handle of a task. -/
theorem rows_updateComputationsStatus (db : SnsDatabase) (tasks : List HandleItem) :
    (updateComputationsStatus db tasks).pbsComputations.rows =
      db.pbsComputations.rows.map fun row => { row with
        isCompleted := row.isCompleted ||
          tasks.any fun task => task.computed && row.handle = task.handle } := by
  refine (Table.rows_updateEach ..).trans ?_
  refine List.map_congr_left fun row hrow => ?_
  clear hrow
  induction tasks generalizing row with
  | nil => simp
  | cons task tasks ih =>
    rw [List.foldl_cons, ih, List.any_cons]
    split
    · next hmarked => simp [hmarked]
    · next hmarked => simp [hmarked]

theorem completed_of_mem (h : p ∈ (commitTasks db tasks).pbsComputations.rows)
    (hcompleted : p.isCompleted = true) :
    ∃ old ∈ db.pbsComputations.rows, old.key = p.key ∧
      (old.isCompleted = true ∨ old ∈ marks db tasks) := by
  change p ∈ (updateComputationsStatus db tasks).pbsComputations.rows at h
  rw [rows_updateComputationsStatus] at h
  obtain ⟨old, hold, rfl⟩ := List.mem_map.mp h
  refine ⟨old, hold, rfl, ?_⟩
  cases hdone : old.isCompleted with
  | true => exact .inl rfl
  | false =>
    right
    simp only [hdone, Bool.false_or] at hcompleted
    simp [marks, hold, hdone, hcompleted]

/-- The rows with the handle of a task have a 128-bit ciphertext after its batch. -/
theorem hasBlob_updateCiphertext128 {c : Ciphertext} (hc : c ∈ db.ciphertexts.rows)
    (h : ∃ task ∈ tasks, task.computed = true ∧ c.handle = task.handle) :
    ∃ c' ∈ (updateCiphertext128 db tasks).ciphertexts.rows, c'.key = c.key ∧ HasBlob c' := by
  induction tasks generalizing db c with
  | nil => simp at h
  | cons task tasks ih =>
    have hstep : updateCiphertext128 db (task :: tasks) =
        updateCiphertext128 (updateCiphertext128 db [task]) tasks := rfl
    have hblobs : ∀ tasks, Table.Keeps HasBlob (updateCiphertext128 db [task]).ciphertexts
        (updateCiphertext128 (updateCiphertext128 db [task]) tasks).ciphertexts := fun tasks =>
      (dbKeeps_commitTasks (updateCiphertext128 db [task]) tasks).blobs
    rw [hstep]
    have hmem : (if (task.computed && decide (c.handle = task.handle)) = true
        then { c with ciphertext128 := some task.ct128.bytes } else c) ∈
          (updateCiphertext128 db [task]).ciphertexts.rows := List.mem_map_of_mem hc
    by_cases hset : (task.computed && decide (c.handle = task.handle)) = true
    · rw [if_pos hset] at hmem
      simp only [Bool.and_eq_true] at hset
      obtain ⟨c', hc', hkey, hblob⟩ := hblobs tasks _ hmem
        ⟨_, rfl, by simpa [HandleItem.computed] using hset.1⟩
      exact ⟨c', hc', hkey, hblob⟩
    · rw [if_neg hset] at hmem
      refine ih hmem ?_
      obtain ⟨other, hother, hcomputed, hhandle⟩ := h
      obtain rfl | hother := List.mem_cons.mp hother
      · simp [hcomputed, hhandle] at hset
      · exact ⟨other, hother, hcomputed, hhandle⟩

end Statements

/-! ## Runs -/

section Runs

variable (keccak256 : Bytes → Bytes32)

/-- What a step can do to the ciphertexts. -/
structure SnsInvariant (s : SnsState) : Prop where
  stored : Stored s
  uploads : ∀ u ∈ s.uploads, ∀ kind, u.stage kind = .uploaded →
    s.buckets.checkObjectExists kind (u.item.object keccak256 kind).key = true
  retained : ∀ p ∈ s.db.pbsComputations.rows, p.isCompleted = true → Retained s.db p

variable {keccak256} {s s' : SnsState} {i : SnsInput}

theorem checkObjectExists_putObject {buckets : Buckets} {kind kind' : CtType} {o : Object}
    {key : Bytes32} (h : buckets.checkObjectExists kind' key = true) :
    (buckets.putObject kind o).checkObjectExists kind' key = true := by
  obtain ⟨old, hold, hkey⟩ := List.any_eq_true.mp h
  refine List.any_eq_true.mpr ?_
  by_cases hkind : kind' = kind
  · subst hkind
    simp only [Buckets.putObject, Function.update_self]
    by_cases hsame : old.key = o.key
    · exact ⟨o, List.mem_cons_self, by simpa [hsame] using hkey⟩
    · exact ⟨old, List.mem_cons_of_mem _ (List.mem_filter.mpr ⟨hold, by simpa using hsame⟩), hkey⟩
  · rw [Buckets.putObject, Function.update_of_ne hkind]
    exact ⟨old, hold, hkey⟩

theorem checkObjectExists_self (buckets : Buckets) (kind : CtType) (o : Object) :
    (buckets.putObject kind o).checkObjectExists kind o.key = true := by
  simp [Buckets.checkObjectExists, Buckets.putObject]

/-- A step that leaves the digests, and that adds no upload. -/
theorem SnsInvariant.keep (h : SnsInvariant keccak256 s)
    (hpbs : ∀ p ∈ s'.db.pbsComputations.rows, p.isCompleted = true →
      p ∈ s.db.pbsComputations.rows)
    (hrows : s'.db.ciphertextDigest = s.db.ciphertextDigest) (hkeeps : DbKeeps s.db s'.db)
    (hbuckets : s'.buckets = s.buckets) (huploads : s'.uploads ⊆ s.uploads) :
    SnsInvariant keccak256 s' where
  stored row hrow kind digest hdigest := hbuckets ▸ h.stored row (hrows ▸ hrow) kind digest hdigest
  uploads u hu kind hstage := hbuckets ▸ h.uploads u (huploads hu) kind hstage
  retained p hp hcompleted := (h.retained p (hpbs p hp hcompleted) hcompleted).mono hkeeps

theorem DbKeeps.refl (db : SnsDatabase) : DbKeeps db db := ⟨.refl _, .refl _, .refl _⟩

/-- Each row that is completed by a batch is retained. -/
theorem SnsInvariant.batch (h : SnsInvariant keccak256 s) {tasks : List HandleItem}
    (hown : ∀ p ∈ marks s.db tasks, (∃ task ∈ tasks, task.row.key = p.key) ∧
      ∃ c ∈ s.db.ciphertexts.rows, c.tenantId = p.tenantId ∧ c.handle = p.handle)
    (batches : List (List HandleItem)) :
    SnsInvariant keccak256 { s with db := commitTasks s.db tasks, batches } where
  uploads := h.uploads
  stored row hrow kind digest hdigest := by
    obtain hold | ⟨task, -, rfl⟩ := mem_commitTasks hrow
    · exact h.stored row hold kind digest hdigest
    · cases kind <;> cases hdigest
  retained p hp hcompleted := by
    have hkeeps := dbKeeps_commitTasks s.db tasks
    obtain ⟨old, hold, hkey, hdone | hmarked⟩ := completed_of_mem hp hcompleted
    · obtain ⟨row, hrow, hkey', hwhere⟩ := (h.retained old hold hdone).mono hkeeps
      simp only [PbsComputation.key, Prod.mk.injEq] at hkey
      rw [hkey.1, hkey.2] at hwhere
      exact ⟨row, hrow, hkey'.trans (Prod.ext hkey.1 hkey.2), hwhere⟩
    · obtain ⟨⟨task, htask, htaskKey⟩, c, hc, htenant, hhandle⟩ := hown old hmarked
      -- the batch inserts the row of its task, and sets the 128-bit ciphertext of its tenant
      obtain ⟨row, hrow, hrowKey⟩ := List.mem_map.mp
        (Table.mem_keys_insertAll.mpr (.inr (List.mem_map_of_mem (List.mem_map_of_mem htask))) :
          task.row.key ∈ (commitTasks s.db tasks).ciphertextDigest.rows.map CiphertextDigest.key)
      have hcomputed : ∃ task ∈ tasks, task.computed = true ∧ c.handle = task.handle := by
        rw [hhandle]
        have hany := (List.mem_filter.mp hmarked).2
        simp only [Bool.and_eq_true, List.any_eq_true, decide_eq_true_eq] at hany
        exact hany.2
      obtain ⟨c', hc', hkey', hblob⟩ := hasBlob_updateCiphertext128 hc hcomputed
      simp only [Ciphertext.key, Prod.mk.injEq] at hkey'
      simp only [PbsComputation.key, Prod.mk.injEq] at hkey
      refine ⟨row, hrow, hrowKey.trans (htaskKey.trans (Prod.ext hkey.1 hkey.2)), .inr ⟨c', hc', ?_⟩⟩
      exact ⟨hkey'.1.trans (htenant.trans hkey.1), hkey'.2.1.trans (hhandle.trans hkey.2), hblob⟩

/-- Only the garbage collector clears 128-bit ciphertexts. -/
theorem dbKeeps_step (hstep : s.step keccak256 i = some s')
    (hcollect : ∀ picked, i ≠ .garbageCollect picked) : DbKeeps s.db s'.db := by
  cases i with
  | insertCiphertext row =>
    obtain rfl := Option.some.inj hstep
    exact ⟨.refl _, .refl _, Table.Keeps.insert _ _⟩
  | computeTask batch task enableCompression squashed sent =>
    simp only [SnsState.step, Option.bind_eq_bind, Option.bind_eq_some_iff, Option.pure_def] at hstep
    obtain ⟨tasks, -, item, -, -, -, hcompute⟩ := hstep
    split at hcompute
    · obtain rfl := Option.some.inj hcompute
      exact .refl _
    · obtain rfl := Option.some.inj hcompute
      exact .refl _
  | commitTasks batch =>
    simp only [SnsState.step, Option.bind_eq_bind, Option.bind_eq_some_iff, Option.pure_def,
      Option.some.injEq] at hstep
    obtain ⟨tasks, -, rfl⟩ := hstep
    exact dbKeeps_commitTasks _ _
  | receive i =>
    simp only [SnsState.step, Option.bind_eq_bind, Option.bind_eq_some_iff, Option.pure_def,
      Option.some.injEq] at hstep
    obtain ⟨job, -, rfl⟩ := hstep
    cases job with
    | normal item => exact .refl _
    | databaseLock item =>
      simp only [SnsState.receive]
      split
      · split <;> exact .refl _
      · exact .refl _
  | commitUpload i =>
    simp only [SnsState.step, Option.bind_eq_bind, Option.bind_eq_some_iff, Option.pure_def,
      Option.some.injEq] at hstep
    obtain ⟨u, -, -, -, rfl⟩ := hstep
    exact dbKeeps_commit _ _
  | garbageCollect picked => exact absurd rfl (hcollect picked)
  | querySnsTasks pairs =>
    simp only [SnsState.step, Option.bind_eq_bind, Option.bind_eq_some_iff, Option.pure_def,
      Option.some.injEq] at hstep
    obtain ⟨_, -, rfl⟩ := hstep
    exact .refl _
  | fetchPendingUploads key =>
    simp only [SnsState.step, Option.bind_eq_bind, Option.bind_eq_some_iff, Option.pure_def,
      Option.some.injEq] at hstep
    obtain ⟨_, -, -, -, rfl⟩ := hstep
    exact .refl _
  | resubmit i version =>
    simp only [SnsState.step, Option.bind_eq_bind, Option.bind_eq_some_iff, Option.pure_def,
      Option.some.injEq] at hstep
    obtain ⟨_, -, rfl⟩ := hstep
    exact .refl _
  | checkObject i kind =>
    simp only [SnsState.step, Option.bind_eq_bind, Option.bind_eq_some_iff, Option.pure_def,
      Option.some.injEq] at hstep
    obtain ⟨_, -, -, -, rfl⟩ := hstep
    exact .refl _
  | putObject i kind stored acknowledged =>
    simp only [SnsState.step, Option.bind_eq_bind, Option.bind_eq_some_iff, Option.pure_def,
      Option.some.injEq] at hstep
    obtain ⟨_, -, -, -, rfl⟩ := hstep
    exact .refl _
  | insertPbsComputation row =>
    obtain rfl := Option.some.inj hstep
    exact ⟨.refl _, .refl _, .refl _⟩
  | abortTasks batch | abortResubmit i | dropJob i | abortUpload i =>
    obtain rfl := Option.some.inj hstep
    exact .refl _

/-- The garbage collector clears what has a digest. -/
theorem mem_garbageCollect {db : SnsDatabase} {picked : List (ℤ × Bytes × ℤ)} {c : Ciphertext}
    (hc : c ∈ db.ciphertexts.rows) :
    ∃ c' ∈ (garbageCollect db picked).ciphertexts.rows, c'.key = c.key ∧
      (c' = c ∨ ∃ row ∈ db.ciphertextDigest.rows, row.tenantId = c.tenantId ∧
        row.handle = c.handle ∧ row.ciphertext128 ≠ none) := by
  refine ⟨_, List.mem_map_of_mem hc, ?_⟩
  split
  · next hclear =>
    simp only [decide_eq_true_eq] at hclear
    obtain ⟨-, -, hdigest⟩ := hclear
    cases hget : db.ciphertextDigest.get? (c.tenantId, c.handle) with
    | none => simp [hget] at hdigest
    | some row =>
      rw [hget] at hdigest
      obtain ⟨hrow, hkey⟩ := Table.get?_eq_some.mp hget
      simp only [CiphertextDigest.key, Prod.mk.injEq] at hkey
      exact ⟨rfl, .inr ⟨row, hrow, hkey.1, hkey.2, hdigest⟩⟩
  · exact ⟨rfl, .inl rfl⟩

/-- What is cleared has its digest, so the computation is retained without it. -/
theorem SnsInvariant.garbageCollect (h : SnsInvariant keccak256 s)
    (picked : List (ℤ × Bytes × ℤ)) :
    SnsInvariant keccak256 { s with db := Sns.garbageCollect s.db picked } where
  stored := h.stored
  uploads := h.uploads
  retained p hp hcompleted := by
    obtain ⟨row, hrow, hkey, hdigest | ⟨c, hc, htenant, hhandle, hblob⟩⟩ := h.retained p hp hcompleted
    · exact ⟨row, hrow, hkey, .inl hdigest⟩
    · obtain ⟨c', hc', hkey', rfl | ⟨row', hrow', htenant', hhandle', hdigest⟩⟩ :=
        mem_garbageCollect hc
      · exact ⟨row, hrow, hkey, .inr ⟨c', hc', htenant, hhandle, hblob⟩⟩
      · exact ⟨row', hrow', Prod.ext (htenant'.trans htenant) (hhandle'.trans hhandle), .inl hdigest⟩

/-- The digests of an upload are those of objects that have been stored or seen. -/
theorem SnsInvariant.commit (h : SnsInvariant keccak256 s) {u : Upload} (hu : u ∈ s.uploads)
    {uploads : List Upload} (huploads : uploads ⊆ s.uploads) :
    SnsInvariant keccak256 { s with db := u.commit keccak256 s.db, uploads } where
  uploads u' hu' := h.uploads u' (huploads hu')
  retained p hp hcompleted := by
    have hpbs : (u.commit keccak256 s.db).pbsComputations = s.db.pbsComputations := by
      unfold Upload.commit Upload.updateCt64 Upload.updateCt128 Upload.enqueue
      split <;> split <;> split <;> rfl
    exact (h.retained p (hpbs ▸ hp) hcompleted).mono (dbKeeps_commit u s.db)
  stored row hrow kind digest hdigest := by
    obtain ⟨old, hold, h128, h64⟩ := mem_commit hrow
    have hkept : old.digest kind = some digest → s.buckets.checkObjectExists kind digest = true := by
      intro hdigest
      obtain hold | rfl := hold
      · exact h.stored old hold kind digest hdigest
      · cases kind <;> cases hdigest
    cases kind with
    | ct64 =>
      obtain h64 | ⟨hstage, h64⟩ := h64
      · exact hkept (h64.symm.trans hdigest)
      · obtain rfl := Option.some.inj (h64.symm.trans hdigest)
        exact h.uploads u hu .ct64 hstage
    | ct128 =>
      obtain ⟨h128, -⟩ | ⟨hstage, h128, -⟩ := h128
      · exact hkept (h128.symm.trans hdigest)
      · obtain rfl := Option.some.inj (h128.symm.trans hdigest)
        exact h.uploads u hu .ct128 hstage

/-- An upload has been checked or put, and its object is there. -/
theorem SnsInvariant.setStage (h : SnsInvariant keccak256 s) {u : Upload} (hu : u ∈ s.uploads)
    {n : ℕ} {kind : CtType} {stage : Stage} {buckets : Buckets}
    (hbuckets : ∀ kind key, s.buckets.checkObjectExists kind key = true →
      buckets.checkObjectExists kind key = true)
    (hstage : stage = .uploaded →
      buckets.checkObjectExists kind (u.item.object keccak256 kind).key = true) :
    SnsInvariant keccak256 { s with
      buckets, uploads := s.uploads.set n (u.setStage kind stage) } where
  stored row hrow kind digest hdigest := hbuckets _ _ (h.stored row hrow kind digest hdigest)
  retained := h.retained
  uploads u' hu' kind' huploaded := by
    obtain hold | rfl := List.mem_or_eq_of_mem_set hu'
    · exact hbuckets _ _ (h.uploads u' hold kind' huploaded)
    · by_cases hkind : kind' = kind
      · subst hkind
        rw [u.stage_setStage] at huploaded
        exact hstage huploaded
      · rw [u.stage_setStage_of_ne stage hkind] at huploaded
        exact hbuckets _ _ (h.uploads u hu kind' huploaded)

theorem stage_upload_ne_uploaded (item : HandleItem) (enqueues : Bool) (kind : CtType) :
    (item.upload enqueues).stage kind ≠ .uploaded := by
  cases kind <;> simp only [HandleItem.upload] <;> split <;> decide

theorem SnsInvariant.step (h : SnsInvariant keccak256 s) (hallowed : MarksOwn s i)
    (hstep : s.step keccak256 i = some s') : SnsInvariant keccak256 s' := by
  have hkeeps := dbKeeps_step hstep
  cases i with
  | insertPbsComputation row =>
    obtain rfl := Option.some.inj hstep
    refine h.keep (fun p hp hcompleted => ?_) rfl (hkeeps (by simp)) rfl (fun _ => id)
    obtain hold | ⟨-, rfl⟩ := Table.mem_insert.mp hp
    · exact hold
    · cases hcompleted
  | computeTask batch task enableCompression squashed sent =>
    simp only [SnsState.step, Option.bind_eq_bind, Option.bind_eq_some_iff, Option.pure_def] at hstep
    obtain ⟨tasks, -, item, -, -, -, hcompute⟩ := hstep
    split at hcompute
    · obtain rfl := Option.some.inj hcompute
      exact h.keep (fun _ hp _ => hp) rfl (.refl _) rfl (fun _ => id)
    · obtain rfl := Option.some.inj hcompute
      exact h
  | commitTasks batch =>
    simp only [SnsState.step, Option.bind_eq_bind, Option.bind_eq_some_iff, Option.pure_def,
      Option.some.injEq] at hstep
    obtain ⟨tasks, htasks, rfl⟩ := hstep
    simp only [MarksOwn, SnsState.committed, htasks, Option.getD_some] at hallowed
    exact h.batch hallowed _
  | receive i =>
    simp only [SnsState.step, Option.bind_eq_bind, Option.bind_eq_some_iff, Option.pure_def,
      Option.some.injEq] at hstep
    obtain ⟨job, -, rfl⟩ := hstep
    have hstart : ∀ (item : HandleItem) enqueues, SnsInvariant keccak256 { s with
        jobs := s.jobs.eraseIdx i, uploads := item.upload enqueues :: s.uploads } := by
      intro item enqueues
      refine { h with uploads := fun u hu kind hstage => ?_ }
      obtain rfl | hold := List.mem_cons.mp hu
      · exact absurd hstage (stage_upload_ne_uploaded _ _ _)
      · exact h.uploads u hold kind hstage
    cases job with
    | normal item => exact hstart item true
    | databaseLock item =>
      simp only [SnsState.receive]
      split
      · split
        · exact hstart item false
        · exact h.keep (fun _ hp _ => hp) rfl (.refl _) rfl (fun _ => id)
      · exact h.keep (fun _ hp _ => hp) rfl (.refl _) rfl (fun _ => id)
  | checkObject i kind =>
    simp only [SnsState.step, Option.bind_eq_bind, Option.bind_eq_some_iff, Option.pure_def,
      Option.some.injEq] at hstep
    obtain ⟨u, hu, -, -, rfl⟩ := hstep
    refine h.setStage (List.mem_of_getElem? hu) (fun _ _ => id) fun hstage => ?_
    split at hstage
    · next hexists => exact hexists
    · cases hstage
  | putObject i kind stored acknowledged =>
    simp only [SnsState.step, Option.bind_eq_bind, Option.bind_eq_some_iff, Option.pure_def,
      Option.some.injEq, Option.guard_eq_some'] at hstep
    obtain ⟨u, hu, -, ⟨-, -, -, hacknowledged⟩, rfl⟩ := hstep
    refine h.setStage (List.mem_of_getElem? hu) (fun kind' key hkey => ?_) fun hstage => ?_
    · split
      · exact checkObjectExists_putObject hkey
      · exact hkey
    · split at hstage
      · next hdone =>
        rw [if_pos (hacknowledged hdone)]
        exact checkObjectExists_self _ _ _
      · cases hstage
  | commitUpload i =>
    simp only [SnsState.step, Option.bind_eq_bind, Option.bind_eq_some_iff, Option.pure_def,
      Option.some.injEq] at hstep
    obtain ⟨u, hu, -, -, rfl⟩ := hstep
    exact h.commit (List.mem_of_getElem? hu) fun _ => List.mem_of_mem_eraseIdx
  | garbageCollect picked =>
    obtain rfl := Option.some.inj hstep
    exact h.garbageCollect picked
  | querySnsTasks pairs =>
    simp only [SnsState.step, Option.bind_eq_bind, Option.bind_eq_some_iff, Option.pure_def,
      Option.some.injEq] at hstep
    obtain ⟨_, -, rfl⟩ := hstep
    exact h.keep (fun _ hp _ => hp) rfl (.refl _) rfl (fun _ => id)
  | fetchPendingUploads key =>
    simp only [SnsState.step, Option.bind_eq_bind, Option.bind_eq_some_iff, Option.pure_def,
      Option.some.injEq] at hstep
    obtain ⟨_, -, -, -, rfl⟩ := hstep
    exact h.keep (fun _ hp _ => hp) rfl (.refl _) rfl (fun _ => id)
  | resubmit i version =>
    simp only [SnsState.step, Option.bind_eq_bind, Option.bind_eq_some_iff, Option.pure_def,
      Option.some.injEq] at hstep
    obtain ⟨_, -, rfl⟩ := hstep
    exact h.keep (fun _ hp _ => hp) rfl (.refl _) rfl (fun _ => id)
  | insertCiphertext row =>
    obtain rfl := Option.some.inj hstep
    exact h.keep (fun _ hp _ => hp) rfl (hkeeps (by simp)) rfl (fun _ => id)
  | abortUpload i =>
    obtain rfl := Option.some.inj hstep
    exact h.keep (fun _ hp _ => hp) rfl (.refl _) rfl (fun _ => List.mem_of_mem_eraseIdx)
  | abortTasks batch | abortResubmit i | dropJob i =>
    obtain rfl := Option.some.inj hstep
    exact h.keep (fun _ hp _ => hp) rfl (.refl _) rfl (fun _ => id)

end Runs

/-! ## Samples -/

end Fhevm.Sns
