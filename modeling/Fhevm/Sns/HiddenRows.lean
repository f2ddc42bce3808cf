import Fhevm.Sns.Resubmit

/-!
# Rows behind others

The loop of a resubmission counts jobs where it should count rows. A row without a job in a batch
ends the loop, and hides the rows that have not been fetched. So does a row that the uploader has
locked or completed in part.

## Main definitions

* `AllSent` — the jobs of all rows have been sent.
* `Steady` — every row that is pending has a job until it is complete.
* `allSent_iff` — the tables whose jobs are all sent in every run.
-/

namespace Fhevm.Sns

open Foundation

/-- The job of every row of the tables has been sent. -/
def AllSent (db : SnsDatabase) (s : ResubmitState) : Prop :=
  ∀ row ∈ db.ciphertextDigest.rows, ∀ job, db.job row = some job → job ∈ s.sent

/-- No two rows that are pending share a handle. -/
def HandlesDistinct (db : SnsDatabase) : Prop :=
  ∀ row ∈ db.pendingRows, ∀ row' ∈ db.pendingRows, row.handle = row'.handle → row = row'

section Resubmissions

variable {keccak256 : Bytes → Bytes32} {batchSize : ℕ} {db : SnsDatabase}
  {past : List ResubmitInput} {s s' : ResubmitState} {rows : List CiphertextDigest}

/-- What has been sent stays so. -/
theorem AllSent.step {i : ResubmitInput} (h : AllSent db s)
    (hstep : s.step keccak256 batchSize i = some s') : AllSent db s' := by
  intro row hrow job hjob
  have hsent := h row hrow job hjob
  obtain ⟨rows, -, -, -, -, rfl⟩ | ⟨keys, -, -, rfl⟩ | ⟨job', kind, -, -, -, rfl⟩ :=
    resubmit_step_cases hstep
  · exact List.mem_append_left _ hsent
  · exact hsent
  · exact hsent

/-! ## Loops that do not return -/

theorem not_returned (hlimit : batchSize = 0 ∨ 2 ^ 63 ≤ batchSize)
    (h : ResubmitRun keccak256 batchSize db past s) : s.returned = false := by
  refine System.Run.invariant (P := fun _ s => s.returned = false) h rfl ?_
  rintro past i s s' - hs - hstep
  obtain ⟨rows, -, -, hbelow, -, rfl⟩ | ⟨keys, -, -, rfl⟩ | ⟨job, kind, -, -, -, rfl⟩ :=
    resubmit_step_cases hstep
  · simp only [ResubmitState.send, decide_eq_false_iff_not]
    omega
  · exact hs
  · exact hs

/-! ## One batch -/

/-- Where all rows that are pending fit into a batch, the first one sends all jobs. -/
theorem allSent_of_fits (hfits : db.pendingRows.length ≤ batchSize)
    (h : ResubmitRun keccak256 batchSize db past s) : AllSent db s ∨
      (s.db = db ∧ s.locked = [] ∧ s.sent = [] ∧ s.returned = false) := by
  refine System.Run.invariant (P := fun _ s => AllSent db s ∨
    (s.db = db ∧ s.locked = [] ∧ s.sent = [] ∧ s.returned = false)) h (.inr ⟨rfl, rfl, rfl, rfl⟩) ?_
  rintro past i s s' - hs - hstep
  obtain hs | ⟨hdb, hlocked, hsent, hreturned⟩ := hs
  · exact .inl (hs.step hstep)
  have havailable : s.available = db.pendingRows := by
    simp [ResubmitState.available, hdb, hlocked]
  obtain ⟨rows, -, -, -, hrows, rfl⟩ | ⟨keys, -, hkeys, rfl⟩ | ⟨job, kind, -, hjob, -, rfl⟩ :=
    resubmit_step_cases hstep
  · refine .inl fun row hrow job hjob => List.mem_append_right _ ?_
    have hfetched := hrows.all (by rwa [havailable])
      (havailable ▸ mem_pendingRows.mpr ⟨hrow, pending_of_job hjob⟩)
    exact List.mem_filterMap.mpr ⟨row, hfetched, hdb ▸ hjob⟩
  · refine .inr ⟨hdb, List.eq_nil_iff_forall_not_mem.mpr fun key hkey => ?_, hsent, hreturned⟩
    obtain ⟨job, hjob, -⟩ := hkeys key hkey
    simp [hsent] at hjob
  · simp [hsent] at hjob

/-! ## Rows that are fully usable -/

/-- Every row that is pending has a job until it is complete, and the uploader works on no row that
has not been sent. -/
structure Steady (db : SnsDatabase) (s : ResubmitState) : Prop where
  ciphertexts : s.db.ciphertexts = db.ciphertexts
  usable : ∀ row ∈ s.db.pendingRows, FullyUsable s.db row
  distinct : HandlesDistinct s.db
  unsent : ∀ row ∈ db.ciphertextDigest.rows, ∀ job, db.job row = some job → job ∈ s.sent ∨
    (row ∈ s.available ∧ ∀ job' ∈ s.sent, job'.item.handle ≠ row.handle)
  returned : s.returned = true → AllSent db s

theorem Steady.send (h : Steady db s) (hrows : Fetched s batchSize rows) :
    Steady db (s.send batchSize (rows.filterMap s.db.job)) where
  ciphertexts := h.ciphertexts
  usable := h.usable
  distinct := h.distinct
  unsent := by
    intro row hrow job hjob
    obtain hsent | ⟨havailable, hothers⟩ := h.unsent row hrow job hjob
    · exact .inl (List.mem_append_left _ hsent)
    have hjob' : s.db.job row = some job := (job_congr h.ciphertexts).trans hjob
    by_cases hfetched : row ∈ rows
    · exact .inl (List.mem_append_right _ (List.mem_filterMap.mpr ⟨row, hfetched, hjob'⟩))
    refine .inr ⟨havailable, fun job' hjob' => ?_⟩
    obtain hjob' | hjob' := List.mem_append.mp hjob'
    · exact hothers job' hjob'
    -- A row with the same handle would be the same row.
    obtain ⟨row', hrow', hjob'⟩ := List.mem_filterMap.mp hjob'
    intro hhandle
    have hsame : row'.handle = row.handle := (Prod.mk.inj (job_spec hjob').1).2.symm.trans hhandle
    have hrow'' := mem_available.mp (hrows.2.1 row' hrow')
    have heq := h.distinct row' (mem_pendingRows.mpr ⟨hrow''.1, hrow''.2.1⟩) row
      (mem_pendingRows.mpr ⟨(mem_available.mp havailable).1, pending_of_job hjob⟩) hsame
    exact hfetched (heq ▸ hrow')
  returned := by
    intro hreturned row hrow job hjob
    have hfew : (rows.filterMap s.db.job).length < batchSize := of_decide_eq_true hreturned
    have hjobs : (rows.filterMap s.db.job).length = rows.length := by
      rw [List.filterMap_length_eq_length]
      intro row hrow
      obtain ⟨hmem, hpending, -⟩ := mem_available.mp (hrows.2.1 row hrow)
      exact (h.usable row (mem_pendingRows.mpr ⟨hmem, hpending⟩)).1
    have hlength := hrows.2.2
    obtain hsent | ⟨havailable, -⟩ := h.unsent row hrow job hjob
    · exact List.mem_append_left _ hsent
    · have hfetched := hrows.all (by omega) havailable
      exact List.mem_append_right _ (List.mem_filterMap.mpr
        ⟨row, hfetched, (job_congr h.ciphertexts).trans hjob⟩)

theorem Steady.lock {keys : List (ℤ × Bytes)} (h : Steady db s)
    (hkeys : ∀ key ∈ keys, ∃ job ∈ s.sent, job.item.handle = key.2) :
    Steady db { s with locked := keys } where
  ciphertexts := h.ciphertexts
  usable := h.usable
  distinct := h.distinct
  unsent := by
    intro row hrow job hjob
    obtain hsent | ⟨havailable, hothers⟩ := h.unsent row hrow job hjob
    · exact .inl hsent
    refine .inr ⟨?_, hothers⟩
    obtain ⟨hmem, hpending, -⟩ := mem_available.mp havailable
    refine mem_available.mpr ⟨hmem, hpending, fun hkey => ?_⟩
    obtain ⟨job', hjob', hhandle⟩ := hkeys _ hkey
    exact hothers job' hjob' hhandle
  returned := h.returned

theorem Steady.upload {job : UploadJob} {kind : CtType} (h : Steady db s) (hsent : job ∈ s.sent) :
    Steady db (s.upload keccak256 job kind) where
  ciphertexts := ciphertexts_updateUploaded.trans h.ciphertexts
  usable := by
    intro row hrow
    obtain ⟨old, hold, rfl⟩ := mem_pendingRows_updateUploaded hrow
    have hpending := (mem_pendingRows.mp hrow).2
    unfold CiphertextDigest.after at hpending ⊢
    split_ifs at hpending ⊢ with hhandle
    · exact fullyUsable_uploaded (h.usable old hold) hpending
    · exact (fullyUsable_congr ciphertexts_updateUploaded).mpr (h.usable old hold)
  distinct := by
    intro row hrow row' hrow' hsame
    obtain ⟨old, hold, rfl⟩ := mem_pendingRows_updateUploaded hrow
    obtain ⟨old', hold', rfl⟩ := mem_pendingRows_updateUploaded hrow'
    rw [handle_after, handle_after] at hsame
    rw [h.distinct old hold old' hold' hsame]
  unsent := by
    intro row hrow job' hjob'
    obtain hsent' | ⟨havailable, hothers⟩ := h.unsent row hrow job' hjob'
    · exact .inl hsent'
    refine .inr ⟨?_, hothers⟩
    obtain ⟨hmem, hpending, hlocked⟩ := mem_available.mp havailable
    refine mem_available.mpr ⟨?_, hpending, hlocked⟩
    change row ∈ (updateUploaded _ _ _ _).ciphertextDigest.rows
    rw [rows_updateUploaded]
    refine List.mem_map.mpr ⟨row, hmem, if_neg ?_⟩
    exact fun hhandle => hothers job hsent hhandle.symm
  returned := h.returned

/-- Where all rows are fully usable and have distinct handles, this is how it stays. -/
theorem steady (husable : ∀ row ∈ db.pendingRows, FullyUsable db row)
    (hdistinct : HandlesDistinct db) (h : ResubmitRun keccak256 batchSize db past s) : Steady db s := by
  refine System.Run.invariant (P := fun _ s => Steady db s) h ?_ ?_
  · refine ⟨rfl, husable, hdistinct, fun row hrow job hjob => .inr ⟨?_, by rintro _ ⟨⟩⟩, nofun⟩
    exact mem_available.mpr ⟨hrow, pending_of_job hjob, by rintro ⟨⟩⟩
  · rintro past i s s' - hs - hstep
    obtain ⟨rows, -, -, -, hrows, rfl⟩ | ⟨keys, -, hkeys, rfl⟩ | ⟨job, kind, -, hjob, -, rfl⟩ :=
      resubmit_step_cases hstep
    · exact hs.send hrows
    · exact hs.lock hkeys
    · exact hs.upload hjob

/-! ## Hidden rows -/

/-- No job of the row of this key has been sent. -/
def Unsent (s : ResubmitState) (key : ℤ × Bytes) : Prop := ∀ job ∈ s.sent, job.key ≠ key

theorem Unsent.send {key : ℤ × Bytes} (h : Unsent s key) (hrows : ∀ row ∈ rows, row.key ≠ key) :
    Unsent (s.send batchSize (rows.filterMap s.db.job)) key := by
  intro job hjob
  obtain hjob | hjob := List.mem_append.mp hjob
  · exact h job hjob
  · obtain ⟨row, hrow, hjob⟩ := List.mem_filterMap.mp hjob
    rw [(job_spec hjob).1]
    exact hrows row hrow

theorem not_allSent_of_unsent {row : CiphertextDigest} (hrow : row ∈ db.pendingRows)
    (hjob : (db.job row).isSome) (h : Unsent s row.key) : ¬ AllSent db s := by
  obtain ⟨job, hjob⟩ := Option.isSome_iff_exists.mp hjob
  intro hall
  exact h job (hall row (mem_pendingRows.mp hrow).1 job hjob) (job_spec hjob).1

/-- A batch with one element and without another. -/
theorem exists_batch {α : Type} [DecidableEq α] {l : List α} {a r : α} {n : ℕ} (hnodup : l.Nodup)
    (ha : a ∈ l) (hr : r ∈ l) (hne : a ≠ r) (hpos : 0 < n) (hn : n < l.length) :
    ∃ batch : List α, batch.Nodup ∧ (∀ b ∈ batch, b ∈ l) ∧ batch.length = n ∧ a ∈ batch ∧
      r ∉ batch := by
  have hrest : ((l.erase r).erase a).length = l.length - 1 - 1 := by
    rw [List.length_erase_of_mem ((List.mem_erase_of_ne hne).mpr ha), List.length_erase_of_mem hr]
  have hmem : ∀ b ∈ ((l.erase r).erase a).take (n - 1), b ∈ l ∧ b ≠ r ∧ b ≠ a := by
    intro b hb
    have hb := (hnodup.erase r).mem_erase_iff.mp (List.mem_of_mem_take hb)
    have hb' := hnodup.mem_erase_iff.mp hb.2
    exact ⟨hb'.2, hb'.1, hb.1⟩
  refine ⟨a :: ((l.erase r).erase a).take (n - 1), ?_, ?_, ?_, List.mem_cons_self, ?_⟩
  · refine List.nodup_cons.mpr ⟨fun h => (hmem a h).2.2 rfl, ?_⟩
    exact ((hnodup.erase r).erase a).sublist (List.take_sublist _ _)
  · exact List.forall_mem_cons.mpr ⟨ha, fun b hb => (hmem b hb).1⟩
  · rw [List.length_cons, List.length_take, hrest]
    omega
  · rw [List.mem_cons, not_or]
    exact ⟨hne.symm, fun h => (hmem r h).2.1 rfl⟩

/-- The first batch can have one row and leave another out. -/
theorem exists_first_batch {row hidden : CiphertextDigest} (hpos : 0 < batchSize)
    (hlarge : batchSize < db.pendingRows.length) (hrow : row ∈ db.pendingRows)
    (hhidden : hidden ∈ db.pendingRows) (hne : row ≠ hidden) :
    ∃ rows, row ∈ rows ∧ rows.length = batchSize ∧ (∀ other ∈ rows, other ∈ db.pendingRows) ∧
      rows.Nodup ∧ (∀ other ∈ rows, other.key ≠ hidden.key) ∧
      Fetched ⟨db, [], [], false⟩ batchSize rows := by
  have hnodup : db.pendingRows.Nodup := db.ciphertextDigest.nodup.of_map.filter _
  obtain ⟨rows, hrows, hmem, hlength, hin, hout⟩ :=
    exists_batch hnodup hrow hhidden hne hpos hlarge
  have havailable : ResubmitState.available ⟨db, [], [], false⟩ = db.pendingRows := by
    simp [ResubmitState.available]
  refine ⟨rows, hin, hlength, hmem, hrows, fun other hother hkey => ?_, hrows, ?_, ?_⟩
  · have heq := db.ciphertextDigest.eq_of_key_eq (mem_pendingRows.mp (hmem other hother)).1
      (mem_pendingRows.mp hhidden).1 hkey
    exact hout (heq ▸ hother)
  · rwa [havailable]
  · rw [havailable]
    omega

/-- A row without a job hides another. -/
theorem hidden_by_unusable {row hidden : CiphertextDigest} (hpos : 0 < batchSize)
    (hlimit : batchSize < 2 ^ 63) (hlarge : batchSize < db.pendingRows.length)
    (hrow : row ∈ db.pendingRows) (hunusable : db.job row = none)
    (hhidden : hidden ∈ db.pendingRows) (hjob : (db.job hidden).isSome) :
    ∃ past s, ResubmitRun keccak256 batchSize db past s ∧ s.returned = true ∧ ¬ AllSent db s := by
  have hne : row ≠ hidden := by
    rintro rfl
    simp [hunusable] at hjob
  obtain ⟨rows, hin, hlength, hmem, -, hkeys, hrows⟩ :=
    exists_first_batch hpos hlarge hrow hhidden hne
  refine ⟨_, _, ResubmitRun.fetch .start rfl hlimit hrows, decide_eq_true ?_, ?_⟩
  · have hfew := List.length_filterMap_lt_length_iff_exists.mpr ⟨row, hin, hunusable⟩
    exact hfew.trans_eq hlength
  · refine not_allSent_of_unsent hhidden hjob (Unsent.send ?_ hkeys)
    rintro _ ⟨⟩

/-- All rows of a batch that goes on have jobs. -/
theorem jobs_of_full (hlength : rows.length ≤ batchSize)
    (hfull : ¬ (rows.filterMap s.db.job).length < batchSize) :
    ∀ row ∈ rows, ∃ job ∈ rows.filterMap s.db.job, job.key = row.key := by
  have hsome : ∀ row ∈ rows, (s.db.job row).isSome := by
    have hle := List.length_filterMap_le s.db.job rows
    exact List.filterMap_length_eq_length.mp (by omega)
  intro row hrow
  obtain ⟨job, hjob⟩ := Option.isSome_iff_exists.mp (hsome row hrow)
  exact ⟨job, List.mem_filterMap.mpr ⟨row, hrow, hjob⟩, (job_spec hjob).1⟩

theorem length_available_lock {keys : List (ℤ × Bytes)} {row : CiphertextDigest}
    (hrow : row ∈ s.available) (hkey : row.key ∈ keys) :
    ({ s with locked := s.locked ++ keys } : ResubmitState).available.length <
      s.available.length := by
  have hfilter : ({ s with locked := s.locked ++ keys } : ResubmitState).available =
      s.available.filter fun row => row.key ∉ keys := by
    simp only [ResubmitState.available, List.filter_filter]
    apply List.filter_congr
    intro row _
    simp [and_comm]
  rw [hfilter, List.length_filter_lt_length_iff_exists]
  exact ⟨row, hrow, by simp [hkey]⟩

/-- While a row is locked, the loop can go on with the others to its end: the uploader takes the
jobs of each batch before the next one is fetched. -/
theorem exists_return {key : ℤ × Bytes} (hpos : 0 < batchSize) (hlimit : batchSize < 2 ^ 63)
    (h : ResubmitRun keccak256 batchSize db past s) (hreturned : s.returned = false)
    (hlocks : ∀ key ∈ s.locked, ∃ job ∈ s.sent, job.item.handle = key.2) (hkey : key ∈ s.locked)
    (hunsent : Unsent s key) :
    ∃ past s, ResubmitRun keccak256 batchSize db past s ∧ s.returned = true ∧ Unsent s key := by
  induction hn : s.available.length using Nat.strong_induction_on generalizing past s with
  | h n ih =>
    subst hn
    obtain ⟨rows, hrows⟩ : ∃ rows, Fetched s batchSize rows := ⟨_, .take s batchSize⟩
    have hlength : rows.length ≤ batchSize := hrows.2.2.trans_le (Nat.min_le_left _ _)
    have hkeys : ∀ row ∈ rows, row.key ≠ key := by
      rintro row hrow rfl
      exact (mem_available.mp (hrows.2.1 row hrow)).2.2 hkey
    have hrun := h.fetch hreturned hlimit hrows
    have hunsent' : Unsent (s.send batchSize (rows.filterMap s.db.job)) key := hunsent.send hkeys
    by_cases hfew : (rows.filterMap s.db.job).length < batchSize
    · exact ⟨_, _, hrun, decide_eq_true hfew, hunsent'⟩
    -- The batch is full, so the uploader may lock all its rows.
    have hjobs := jobs_of_full hlength hfew
    have hlocks' : ∀ key ∈ s.locked ++ rows.map CiphertextDigest.key,
        ∃ job ∈ (s.send batchSize (rows.filterMap s.db.job)).sent, job.item.handle = key.2 := by
      intro key hkey
      obtain hkey | hkey := List.mem_append.mp hkey
      · obtain ⟨job, hjob, hhandle⟩ := hlocks key hkey
        exact ⟨job, List.mem_append_left _ hjob, hhandle⟩
      · obtain ⟨row, hrow, rfl⟩ := List.mem_map.mp hkey
        obtain ⟨job, hjob, hsame⟩ := hjobs row hrow
        exact ⟨job, List.mem_append_right _ hjob, (Prod.mk.inj hsame).2⟩
    obtain ⟨row, hrow⟩ : ∃ row, row ∈ rows := by
      have hle := List.length_filterMap_le s.db.job rows
      exact List.exists_mem_of_length_pos (by omega)
    have hless := length_available_lock (hrows.2.1 row hrow)
      (List.mem_map_of_mem (f := CiphertextDigest.key) hrow)
    exact ih _ hless (hrun.lock hlocks') (decide_eq_false hfew) hlocks'
      (List.mem_append_left _ hkey) hunsent' rfl

/-- A row whose handle another row has is hidden while the uploader works on that one. -/
theorem hidden_by_lock {row hidden : CiphertextDigest} (hpos : 0 < batchSize)
    (hlimit : batchSize < 2 ^ 63) (hlarge : batchSize < db.pendingRows.length)
    (hall : ∀ row ∈ db.pendingRows, (db.job row).isSome) (hrow : row ∈ db.pendingRows)
    (hhidden : hidden ∈ db.pendingRows) (hne : row ≠ hidden)
    (hhandle : row.handle = hidden.handle) :
    ∃ past s, ResubmitRun keccak256 batchSize db past s ∧ s.returned = true ∧ ¬ AllSent db s := by
  obtain ⟨rows, hin, hlength, hmem, -, hkeys, hrows⟩ :=
    exists_first_batch hpos hlarge hrow hhidden hne
  have hstart : ResubmitRun keccak256 batchSize db [] ⟨db, [], [], false⟩ := .start
  have hrun := hstart.fetch rfl hlimit hrows
  have hfull : ¬ (rows.filterMap db.job).length < batchSize := by
    rw [List.filterMap_length_eq_length.mpr fun row hrow => hall row (hmem row hrow), hlength]
    exact lt_irrefl _
  obtain ⟨job, hjob, hsame⟩ := jobs_of_full (s := ⟨db, [], [], false⟩) hlength.le hfull row hin
  have hlocks : ∀ key ∈ [hidden.key], ∃ job ∈ (ResubmitState.send ⟨db, [], [], false⟩ batchSize
      (rows.filterMap db.job)).sent, job.item.handle = key.2 := by
    intro key hkey
    obtain rfl := List.mem_singleton.mp hkey
    exact ⟨job, List.mem_append_right _ hjob, ((Prod.mk.inj hsame).2).trans hhandle⟩
  have hunsent : Unsent (ResubmitState.send ⟨db, [], [], false⟩ batchSize
      (rows.filterMap db.job)) hidden.key := Unsent.send (by rintro _ ⟨⟩) hkeys
  obtain ⟨past, s, hs, hreturned, hunsent⟩ := exists_return hpos hlimit (hrun.lock hlocks)
    (decide_eq_false hfull) hlocks List.mem_cons_self hunsent
  exact ⟨past, s, hs, hreturned, not_allSent_of_unsent hhidden (hall hidden hhidden) hunsent⟩

/-- A kind is either of the two that are not equal. -/
theorem CtType.eq_or_eq {kind kind' : CtType} (hne : kind ≠ kind') (other : CtType) :
    other = kind ∨ other = kind' := by
  cases kind <;> cases kind' <;> cases other <;> simp_all

section Incomplete

variable {item : HandleItem} {digest : Bytes32} {kind uploads : CtType} {row : CiphertextDigest}

/-- When all that the database has of a row has been uploaded, the row has no job. -/
theorem job_uploaded_eq_none (hkinds : uploads ≠ kind) (hmissing : db.missing row kind = []) :
    (updateUploaded db item digest uploads).job (row.uploaded item digest uploads) = none := by
  rw [← Option.not_isSome_iff_eq_none, job_isSome]
  rintro ⟨-, other, hother⟩
  rw [missing_uploaded] at hother
  obtain rfl | rfl := CtType.eq_or_eq hkinds other
  · exact hother (if_pos rfl)
  · rw [if_neg hkinds.symm] at hother
    exact hother hmissing

theorem pending_uploaded (hkinds : uploads ≠ kind) (hdigest : row.digest kind = none) :
    (row.uploaded item digest uploads).pending = true := by
  rw [pending_iff]
  exact ⟨kind, by rw [digest_uploaded, if_neg hkinds.symm, hdigest]⟩

/-- A batch can be fetched again while the upload of one of its rows is not complete. -/
theorem fetched_after (hrows : Fetched s batchSize rows) (hlength : rows.length = batchSize)
    (hpending : ∀ row ∈ rows, (row.after item digest uploads).pending = true) :
    Fetched { s with db := updateUploaded s.db item digest uploads } batchSize
      (rows.map fun row => row.after item digest uploads) := by
  have hnodup : (rows.map fun row => row.after item digest uploads).Nodup := by
    refine List.Nodup.map_on (fun row hrow row' hrow' hsame => ?_) hrows.1
    have hkey := congrArg CiphertextDigest.key hsame
    rw [key_after, key_after] at hkey
    exact eq_of_available (hrows.2.1 row hrow) (hrows.2.1 row' hrow') hkey
  have hmem : ∀ row' ∈ rows.map (fun row => row.after item digest uploads), row' ∈
      ({ s with db := updateUploaded s.db item digest uploads } : ResubmitState).available := by
    intro row' hrow'
    obtain ⟨row, hrow, rfl⟩ := List.mem_map.mp hrow'
    obtain ⟨hold, -, hlocked⟩ := mem_available.mp (hrows.2.1 row hrow)
    refine mem_available.mpr ⟨?_, hpending row hrow, ?_⟩
    · rw [rows_updateUploaded]
      exact List.mem_map_of_mem hold
    · rwa [key_after]
  refine ⟨hnodup, hmem, ?_⟩
  have hle := (List.subperm_of_subset hnodup hmem).length_le
  rw [List.length_map] at hle ⊢
  omega

end Incomplete

/-- A row that lacks something the database does not have hides another when the rest of it has been
uploaded, since it has no job any more. -/
theorem hidden_by_incomplete {row hidden : CiphertextDigest} {kind : CtType} (hpos : 0 < batchSize)
    (hlimit : batchSize < 2 ^ 63) (hlarge : batchSize < db.pendingRows.length)
    (hall : ∀ row ∈ db.pendingRows, (db.job row).isSome) (hdistinct : HandlesDistinct db)
    (hrow : row ∈ db.pendingRows) (hdigest : row.digest kind = none)
    (hmissing : db.missing row kind = []) (hhidden : hidden ∈ db.pendingRows) (hne : row ≠ hidden) :
    ∃ past s, ResubmitRun keccak256 batchSize db past s ∧ s.returned = true ∧ ¬ AllSent db s := by
  obtain ⟨rows, hin, hlength, hmem, -, hkeys, hrows⟩ :=
    exists_first_batch hpos hlarge hrow hhidden hne
  obtain ⟨-, uploads, huploads⟩ := job_isSome.mp (hall row hrow)
  have hkinds : uploads ≠ kind := by
    rintro rfl
    exact huploads hmissing
  have hfull : ¬ (rows.filterMap db.job).length < batchSize := by
    rw [List.filterMap_length_eq_length.mpr fun row hrow => hall row (hmem row hrow), hlength]
    exact lt_irrefl _
  obtain ⟨job, hjob⟩ := Option.isSome_iff_exists.mp (hall row hrow)
  obtain ⟨hkey, hbody⟩ := job_spec hjob
  have hhandle : row.handle = job.item.handle := (Prod.mk.inj hkey).2.symm
  have hsent : job ∈
      (ResubmitState.send ⟨db, [], [], false⟩ batchSize (rows.filterMap db.job)).sent :=
    List.mem_append_right _ (List.mem_filterMap.mpr ⟨row, hin, hjob⟩)
  have hstart : ResubmitRun keccak256 batchSize db [] ⟨db, [], [], false⟩ := .start
  have hrun := (hstart.fetch rfl hlimit hrows).upload hsent (hbody uploads ▸ huploads)
  -- The same rows are fetched once more.
  have hpending : ∀ other ∈ rows, (other.after job.item (job.item.object keccak256 uploads).key
      uploads).pending = true := by
    intro other hother
    unfold CiphertextDigest.after
    split_ifs with hsame
    · obtain rfl := hdistinct other (hmem other hother) row hrow (hsame.trans hhandle.symm)
      exact pending_uploaded hkinds hdigest
    · exact (mem_pendingRows.mp (hmem other hother)).2
  have hagain := fetched_after (s := ResubmitState.send ⟨db, [], [], false⟩ batchSize
    (rows.filterMap db.job)) hrows hlength hpending
  refine ⟨_, _, hrun.fetch (decide_eq_false hfull) hlimit hagain, decide_eq_true ?_, ?_⟩
  · have hnone : (updateUploaded db job.item (job.item.object keccak256 uploads).key uploads).job
        (row.after job.item (job.item.object keccak256 uploads).key uploads) = none := by
      rw [CiphertextDigest.after, if_pos hhandle]
      exact job_uploaded_eq_none hkinds hmissing
    have hfew := List.length_filterMap_lt_length_iff_exists.mpr ⟨_, List.mem_map_of_mem
      (f := fun row => row.after job.item (job.item.object keccak256 uploads).key uploads) hin,
      hnone⟩
    rw [List.length_map, hlength] at hfew
    exact hfew
  · have hunsent : Unsent (ResubmitState.send ⟨db, [], [], false⟩ batchSize
        (rows.filterMap db.job)) hidden.key := Unsent.send (by rintro _ ⟨⟩) hkeys
    refine not_allSent_of_unsent hhidden (hall hidden hhidden) (Unsent.send hunsent ?_)
    rintro _ hafter
    obtain ⟨other, hother, rfl⟩ := List.mem_map.mp hafter
    rw [key_after]
    exact hkeys other hother

theorem exists_other (hpos : 0 < batchSize) (hlarge : batchSize < db.pendingRows.length)
    (row : CiphertextDigest) : ∃ other ∈ db.pendingRows, other ≠ row := by
  by_contra! hall
  have hnodup : db.pendingRows.Nodup := db.ciphertextDigest.nodup.of_map.filter _
  have hsub : db.pendingRows ⊆ [row] :=
    fun other hother => List.mem_singleton.mpr (hall other hother)
  have hle := (List.subperm_of_subset hnodup hsub).length_le
  rw [List.length_singleton] at hle
  omega

end Resubmissions

/-! ## When no row is hidden -/

/-- In every run that returns, the jobs of all rows have been sent, exactly if the loop cannot
return, all rows that are pending fit into a batch, there is nothing to send, or all rows that are
pending are fully usable and have distinct handles. -/
theorem allSent_iff (keccak256 : Bytes → Bytes32) (batchSize : ℕ) (db : SnsDatabase) :
    (∀ past s, ResubmitRun keccak256 batchSize db past s → s.returned = true → AllSent db s) ↔
      (batchSize = 0 ∨ 2 ^ 63 ≤ batchSize) ∨ db.pendingRows.length ≤ batchSize ∨
        (∀ row ∈ db.pendingRows, db.job row = none) ∨
        ((∀ row ∈ db.pendingRows, FullyUsable db row) ∧ HandlesDistinct db) := by
  constructor
  · intro h
    by_contra! hnot
    obtain ⟨⟨hpos, hlimit⟩, hlarge, ⟨hidden, hhidden, hjob⟩, hnotSteady⟩ := hnot
    have hpos : 0 < batchSize := by omega
    have hjob := Option.isSome_iff_ne_none.mpr hjob
    suffices ∃ past s, ResubmitRun keccak256 batchSize db past s ∧ s.returned = true ∧
        ¬ AllSent db s by
      obtain ⟨past, s, hs, hreturned, hhides⟩ := this
      exact hhides (h past s hs hreturned)
    by_cases hall : ∀ row ∈ db.pendingRows, (db.job row).isSome
    · by_cases hdistinct : HandlesDistinct db
      · have hnotUsable : ¬ ∀ row ∈ db.pendingRows, FullyUsable db row :=
          fun husable => hnotSteady husable hdistinct
        push Not at hnotUsable
        obtain ⟨row, hrow, hincomplete⟩ := hnotUsable
        rw [FullyUsable, not_and] at hincomplete
        obtain ⟨kind, hkind⟩ := not_forall.mp (hincomplete (hall row hrow))
        obtain ⟨hdigest, hmissing⟩ := Classical.not_imp.mp hkind
        obtain ⟨other, hother, hne⟩ := exists_other hpos hlarge row
        exact hidden_by_incomplete hpos hlimit hlarge hall hdistinct hrow hdigest
          (not_not.mp hmissing) hother hne.symm
      · rw [HandlesDistinct] at hdistinct
        push Not at hdistinct
        obtain ⟨row, hrow, other, hother, hhandle, hne⟩ := hdistinct
        exact hidden_by_lock hpos hlimit hlarge hall hrow hother hne hhandle
    · push Not at hall
      obtain ⟨row, hrow, hnone⟩ := hall
      exact hidden_by_unusable hpos hlimit hlarge hrow (by simpa using hnone) hhidden hjob
  · rintro (hlimit | hfits | hnone | ⟨husable, hdistinct⟩) past s hs hreturned
    · rw [not_returned hlimit hs] at hreturned
      cases hreturned
    · obtain hall | ⟨-, -, -, hnot⟩ := allSent_of_fits hfits hs
      · exact hall
      · rw [hnot] at hreturned
        cases hreturned
    · intro row hrow job hjob
      rw [hnone row (mem_pendingRows.mpr ⟨hrow, pending_of_job hjob⟩)] at hjob
      cases hjob
    · exact (steady husable hdistinct hs).returned hreturned

/-! ## A row without a ciphertext -/

/-- A row whose ciphertexts are not there. -/
def absentRow : CiphertextDigest := { tenantId := 1, handle := [1], transactionId := none }

def presentRow : CiphertextDigest :=
  { tenantId := 1, handle := [2], ciphertext128 := some 5, transactionId := none }

theorem no_pbsComputations : (([] : List PbsComputation).map PbsComputation.key).Nodup := .nil

/-- The database has a ciphertext for the second row only. -/
def twoRows : SnsDatabase where
  pbsComputations := ⟨[], no_pbsComputations⟩
  ciphertexts := ⟨[⟨1, [2], 0, [7], none⟩], by decide⟩
  ciphertextDigest := ⟨[absentRow, presentRow], by decide⟩

/-- In batches of one row, the first row ends the loop. -/
theorem presentRow_hidden : ¬ ∀ batchSize db past s, ResubmitRun (fun _ => 0) batchSize db past s →
    s.returned = true → AllSent db s := by
  intro h
  have hrows : Fetched ⟨twoRows, [], [], false⟩ 1 [absentRow] := by decide
  have hstart : ResubmitRun (fun _ => 0) 1 twoRows [] ⟨twoRows, [], [], false⟩ := .start
  have hrun := hstart.fetch rfl (by norm_num) hrows
  have hall := h 1 twoRows _ _ hrun rfl
  have hsent := hall presentRow (by decide) (.databaseLock ⟨1, [2], [7], {}, none⟩) rfl
  exact absurd hsent (by decide)

end Fhevm.Sns
