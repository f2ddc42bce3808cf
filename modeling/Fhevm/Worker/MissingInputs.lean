import Fhevm.Scheduler.Computed
import Fhevm.Worker.Cycle

/-!
# Computations that miss inputs

A computation whose inputs are not there yet is postponed, and it is marked as an
error like one that fails. Errors are never taken back, so it is not selected again.

## Main definitions

* `Selectable` — there is an eligible computation under a key.
* `MissesInputs` — a cycle found that inputs of a computation are missing.
* `missing_inputs_not_selectable` — the computation is in error for the rest of the run.
-/

namespace Fhevm.Worker

open Foundation Scheduler

variable {R S ε : Type}

/-- The selection of work can choose the computation. -/
def Selectable (db : Database) (key : ℤ × OutputKey) : Prop :=
  ∃ row ∈ db.computations.rows, row.key = key ∧ row.isEligible = true

/-- The result of a computation in a cycle is that inputs are missing. -/
def MissesInputs {w : WorkerSetup R S ε} {db : Database} (c : WorkerCycle w db)
    (key : ℤ × OutputKey) : Prop :=
  ∃ u ∈ c.uploads, ∃ r ∈ u.graph.results, r.compressedCt = .error (.scheduler .missingInputs) ∧
    (u.tenantId, r.handle, r.transactionId) = key

/-! ## Errors last -/

/-- An error is stored, and no later statement takes it back. -/
theorem Database.runStatements_setError {statements : List Statement} {tenantId : ℤ}
    {key : OutputKey} {message : String} (h : .setError tenantId key message ∈ statements)
    (now : ℕ) {db : Database} {row : Computation} (hrow : row ∈ db.computations.rows)
    (hkey : row.key = (tenantId, key)) :
    ∃ row' ∈ (db.runStatements now statements).computations.rows,
      row'.key = row.key ∧ row'.isError = true := by
  obtain ⟨pre, post, rfl⟩ := List.append_of_mem h
  obtain ⟨row₁, hrow₁, hkey₁, -⟩ := db.runStatements_keeps (P := fun _ => True)
    (fun _ _ => ⟨fun _ => trivial, fun _ => ⟨trivial, trivial⟩⟩) now pre row hrow trivial
  have hset : row₁.withError message ∈
      ((db.runStatements now pre).updateTenant tenantId [key] (.withError message)
        fun _ => rfl).computations.rows := by
    refine List.mem_map.mpr ⟨row₁, hrow₁, if_pos ?_⟩
    have hsame : (row₁.tenantId, row₁.outputKey) = (tenantId, key) := hkey₁.trans hkey
    simpa using Prod.mk.inj hsame
  obtain ⟨row', hrow', hkey', herror⟩ := Database.runStatements_keeps
    (P := fun c => c.isError = true) (fun _ h => ⟨fun _ => rfl, fun _ => ⟨h, h⟩⟩) now post _ _
    hset rfl
  rw [runStatements_append]
  exact ⟨row', hrow', hkey'.trans hkey₁, herror⟩

/-- A computation in error is not selected, and stays in error in every run. -/
theorem not_selectable_of_error {db db' : Database} (hrun : Runs R S ε db db') {row : Computation}
    (hrow : row ∈ db.computations.rows) (herror : row.isError = true) :
    (∃ row' ∈ db'.computations.rows, row'.key = row.key ∧ row'.isError = true) ∧
      ¬ Selectable db' row.key := by
  have hkeeps := hrun.keeps (P := fun c => c.isError = true)
    fun _ h => ⟨fun _ => rfl, fun _ => ⟨h, h⟩⟩
  refine ⟨hkeeps row hrow herror, ?_⟩
  rintro ⟨row', hrow', hkey, heligible⟩
  have herror' := hkeeps.of_key_eq hrow herror hrow' hkey
  simp [Computation.isEligible, herror'] at heligible

section Cycle

variable {w : WorkerSetup R S ε} {db : Database} {c : WorkerCycle w db}

theorem MissesInputs.exists_error {row : Computation} (hrow : row ∈ db.computations.rows)
    (h : MissesInputs c row.key) :
    ∃ row' ∈ c.database.computations.rows, row'.key = row.key ∧ row'.isError = true := by
  obtain ⟨u, hu, r, hr, hmissing, hkey⟩ := h
  have hst : .setError u.tenantId (r.handle, r.transactionId) SchedulerError.missingInputs.message ∈
      c.statements := by
    refine List.mem_flatMap.mpr ⟨u, hu, ?_⟩
    rw [Upload.statements_eq]
    refine List.mem_append_left _ (List.mem_flatMap.mpr ⟨r, hr, ?_⟩)
    simp [errorStatements, hmissing, CoprocessorError.ofTaskError, CoprocessorError.message]
  exact Database.runStatements_setError hst c.now hrow hkey.symm

/-- When inputs of a computation are missing in a cycle, the computation is in error
and not selected, after that cycle and for the rest of the run. -/
theorem missing_inputs_not_selectable {row : Computation} (hrow : row ∈ db.computations.rows)
    (hmissing : MissesInputs c row.key) {db' : Database} (hrun : Runs R S ε c.database db') :
    (∃ row' ∈ db'.computations.rows, row'.key = row.key ∧ row'.isError = true) ∧
      ¬ Selectable db' row.key := by
  obtain ⟨row₁, hrow₁, hkey, herror⟩ := hmissing.exists_error hrow
  rw [← hkey]
  exact not_selectable_of_error hrun hrow₁ herror

end Cycle

/-! ## A computation ahead of its input -/

/-- An allowed negation of a handle that is not there. -/
def waitingRow : Computation where
  tenantId := 1
  outputHandle := [1]
  dependencies := [[9]]
  fheOperation := SupportedFheOperations.fheNeg.toInt
  isScalar := false
  isAllowed := true
  transactionId := [10]
  scheduleOrder := 0

def waitingDatabase : Database where
  computations := ⟨[waitingRow], by simp⟩
  ciphertexts := ⟨[], by simp⟩

/-- Whether a result is that inputs are missing. -/
def isMissingInputs (r : DFGTxResult ε) : Bool :=
  match r.compressedCt with
  | .error (.scheduler .missingInputs) => true
  | _ => false

theorem exists_missing_cycle : ∃ c : WorkerCycle symbolicWorker waitingDatabase,
    MissesInputs c waitingRow.key := by
  obtain ⟨r, hr, hcheck⟩ := exists_ok_of_check (x := cycleInOrder symbolicWorker 0 waitingDatabase)
    (P := fun r => r.2.any fun u => u.graph.results.any fun x => isMissingInputs x &&
      decide ((u.tenantId, x.handle, x.transactionId) = waitingRow.key)) (by decide)
  simp only [List.any_eq_true, Bool.and_eq_true, decide_eq_true_eq] at hcheck
  obtain ⟨u, hu, x, hx, hmissing, hkey⟩ := hcheck
  refine ⟨.inOrder hr, u, hu, x, hx, ?_, hkey⟩
  unfold isMissingInputs at hmissing
  split at hmissing
  · assumption
  · cases hmissing

/-- The input that arrives after the cycle. -/
def lateInput : Ciphertext := ⟨1, [9], [5], currentCiphertextVersion, 2⟩

theorem waiting_not_selectable : ∃ c : WorkerCycle symbolicWorker waitingDatabase,
    (∃ row ∈ (c.database.insertCiphertext lateInput).computations.rows,
      row.key = waitingRow.key ∧ row.isError = true) ∧
        ¬ Selectable (c.database.insertCiphertext lateInput) waitingRow.key := by
  obtain ⟨c, hmissing⟩ := exists_missing_cycle
  have hrun : Runs Term SymbolicSeed FhevmError c.database
      (c.database.insertCiphertext lateInput) :=
    .single (.insertCiphertext lateInput)
  exact ⟨c, missing_inputs_not_selectable (List.mem_singleton.mpr rfl) hmissing hrun⟩

/-- The negation is eligible before the cycle that misses its input, and not after it. -/
theorem waiting_computation_lost : ¬ ∀ (w : WorkerSetup Term SymbolicSeed FhevmError)
    (db : Database) (c : WorkerCycle w db) (row : Computation), row ∈ db.computations.rows →
      row.isEligible = true → MissesInputs c row.key → Selectable c.database row.key := by
  intro hall
  obtain ⟨c, hmissing⟩ := exists_missing_cycle
  have hrow : waitingRow ∈ waitingDatabase.computations.rows := List.mem_singleton.mpr rfl
  obtain ⟨row, hrow', hkey, herror⟩ := hmissing.exists_error hrow
  refine (not_selectable_of_error (R := Term) (S := SymbolicSeed) (ε := FhevmError) .refl hrow'
    herror).2 ?_
  rw [hkey]
  exact hall _ _ c waitingRow hrow (by decide) hmissing

end Fhevm.Worker
