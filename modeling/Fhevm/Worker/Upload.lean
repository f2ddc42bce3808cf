import Fhevm.Scheduler.Schedule
import Fhevm.Worker.QueryForWork

/-!
# Executing the work of a tenant and storing what comes of it

The components of a tenant are scheduled with the ciphertexts that the database
has for them. What comes of it is stored by statements on the database: results
are inserted, failed computations get an error, the handles of the other
components and the pruned ones are marked as completed, and computations that
missed inputs are postponed.

## Main definitions

* `WorkerSetup` — the settings of a worker, and what it calls.
* `Executes` — an execution of the components of a tenant.
* `Statement`, `Statement.run` — the statements on the database.
* `Upload.statements` — the statements of `upload_transaction_graph_results`.
-/

namespace Fhevm.Worker

open Foundation Scheduler

variable {R S ε : Type}

/-! ## Execution -/

structure WorkerSetup (R S ε : Type) where
  /-- The FHE library with the keys of a tenant. -/
  engine : ℤ → FheEngine R S ε
  toposort : Toposort
  strategy : PartitionStrategy
  workItemsBatchSize : ℕ
  /-- Whether an error is one of the evaluator. -/
  isFhevmError : ε → Bool

attribute [local instance] lawfulBEq_handle

/-- The ciphertexts of a tenant for some handles. -/
def Database.queriedCiphertexts (db : Database) (tenantId : ℤ) (handles : List Handle) :
    List Ciphertext :=
  db.ciphertexts.rows.filter fun c => decide (c.tenantId = tenantId ∧ c.handle ∈ handles)

/-- The ciphertexts of the rows by handle. -/
def ciphertextMap (rows : List Ciphertext) : HashMap Handle (ℤ × List UInt8) :=
  HashMap.empty.insertAll (rows.map fun c => (c.handle, c.ciphertextType, c.ciphertext))

def addInputs (g : DFComponentGraph R ε) (inputs : List (Handle × ℤ × List UInt8)) :
    Except SchedulerError (DFComponentGraph R ε) :=
  inputs.foldlM (fun g e => g.addInput e.1 (.compressed e.2.1 e.2.2 true)) g

/-- The graph of a tenant's components at the end of its execution. Rows come in
any order, and so do the entries of the map that is made of them. -/
inductive Executes (w : WorkerSetup R S ε) (db : Database) (tenantId : ℤ)
    (components : List (ComponentNode R)) : DFComponentGraph R ε → Prop
  | intro {built loaded : DFComponentGraph R ε} {rows : List Ciphertext}
      {inputs : List (Handle × ℤ × List UInt8)} {s : SchedState R ε}
      (hbuild : DFComponentGraph.build components = .ok built)
      (hrows : rows.Perm (db.queriedCiphertexts tenantId built.neededMap.keys))
      (hinputs : inputs.Perm (ciphertextMap rows).entries)
      (hload : addInputs built inputs = .ok loaded)
      (hrun : Reachable (w.engine tenantId) w.toposort w.strategy loaded s) (hfinal : Final s) :
      Executes w db tenantId components s.graph

/-! ## Statements -/

namespace Computation

def withError (message : String) (c : Computation) : Computation :=
  { c with isError := true, errorMessage := some message }

def completed (now : ℕ) (c : Computation) : Computation :=
  { c with isCompleted := true, completedAt := some now }

/-- `CURRENT_TIMESTAMP + INTERVAL '1 second' * uncomputable_counter` -/
def postponed (now : ℕ) (c : Computation) : Computation :=
  { c with
    scheduleOrder := now + 1000000 * c.uncomputableCounter
    uncomputableCounter := min (c.uncomputableCounter * 2) 32000 }

@[simp] theorem key_withError (message : String) (c : Computation) :
    (c.withError message).key = c.key := rfl

@[simp] theorem key_completed (now : ℕ) (c : Computation) : (c.completed now).key = c.key := rfl

@[simp] theorem key_postponed (now : ℕ) (c : Computation) : (c.postponed now).key = c.key := rfl

end Computation

/-- `UPDATE computations SET … WHERE tenant_id = … AND (output_handle, transaction_id) IN …` -/
def Database.updateTenant (db : Database) (tenantId : ℤ) (keys : List OutputKey)
    (f : Computation → Computation) (hf : ∀ c, (f c).key = c.key) : Database :=
  { db with
    computations := db.computations.update
      (fun c => decide (c.tenantId = tenantId ∧ c.outputKey ∈ keys)) f hf }

inductive Statement
  | setError (tenantId : ℤ) (key : OutputKey) (message : String)
  | insertCiphertexts (cts : List Ciphertext)
  | setCompleted (tenantId : ℤ) (keys : List OutputKey)
  | postpone (tenantId : ℤ) (keys : List OutputKey)
deriving DecidableEq, Repr

/-- What a statement does in a transaction that began at `now`. -/
def Statement.run (now : ℕ) (db : Database) : Statement → Database
  | .setError tenantId key message =>
    db.updateTenant tenantId [key] (.withError message) (Computation.key_withError message)
  | .insertCiphertexts cts => cts.foldl Database.insertCiphertext db
  | .setCompleted tenantId keys =>
    db.updateTenant tenantId keys (.completed now) (Computation.key_completed now)
  | .postpone tenantId keys =>
    db.updateTenant tenantId keys (.postponed now) (Computation.key_postponed now)

def Database.runStatements (now : ℕ) (db : Database) (statements : List Statement) : Database :=
  statements.foldl (Statement.run now) db

/-! ## Upload -/

/-- An error as the upload sees it. -/
inductive CoprocessorError
  | fhevmError
  | schedulerError (e : SchedulerError)
deriving DecidableEq, Repr

def CoprocessorError.ofTaskError (isFhevmError : ε → Bool) : TaskError ε → CoprocessorError
  | .scheduler e => .schedulerError e
  | .other e => if isFhevmError e then .fhevmError else .schedulerError .schedulerError

/-- The text that is stored. An error of the evaluator was swapped for `BadInputs` before. -/
def CoprocessorError.message : CoprocessorError → String
  | .fhevmError => "Bad inputs"
  | .schedulerError e => e.message

structure UploadProgress where
  ctsToInsert : List Ciphertext := []
  uncomputable : List OutputKey := []
  errors : List Statement := []

/-- One result of a tenant. -/
def uploadResult (isFhevmError : ε → Bool) (tenantId : ℤ) (p : UploadProgress)
    (result : DFGTxResult ε) : UploadProgress :=
  match result.compressedCt with
  | .ok (dbType, dbBytes) =>
    { p with ctsToInsert := p.ctsToInsert ++
        [⟨tenantId, result.handle, dbBytes, currentCiphertextVersion, dbType⟩] }
  | .error err =>
    let cerr := CoprocessorError.ofTaskError isFhevmError err
    let key := (result.handle, result.transactionId)
    if cerr = .schedulerError .dataflowGraphError ∨ cerr = .schedulerError .schedulerError then p
    else
      -- missing inputs are an error of the computation like any other from here on
      { p with
        uncomputable :=
          if cerr = .schedulerError .missingInputs then p.uncomputable ++ [key]
          else p.uncomputable
        errors := p.errors ++ [.setError tenantId key cerr.message] }

/-- The upload of a tenant's results: the graph after its execution, and the
pruned handles that are left. -/
structure Upload (R ε : Type) where
  tenantId : ℤ
  graph : DFComponentGraph R ε
  unneededHandles : List OutputKey

namespace Upload

/-- The handles that are marked as completed. -/
def handlesToUpdate (u : Upload R ε) : List OutputKey := u.graph.getHandles ++ u.unneededHandles

def progress (isFhevmError : ε → Bool) (u : Upload R ε) : UploadProgress :=
  u.graph.results.foldl (uploadResult isFhevmError u.tenantId) {}

/-- The statements, in order. -/
def statements (isFhevmError : ε → Bool) (u : Upload R ε) : List Statement :=
  let p := u.progress isFhevmError
  p.errors ++ [.insertCiphertexts p.ctsToInsert, .setCompleted u.tenantId u.handlesToUpdate,
    .postpone u.tenantId p.uncomputable]

end Upload

/-! ## What a statement does -/

/-- The tenant whose computations a statement changes. -/
def Statement.tenant? : Statement → Option ℤ
  | .setError tenantId _ _ => some tenantId
  | .insertCiphertexts _ => none
  | .setCompleted tenantId _ => some tenantId
  | .postpone tenantId _ => some tenantId

theorem rows_updateTenant (db : Database) (tenantId : ℤ) (keys : List OutputKey)
    (f : Computation → Computation) (hf : ∀ c, (f c).key = c.key) :
    (db.updateTenant tenantId keys f hf).computations.rows = db.computations.rows.map
      fun c => if c.tenantId = tenantId ∧ c.outputKey ∈ keys then f c else c := by
  simp [Database.updateTenant]

@[simp] theorem computations_foldl_insertCiphertext (db : Database) (cts : List Ciphertext) :
    (cts.foldl Database.insertCiphertext db).computations = db.computations := by
  induction cts generalizing db with
  | nil => rfl
  | cons c cts ih => rw [List.foldl_cons, ih, Database.insertCiphertext]

/-- A statement changes the computations that are of its tenant. -/
theorem Statement.run_tenantRows (st : Statement) (now : ℕ) (db : Database) {t : ℤ}
    (ht : st.tenant? ≠ some t) : (st.run now db).tenantRows t = db.tenantRows t := by
  have hupdate : ∀ {tenantId keys} {f : Computation → Computation} {hf : ∀ c, (f c).key = c.key},
      tenantId ≠ t → (db.updateTenant tenantId keys f hf).tenantRows t = db.tenantRows t := by
    intro tenantId keys f hf hne
    refine Table.rowsWhere_update db.computations hf fun c hc => ?_
    simp only [decide_eq_true_eq] at hc
    simpa [Computation.key, hc.1] using hne
  cases st with
  | setError tenantId key message => exact hupdate fun h => ht (congrArg some h)
  | insertCiphertexts cts => rw [run, Database.tenantRows, computations_foldl_insertCiphertext]; rfl
  | setCompleted tenantId keys => exact hupdate fun h => ht (congrArg some h)
  | postpone tenantId keys => exact hupdate fun h => ht (congrArg some h)

theorem Database.updateTenant_keeps {P : Computation → Prop} {db : Database} {tenantId : ℤ}
    {keys : List OutputKey} {f : Computation → Computation} {hf : ∀ c, (f c).key = c.key}
    (hP : ∀ c, P c → P (f c)) :
    Table.Keeps P db.computations (db.updateTenant tenantId keys f hf).computations :=
  .update _ hf fun c _ => hP c

/-- No statement takes a property away that errors, completions and delays leave alone. -/
theorem Statement.run_keeps {P : Computation → Prop} (hP : ∀ c, P c →
      (∀ message, P (c.withError message)) ∧ ∀ now, P (c.completed now) ∧ P (c.postponed now))
    (st : Statement) (now : ℕ) (db : Database) :
    Table.Keeps P db.computations (st.run now db).computations := by
  cases st with
  | setError tenantId key message => exact Database.updateTenant_keeps fun c h => (hP c h).1 message
  | insertCiphertexts cts =>
    rw [run, computations_foldl_insertCiphertext]
    exact .refl _
  | setCompleted tenantId keys => exact Database.updateTenant_keeps fun c h => ((hP c h).2 now).1
  | postpone tenantId keys => exact Database.updateTenant_keeps fun c h => ((hP c h).2 now).2

theorem Database.runStatements_keeps {P : Computation → Prop} (hP : ∀ c, P c →
      (∀ message, P (c.withError message)) ∧ ∀ now, P (c.completed now) ∧ P (c.postponed now))
    (now : ℕ) (statements : List Statement) (db : Database) :
    Table.Keeps P db.computations (db.runStatements now statements).computations := by
  induction statements generalizing db with
  | nil => exact .refl _
  | cons st statements ih => exact (st.run_keeps hP now db).trans (ih _)

theorem Database.runStatements_append (now : ℕ) (db : Database) (l l' : List Statement) :
    db.runStatements now (l ++ l') = (db.runStatements now l).runStatements now l' :=
  List.foldl_append

theorem Database.runStatements_tenantRows {statements : List Statement} {t : ℤ}
    (h : ∀ st ∈ statements, st.tenant? ≠ some t) (now : ℕ) (db : Database) :
    (db.runStatements now statements).tenantRows t = db.tenantRows t := by
  induction statements generalizing db with
  | nil => rfl
  | cons st statements ih =>
    rw [List.forall_mem_cons] at h
    exact (ih h.2 _).trans (st.run_tenantRows now db h.1)

/-! ## The statements of an upload -/

section Upload

variable {isFhevmError : ε → Bool} {tenantId : ℤ}

/-- The error that is stored for a result. -/
def errorStatements (isFhevmError : ε → Bool) (tenantId : ℤ) (result : DFGTxResult ε) :
    List Statement :=
  match result.compressedCt with
  | .ok _ => []
  | .error err =>
    let cerr := CoprocessorError.ofTaskError isFhevmError err
    if cerr = .schedulerError .dataflowGraphError ∨ cerr = .schedulerError .schedulerError then []
    else [.setError tenantId (result.handle, result.transactionId) cerr.message]

theorem errors_uploadResult (p : UploadProgress) (result : DFGTxResult ε) :
    (uploadResult isFhevmError tenantId p result).errors =
      p.errors ++ errorStatements isFhevmError tenantId result := by
  unfold uploadResult errorStatements
  cases result.compressedCt with
  | ok _ => simp
  | error err =>
    dsimp only
    split <;> simp

theorem errors_foldl_uploadResult (results : List (DFGTxResult ε)) (p : UploadProgress) :
    (results.foldl (uploadResult isFhevmError tenantId) p).errors =
      p.errors ++ results.flatMap (errorStatements isFhevmError tenantId) := by
  induction results generalizing p with
  | nil => simp
  | cons result results ih => simp [ih, errors_uploadResult]

/-- The statements of an upload, in terms of its results. -/
theorem Upload.statements_eq (u : Upload R ε) :
    u.statements isFhevmError =
      u.graph.results.flatMap (errorStatements isFhevmError u.tenantId) ++
        [.insertCiphertexts (u.progress isFhevmError).ctsToInsert,
          .setCompleted u.tenantId u.handlesToUpdate,
          .postpone u.tenantId (u.progress isFhevmError).uncomputable] := by
  simp [statements, progress, errors_foldl_uploadResult]

theorem mem_errorStatements {result : DFGTxResult ε} {st : Statement}
    (h : st ∈ errorStatements isFhevmError tenantId result) :
    ∃ message, st = .setError tenantId (result.handle, result.transactionId) message := by
  unfold errorStatements at h
  split at h
  · cases h
  · dsimp only at h
    split at h
    · cases h
    · exact ⟨_, List.mem_singleton.mp h⟩

theorem Upload.mem_statements {u : Upload R ε} {st : Statement}
    (h : st ∈ u.statements isFhevmError) :
    (∃ key message, st = .setError u.tenantId key message) ∨
      (∃ cts, st = .insertCiphertexts cts) ∨
      st = .setCompleted u.tenantId u.handlesToUpdate ∨ ∃ keys, st = .postpone u.tenantId keys := by
  rw [statements_eq, List.mem_append, List.mem_flatMap] at h
  rcases h with ⟨result, -, h⟩ | h
  · obtain ⟨message, rfl⟩ := mem_errorStatements h
    exact .inl ⟨_, _, rfl⟩
  · simp only [List.mem_cons, List.not_mem_nil, or_false] at h
    grind

/-- An upload changes no computations of other tenants. -/
theorem Upload.run_tenantRows (u : Upload R ε) (now : ℕ) (db : Database) {t : ℤ}
    (ht : t ≠ u.tenantId) :
    (db.runStatements now (u.statements isFhevmError)).tenantRows t = db.tenantRows t := by
  refine Database.runStatements_tenantRows (fun st hst => ?_) now db
  obtain ⟨key, message, rfl⟩ | ⟨cts, rfl⟩ | rfl | ⟨keys, rfl⟩ := mem_statements hst
  · simpa [Statement.tenant?] using ht.symm
  · simp [Statement.tenant?]
  · simpa [Statement.tenant?] using ht.symm
  · simpa [Statement.tenant?] using ht.symm

end Upload

end Fhevm.Worker
