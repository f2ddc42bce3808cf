import Fhevm.Scheduler.SymbolicEngine
import Fhevm.Worker.Upload

/-!
# Cycles of the worker

A cycle fetches work, executes it tenant by tenant and commits the statements of
all uploads. The first upload takes all pruned handles. Between the cycles other
services insert computations and ciphertexts.

## Main definitions

* `ProcessesTenants` — the executions and uploads of a cycle.
* `WorkerCycle`, `WorkerCycle.database` — a cycle that commits, and the database after it.
* `Step`, `Runs` — what happens to the database of a coprocessor.
* `cycleInOrder`, `WorkerCycle.inOrder` — the cycle that leaves everything in its order.
-/

namespace Fhevm.Worker

open Foundation Scheduler

variable {R S ε : Type}

/-- Tenants are processed one after the other. An upload leaves no pruned handles. -/
inductive ProcessesTenants (w : WorkerSetup R S ε) (now : ℕ) :
    List (ℤ × List (ComponentNode R)) → List OutputKey → Database → List (Upload R ε) → Prop
  | nil {unneeded : List OutputKey} {db : Database} : ProcessesTenants w now [] unneeded db []
  | cons {tenantId : ℤ} {components : List (ComponentNode R)} {g : DFComponentGraph R ε}
      {transactions : List (ℤ × List (ComponentNode R))} {unneeded : List OutputKey}
      {db : Database} {uploads : List (Upload R ε)}
      (hexec : Executes w db tenantId components g)
      (hrest : ProcessesTenants w now transactions []
        (db.runStatements now (Upload.statements w.isFhevmError ⟨tenantId, g, unneeded⟩))
        uploads) :
      ProcessesTenants w now ((tenantId, components) :: transactions) unneeded db
        (⟨tenantId, g, unneeded⟩ :: uploads)

/-- A cycle that commits. -/
structure WorkerCycle (w : WorkerSetup R S ε) (db : Database) where
  now : ℕ
  work : List Computation
  tenants : List (ℤ × TenantWork)
  transactions : List (ℤ × List (ComponentNode R))
  unneededHandles : List OutputKey
  uploads : List (Upload R ε)
  fetched : FetchesWork db w.workItemsBatchSize work
  grouped : GroupsWork work tenants
  prepared : prepareWork w.toposort tenants = .ok (transactions, unneededHandles)
  processed : ProcessesTenants w now transactions unneededHandles db uploads

namespace WorkerCycle

variable {w : WorkerSetup R S ε} {db : Database}

def statements (c : WorkerCycle w db) : List Statement :=
  c.uploads.flatMap (Upload.statements w.isFhevmError)

def database (c : WorkerCycle w db) : Database := db.runStatements c.now c.statements

end WorkerCycle

/-- What happens to the database: a worker commits a cycle, or another service
inserts a row. -/
inductive Step (R S ε : Type) : Database → Database → Prop
  | cycle {db : Database} (w : WorkerSetup R S ε) (c : WorkerCycle w db) : Step R S ε db c.database
  | insertComputation {db : Database} (c : Computation) : Step R S ε db (db.insertComputation c)
  | insertCiphertext {db : Database} (c : Ciphertext) : Step R S ε db (db.insertCiphertext c)

def Runs (R S ε : Type) : Database → Database → Prop := Relation.ReflTransGen (Step R S ε)

/-! ## Properties of computations that last -/

section Keeps

variable {P : Computation → Prop} {db db' : Database}

theorem Step.keeps (hP : ∀ c, P c →
      (∀ message, P (c.withError message)) ∧ ∀ now, P (c.completed now) ∧ P (c.postponed now))
    (h : Step R S ε db db') : Table.Keeps P db.computations db'.computations := by
  cases h with
  | cycle w c => exact Database.runStatements_keeps hP c.now c.statements db
  | insertComputation c => exact .insert _ c
  | insertCiphertext c => exact .refl _

/-- What errors, completions and delays leave alone lasts for a whole run. -/
theorem Runs.keeps (hP : ∀ c, P c →
      (∀ message, P (c.withError message)) ∧ ∀ now, P (c.completed now) ∧ P (c.postponed now))
    (h : Runs R S ε db db') : Table.Keeps P db.computations db'.computations := by
  induction h with
  | refl => exact .refl _
  | tail _ hstep ih => exact ih.trans (hstep.keeps hP)

end Keeps

/-! ## The uploads of a cycle -/

section Uploads

variable {w : WorkerSetup R S ε} {now : ℕ} {transactions : List (ℤ × List (ComponentNode R))}
  {unneeded : List OutputKey} {db : Database} {uploads : List (Upload R ε)}

/-- There is an upload for each tenant, of an execution of its components. -/
theorem ProcessesTenants.forall₂ (h : ProcessesTenants w now transactions unneeded db uploads) :
    List.Forall₂ (fun tx u => u.tenantId = tx.1 ∧ ∃ db', Executes w db' tx.1 tx.2 u.graph)
      transactions uploads := by
  induction h with
  | nil => exact .nil
  | cons hexec _ ih => exact .cons ⟨rfl, _, hexec⟩ ih

/-- The first upload has all pruned handles and the others have none. -/
theorem ProcessesTenants.unneededHandles {u : Upload R ε}
    (h : ProcessesTenants w now transactions unneeded db (u :: uploads)) :
    u.unneededHandles = unneeded ∧ ∀ u' ∈ uploads, u'.unneededHandles = [] := by
  have hnone : ∀ {transactions db uploads}, ProcessesTenants w now transactions [] db uploads →
      ∀ u' ∈ uploads, u'.unneededHandles = [] := by
    intro transactions db uploads h
    generalize hnil : ([] : List OutputKey) = unneeded at h
    induction h with
    | nil => simp
    | cons _ _ ih => exact List.forall_mem_cons.mpr ⟨rfl, hnil ▸ ih rfl⟩
  cases h with
  | cons _ hrest => exact ⟨rfl, hnone hrest⟩

end Uploads

/-! ## The cycle that leaves everything in its order -/

section InOrder

attribute [local instance] lawfulBEq_handle

def workInOrder (db : Database) (batchSize : ℕ) : List Computation :=
  let rows := (db.computations.rows.filter Computation.isEligible).insertionSort
    fun c c' => c.scheduleOrder ≤ c'.scheduleOrder
  let ids := ((rows.take batchSize).map Computation.transactionId).dedup
  db.computations.rows.filter fun c => decide (c.transactionId ∈ ids)

def tenantsInOrder (work : List Computation) : List (ℤ × TenantWork) :=
  (intoGroupMapBy Computation.tenantId work).entries.map fun group =>
    (group.1, (intoGroupMapBy Computation.transactionId group.2).entries)

def executeInOrder (w : WorkerSetup R S ε) (db : Database) (tenantId : ℤ)
    (components : List (ComponentNode R)) : Except SchedulerError (DFComponentGraph R ε) := do
  let built ← DFComponentGraph.build components
  let rows := db.queriedCiphertexts tenantId built.neededMap.keys
  let loaded ← addInputs built (ciphertextMap rows).entries
  let s ← runInOrder (w.engine tenantId) w.toposort w.strategy loaded
  require (s.running = []) .schedulerError
  return s.graph

def processInOrder (w : WorkerSetup R S ε) (now : ℕ) :
    List (ℤ × List (ComponentNode R)) → List OutputKey → Database →
      Except SchedulerError (List (Upload R ε))
  | [], _, _ => .ok []
  | (tenantId, components) :: transactions, unneeded, db => do
    let g ← executeInOrder w db tenantId components
    let u : Upload R ε := ⟨tenantId, g, unneeded⟩
    let uploads ← processInOrder w now transactions []
      (db.runStatements now (u.statements w.isFhevmError))
    return u :: uploads

/-- What a cycle prepares, and its uploads. -/
def cycleInOrder (w : WorkerSetup R S ε) (now : ℕ) (db : Database) :
    Except CycleFailure
      ((List (ℤ × List (ComponentNode R)) × List OutputKey) × List (Upload R ε)) := do
  let prepared ← prepareWork w.toposort (tenantsInOrder (workInOrder db w.workItemsBatchSize))
  let uploads ← (processInOrder w now prepared.1 prepared.2 db).mapError .scheduler
  return (prepared, uploads)

theorem fetchesWork_workInOrder (db : Database) (batchSize : ℕ) :
    FetchesWork db batchSize (workInOrder db batchSize) := by
  refine ⟨_, ⟨_, List.perm_insertionSort _ _, ?_, rfl⟩, List.Subperm.refl _⟩
  exact List.pairwise_insertionSort _ _

theorem groupsWork_tenantsInOrder (work : List Computation) :
    GroupsWork work (tenantsInOrder work) := by
  refine ⟨_, List.Perm.refl _, ?_⟩
  rw [tenantsInOrder, List.forall₂_map_right_iff]
  exact List.forall₂_same.mpr fun _ _ => ⟨rfl, List.Perm.refl _⟩

theorem executes_executeInOrder {w : WorkerSetup R S ε} {db : Database} {tenantId : ℤ}
    {components : List (ComponentNode R)} {g : DFComponentGraph R ε}
    (h : executeInOrder w db tenantId components = .ok g) : Executes w db tenantId components g := by
  simp only [executeInOrder, bind_eq_ok, require_eq_ok, pure_eq_ok] at h
  obtain ⟨built, hbuild, loaded, hload, s, hrun, -, hfinal, rfl⟩ := h
  exact .intro hbuild (List.Perm.refl _) (List.Perm.refl _) hload (runInOrder_reachable hrun) hfinal

theorem processesTenants_processInOrder {w : WorkerSetup R S ε} {now : ℕ}
    {transactions : List (ℤ × List (ComponentNode R))} {unneeded : List OutputKey} {db : Database}
    {uploads : List (Upload R ε)}
    (h : processInOrder w now transactions unneeded db = .ok uploads) :
    ProcessesTenants w now transactions unneeded db uploads := by
  induction transactions generalizing unneeded db uploads with
  | nil =>
    cases h
    exact .nil
  | cons tx transactions ih =>
    obtain ⟨tenantId, components⟩ := tx
    simp only [processInOrder, bind_eq_ok, pure_eq_ok] at h
    obtain ⟨g, hexec, rest, hrest, rfl⟩ := h
    exact .cons (executes_executeInOrder hexec) (ih hrest)

theorem cycleInOrder_eq_ok {w : WorkerSetup R S ε} {now : ℕ} {db : Database}
    {r : (List (ℤ × List (ComponentNode R)) × List OutputKey) × List (Upload R ε)}
    (h : cycleInOrder w now db = .ok r) :
    prepareWork w.toposort (tenantsInOrder (workInOrder db w.workItemsBatchSize)) = .ok r.1 ∧
      processInOrder w now r.1.1 r.1.2 db = .ok r.2 := by
  simp only [cycleInOrder, bind_eq_ok, mapError_eq_ok, pure_eq_ok] at h
  obtain ⟨prepared, hprepared, uploads, huploads, rfl⟩ := h
  exact ⟨hprepared, huploads⟩

def WorkerCycle.inOrder {w : WorkerSetup R S ε} {now : ℕ} {db : Database}
    {r : (List (ℤ × List (ComponentNode R)) × List OutputKey) × List (Upload R ε)}
    (h : cycleInOrder w now db = .ok r) : WorkerCycle w db where
  now := now
  work := workInOrder db w.workItemsBatchSize
  tenants := tenantsInOrder (workInOrder db w.workItemsBatchSize)
  transactions := r.1.1
  unneededHandles := r.1.2
  uploads := r.2
  fetched := fetchesWork_workInOrder db w.workItemsBatchSize
  grouped := groupsWork_tenantsInOrder _
  prepared := (cycleInOrder_eq_ok h).1
  processed := processesTenants_processInOrder (cycleInOrder_eq_ok h).2

/-- A worker with the symbolic library for all tenants. -/
def symbolicWorker : WorkerSetup Term SymbolicSeed FhevmError where
  engine _ := symbolicEngine
  toposort := Toposort.kahn
  strategy := .maxParallelism
  workItemsBatchSize := 10
  isFhevmError _ := true

end InOrder

end Fhevm.Worker
