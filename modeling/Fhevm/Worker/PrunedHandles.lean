import Fhevm.Scheduler.Computed
import Fhevm.Worker.UsedOutputs

/-!
# Pruned handles of several tenants

The pruned handles of all tenants are collected in one list, and the upload of the
tenant that is processed first takes them all. Its statement marks computations of
this tenant only, so that the pruned handles of the others are not marked.

## Main definitions

* `WorkerCycle.completions` — how often a computation is marked as completed.
* `MarksPruned` — pruned handles are marked once, and tenants are kept apart.
* `marksPruned_iff` — the cycles that do so.
-/

namespace Fhevm.Worker

open Foundation Scheduler

variable {R S ε : Type}

/-! ## Marked computations -/

theorem lawfulBEq_outputKey : LawfulBEq OutputKey := inferInstance

attribute [local instance] lawfulBEq_outputKey

/-- The statement marks the computation as completed. -/
def Statement.marks (tenantId : ℤ) (key : OutputKey) : Statement → Bool
  | .setCompleted tenantId' keys => decide (tenantId' = tenantId ∧ key ∈ keys)
  | _ => false

/-- How often a cycle marks a computation as completed. -/
def WorkerCycle.completions {w : WorkerSetup R S ε} {db : Database} (c : WorkerCycle w db)
    (tenantId : ℤ) (key : OutputKey) : ℕ :=
  c.statements.countP (Statement.marks tenantId key)

/-- The pruned handles of a tenant are marked once as completed for it, and an upload
changes no computations of other tenants. -/
structure MarksPruned {w : WorkerSetup R S ε} {db : Database} (c : WorkerCycle w db) : Prop where
  once : ∀ tenant ∈ c.tenants, ∀ (components : List (ComponentNode R)) (unneeded : List OutputKey),
    buildTenant w.toposort tenant.2 = .ok (components, unneeded) →
      ∀ key ∈ unneeded, c.completions tenant.1 key = 1
  apart : ∀ u ∈ c.uploads, ∀ (db' : Database) (t : ℤ), t ≠ u.tenantId →
    (db'.runStatements c.now (u.statements w.isFhevmError)).tenantRows t = db'.tenantRows t

/-- What a statement does to one computation. -/
def Statement.onComputation (now : ℕ) (c : Computation) : Statement → Computation
  | .setError tenantId key message =>
    if c.tenantId = tenantId ∧ c.outputKey = key then c.withError message else c
  | .insertCiphertexts _ => c
  | .setCompleted tenantId keys =>
    if c.tenantId = tenantId ∧ c.outputKey ∈ keys then c.completed now else c
  | .postpone tenantId keys =>
    if c.tenantId = tenantId ∧ c.outputKey ∈ keys then c.postponed now else c

theorem Statement.rows_run (st : Statement) (now : ℕ) (db : Database) :
    (st.run now db).computations.rows =
      db.computations.rows.map fun c => st.onComputation now c := by
  cases st with
  | insertCiphertexts cts =>
    rw [run, computations_foldl_insertCiphertext]
    exact (List.map_id _).symm
  | setError | setCompleted | postpone =>
    rw [run, rows_updateTenant]
    simp [onComputation]

theorem Database.rows_runStatements (now : ℕ) (db : Database) (statements : List Statement) :
    (db.runStatements now statements).computations.rows =
      db.computations.rows.map fun c => statements.foldl (Statement.onComputation now) c := by
  induction statements generalizing db with
  | nil => exact (List.map_id _).symm
  | cons st statements ih =>
    rw [runStatements, List.foldl_cons, ← runStatements, ih, st.rows_run, List.map_map]
    rfl

theorem Statement.onComputation_spec (st : Statement) (now : ℕ) (c : Computation) :
    (st.onComputation now c).key = c.key ∧
      (st.onComputation now c).isCompleted = (c.isCompleted || st.marks c.tenantId c.outputKey) := by
  cases st with
  | insertCiphertexts cts => simp [onComputation, marks]
  | setCompleted tenantId keys =>
    by_cases h : c.tenantId = tenantId ∧ c.outputKey ∈ keys
    · simp only [onComputation, marks, h.1, h.2]
      exact ⟨rfl, by simp [Computation.completed]⟩
    · rw [onComputation, if_neg h, marks]
      grind
  | setError | postpone =>
    simp only [onComputation, marks, Bool.or_false]
    split <;> exact ⟨rfl, rfl⟩

theorem Statement.foldl_onComputation (statements : List Statement) (now : ℕ) (c : Computation) :
    (statements.foldl (Statement.onComputation now) c).key = c.key ∧
      (statements.foldl (Statement.onComputation now) c).isCompleted =
        (c.isCompleted || statements.any (Statement.marks c.tenantId c.outputKey)) := by
  induction statements generalizing c with
  | nil => simp
  | cons st statements ih =>
    obtain ⟨hkey, hcompleted⟩ := st.onComputation_spec now c
    obtain ⟨htenant, houtput⟩ := Prod.mk.inj hkey
    rw [List.foldl_cons, (ih _).1, (ih _).2, hkey, hcompleted, htenant, houtput]
    simp [Bool.or_assoc]

/-- A cycle completes the computations that it marks, and no others. -/
theorem WorkerCycle.isCompleted_iff {w : WorkerSetup R S ε} {db : Database} (c : WorkerCycle w db)
    {row row' : Computation} (hrow : row ∈ db.computations.rows)
    (hrow' : row' ∈ c.database.computations.rows) (hkey : row'.key = row.key) :
    row'.isCompleted = true ↔
      row.isCompleted = true ∨ 0 < c.completions row.tenantId row.outputKey := by
  have hmem := hrow'
  rw [database, Database.rows_runStatements] at hmem
  obtain ⟨row₁, hrow₁, rfl⟩ := List.mem_map.mp hmem
  obtain ⟨hkey₁, hcompleted⟩ := Statement.foldl_onComputation c.statements c.now row₁
  obtain rfl : row₁ = row := db.computations.eq_of_key_eq hrow₁ hrow (hkey₁.symm.trans hkey)
  rw [hcompleted, Bool.or_eq_true, List.any_eq_true, completions, List.countP_pos_iff]

section Uploads

variable {isFhevmError : ε → Bool}

theorem Upload.countP_marks (u : Upload R ε) (tenantId : ℤ) (key : OutputKey) :
    (u.statements isFhevmError).countP (Statement.marks tenantId key) =
      if u.tenantId = tenantId ∧ key ∈ u.handlesToUpdate then 1 else 0 := by
  have herrors : (u.graph.results.flatMap (errorStatements isFhevmError u.tenantId)).countP
      (Statement.marks tenantId key) = 0 := by
    rw [List.countP_eq_zero]
    intro st hst
    obtain ⟨result, -, hst⟩ := List.mem_flatMap.mp hst
    obtain ⟨message, rfl⟩ := mem_errorStatements hst
    simp [Statement.marks]
  rw [statements_eq, List.countP_append, herrors]
  simp [List.countP_cons, Statement.marks]

/-- Each tenant has one upload, whose handles are marked once for it. -/
theorem countP_marks_uploads {uploads : List (Upload R ε)}
    (hnd : (uploads.map Upload.tenantId).Nodup) {u : Upload R ε} (hu : u ∈ uploads)
    (key : OutputKey) :
    (uploads.flatMap (Upload.statements isFhevmError)).countP (Statement.marks u.tenantId key) =
      if key ∈ u.handlesToUpdate then 1 else 0 := by
  have hother : ∀ us : List (Upload R ε), u.tenantId ∉ us.map Upload.tenantId →
      (us.flatMap (Upload.statements isFhevmError)).countP (Statement.marks u.tenantId key) = 0 := by
    intro us hnot
    rw [List.countP_flatMap, List.sum_eq_zero_iff]
    intro n hn
    obtain ⟨u', hu', rfl⟩ := List.mem_map.mp hn
    have hne : u'.tenantId ≠ u.tenantId := fun h => hnot (h ▸ List.mem_map_of_mem hu')
    simp [Upload.countP_marks, hne]
  obtain ⟨pre, post, rfl⟩ := List.append_of_mem hu
  rw [List.map_append, List.map_cons, List.nodup_append, List.nodup_cons] at hnd
  have hpre : u.tenantId ∉ pre.map Upload.tenantId := fun h =>
    hnd.2.2 _ h _ List.mem_cons_self rfl
  rw [List.flatMap_append, List.flatMap_cons, List.countP_append, List.countP_append,
    hother pre hpre, hother post hnd.2.1.1, Upload.countP_marks]
  simp

end Uploads

/-! ## Tenants and their uploads -/

section Cycle

variable {w : WorkerSetup R S ε} {db : Database}

/-- What was built for a tenant, and what became of it. -/
structure Processed (w : WorkerSetup R S ε) (tenant : ℤ × TenantWork) (u : Upload R ε)
    (components : List (ComponentNode R)) (unneeded : List OutputKey) : Prop where
  tenantId : u.tenantId = tenant.1
  built : buildTenant w.toposort tenant.2 = .ok (components, unneeded)
  executed : ∃ db', Executes w db' tenant.1 components u.graph

theorem Processed.eq_of_built {tenant : ℤ × TenantWork} {u : Upload R ε}
    {components components' : List (ComponentNode R)} {unneeded unneeded' : List OutputKey}
    (h : Processed w tenant u components unneeded)
    (hbuilt : buildTenant w.toposort tenant.2 = .ok (components', unneeded')) :
    components' = components ∧ unneeded' = unneeded :=
  Prod.mk.inj (Except.ok.inj (hbuilt.symm.trans h.built))

theorem WorkerCycle.distinctRows (c : WorkerCycle w db) {tenant : ℤ × TenantWork}
    (htenant : tenant ∈ c.tenants) : DistinctRows tenant.2 where
  transactions := c.grouped.nodup_tx htenant
  handles _ htx := c.grouped.nodup_handles c.fetched htenant htx

/-- The handles that an execution reports are not pruned ones. -/
theorem Processed.not_mem_getHandles {tenant : ℤ × TenantWork} {u : Upload R ε}
    {components : List (ComponentNode R)} {unneeded : List OutputKey}
    (h : Processed w tenant u components unneeded) (hrows : DistinctRows tenant.2)
    {key : OutputKey} (hkey : key ∈ unneeded) : key ∉ u.graph.getHandles := by
  intro hreported
  obtain ⟨batch, hbatch, hbuild⟩ := buildTenant_eq_ok.mp h.built
  obtain ⟨db', hexec⟩ := h.executed
  obtain ⟨c, hc, hresult, htid⟩ := hexec.mem_getHandles (buildBatch_built hbuild) hreported
  have hnot := results_of_buildBatch (hrows.distinctKeys hbatch) hbuild c hc key.1 hresult
  rw [htid] at hnot
  exact hnot hkey

theorem WorkerCycle.forall₂_processed (c : WorkerCycle w db) :
    List.Forall₂ (fun tenant u => ∃ components unneeded, Processed w tenant u components unneeded)
      c.tenants c.uploads := by
  obtain ⟨bs, hbs, htransactions, -⟩ := prepareWork_eq_ok c.prepared
  have huploads := c.processed.forall₂
  rw [htransactions, List.forall₂_map_left_iff] at huploads
  refine forall₂_comp hbs huploads ?_
  rintro tenant ⟨tenantId, components, unneeded⟩ u ⟨rfl, hbuilt⟩ ⟨hid, hexec⟩
  exact ⟨components, unneeded, hid, hbuilt, hexec⟩

/-- A pruned handle is marked when it is among those that the tenant's upload was given. -/
theorem WorkerCycle.completions_of_pruned (c : WorkerCycle w db) {tenant : ℤ × TenantWork}
    (htenant : tenant ∈ c.tenants) {u : Upload R ε} (hu : u ∈ c.uploads)
    {components : List (ComponentNode R)} {unneeded : List OutputKey}
    (h : Processed w tenant u components unneeded) {key : OutputKey} (hkey : key ∈ unneeded) :
    c.completions tenant.1 key = if key ∈ u.unneededHandles then 1 else 0 := by
  have hnd : (c.uploads.map Upload.tenantId).Nodup := by
    rw [← map_eq_of_forall₂ (f := Prod.fst) c.forall₂_processed]
    · exact c.grouped.nodup
    · rintro tenant u ⟨components, unneeded, h⟩
      exact h.tenantId.symm
  have hnot := h.not_mem_getHandles (c.distinctRows htenant) hkey
  rw [WorkerCycle.completions, statements, ← h.tenantId, countP_marks_uploads hnd hu]
  simp [Upload.handlesToUpdate, hnot]

/-- The upload of the tenant that comes first is given the pruned handles of all tenants. -/
theorem WorkerCycle.first_upload (c : WorkerCycle w db) {tenant : ℤ × TenantWork}
    {rest : List (ℤ × TenantWork)} (h : c.tenants = tenant :: rest) :
    ∃ u ∈ c.uploads, (∃ components unneeded, Processed w tenant u components unneeded) ∧
      u.unneededHandles = c.unneededHandles := by
  have hall := c.forall₂_processed
  have hprocessed := c.processed
  generalize c.uploads = uploads at hall hprocessed ⊢
  rw [h] at hall
  cases hall with
  | cons hp _ => exact ⟨_, List.mem_cons_self, hp, hprocessed.unneededHandles.1⟩

/-- The uploads of the other tenants are given none. -/
theorem WorkerCycle.later_upload (c : WorkerCycle w db) {tenant : ℤ × TenantWork}
    (h : tenant ∈ c.tenants.tail) :
    ∃ u ∈ c.uploads, (∃ components unneeded, Processed w tenant u components unneeded) ∧
      u.unneededHandles = [] := by
  have hall := c.forall₂_processed
  have hprocessed := c.processed
  generalize c.uploads = uploads at hall hprocessed ⊢
  generalize c.tenants = tenants at hall h
  cases hall with
  | nil => cases h
  | cons _ hrest =>
    obtain ⟨u, hu, hp⟩ := forall₂_exists_right hrest h
    exact ⟨u, List.mem_cons_of_mem _ hu, hp, hprocessed.unneededHandles.2 u hu⟩

theorem WorkerCycle.mem_unneededHandles (c : WorkerCycle w db) {tenant : ℤ × TenantWork}
    (htenant : tenant ∈ c.tenants) {components : List (ComponentNode R)}
    {unneeded : List OutputKey}
    (hbuilt : buildTenant w.toposort tenant.2 = .ok (components, unneeded)) {key : OutputKey}
    (hkey : key ∈ unneeded) : key ∈ c.unneededHandles := by
  obtain ⟨bs, hbs, -, hunneeded⟩ := prepareWork_eq_ok c.prepared
  obtain ⟨b, hb, hprepared⟩ := forall₂_exists_right hbs htenant
  have hsame : b.2 = (components, unneeded) := Except.ok.inj (hprepared.built.symm.trans hbuilt)
  rw [hunneeded, List.mem_flatMap]
  exact ⟨b, hb, by rwa [hsame]⟩

/-- Every pruned handle is marked once for its tenant if and only if nothing is pruned
from the work of the tenants after the first one. -/
theorem marksPruned_iff (c : WorkerCycle w db) :
    MarksPruned c ↔ ∀ tenant ∈ c.tenants.tail, AllUsed tenant.2 := by
  constructor
  · intro h tenant htail
    have htenant := List.mem_of_mem_tail htail
    obtain ⟨u, hu, ⟨components, unneeded, hp⟩, hnone⟩ := c.later_upload htail
    refine (pruned_eq_nil_iff (c.distinctRows htenant) hp.built).mp ?_
    rw [List.eq_nil_iff_forall_not_mem]
    intro key hkey
    have hone := h.once tenant htenant components unneeded hp.built key hkey
    rw [c.completions_of_pruned htenant hu hp hkey, hnone] at hone
    simp at hone
  · intro h
    refine ⟨fun tenant htenant components unneeded hbuilt key hkey => ?_,
      fun u _ db' t ht => u.run_tenantRows c.now db' ht⟩
    cases htenants : c.tenants with
    | nil =>
      rw [htenants] at htenant
      cases htenant
    | cons first rest =>
      have hcases := htenant
      rw [htenants] at hcases h
      obtain rfl | hrest := List.mem_cons.mp hcases
      · -- the first upload marks what is pruned, also for its own tenant
        obtain ⟨u, hu, ⟨_, _, hp⟩, hunneeded⟩ := c.first_upload htenants
        obtain ⟨rfl, rfl⟩ := hp.eq_of_built hbuilt
        rw [c.completions_of_pruned htenant hu hp hkey, hunneeded,
          if_pos (c.mem_unneededHandles htenant hbuilt hkey)]
      · have hnil := (pruned_eq_nil_iff (c.distinctRows htenant) hbuilt).mpr (h tenant hrest)
        rw [hnil] at hkey
        cases hkey

end Cycle

/-! ## Two tenants with pruned handles -/

/-- An encryption of the byte 5. -/
def encryptionRow (tenantId : ℤ) (outputHandle : Handle) (isAllowed : Bool)
    (transactionId : Handle) : Computation where
  tenantId := tenantId
  outputHandle := outputHandle
  dependencies := [[5], [2]]
  fheOperation := SupportedFheOperations.fheTrivialEncrypt.toInt
  isScalar := true
  isAllowed := isAllowed
  transactionId := transactionId
  scheduleOrder := 0

def tenantWork (tenantId : ℤ) (transactionId : Handle) : TenantWork :=
  [(transactionId, [encryptionRow tenantId [1] true transactionId,
    encryptionRow tenantId [2] false transactionId])]

theorem no_ciphertexts : (([] : List Ciphertext).map Ciphertext.key).Nodup := .nil

/-- An encryption that is allowed and one that nothing uses, for each of two tenants. -/
def twoTenantDatabase : Database where
  computations := ⟨(tenantWork 1 [10]).flatMap Prod.snd ++ (tenantWork 2 [11]).flatMap Prod.snd,
    by decide⟩
  ciphertexts := ⟨[], no_ciphertexts⟩

/-- What is pruned for the second tenant is not marked for it. -/
theorem pruned_of_second_tenant_lost : ¬ ∀ (w : WorkerSetup Term SymbolicSeed FhevmError)
    (db : Database) (c : WorkerCycle w db), MarksPruned c := by
  intro hall
  obtain ⟨r, hr, hzero⟩ := exists_ok_of_check
    (x := cycleInOrder symbolicWorker 0 twoTenantDatabase)
    (P := fun r => (r.2.flatMap (Upload.statements symbolicWorker.isFhevmError)).countP
      (Statement.marks 2 ([2], [11])) == 0) (by decide)
  obtain ⟨b, hbuilt, hpruned⟩ := exists_ok_of_check
    (x := (buildTenant Toposort.kahn (tenantWork 2 [11]) :
      Except CycleFailure (List (ComponentNode Term) × List OutputKey)))
    (P := fun b => decide (([2], [11]) ∈ b.2)) (by decide)
  have htenant : (2, tenantWork 2 [11]) ∈ tenantsInOrder (workInOrder twoTenantDatabase 10) := by
    decide
  have hone := (hall _ _ (WorkerCycle.inOrder hr)).once _ htenant b.1 b.2 hbuilt _
    (of_decide_eq_true hpruned)
  have hnone : (WorkerCycle.inOrder hr).completions 2 ([2], [11]) = 0 := eq_of_beq hzero
  exact Nat.zero_ne_one (hnone.symm.trans hone)

end Fhevm.Worker
