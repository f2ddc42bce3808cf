import Fhevm.Foundation.Contract
import Fhevm.Scheduler.Batch
import Fhevm.Worker.Database

/-!
# The work of a cycle

A cycle selects transactions by their eligible computations and fetches all
computations of these transactions, of whatever tenant and whether eligible or not.
They are grouped by tenant and transaction, and each transaction is pruned and
split into components.

## Main definitions

* `Computation.isEligible` — the condition under which a computation is selected.
* `FetchesWork`, `GroupsWork` — the rows of a cycle, and their groups.
* `buildTenant`, `prepareWork` — components and pruned handles, of a tenant and of all.
-/

namespace Fhevm.Worker

open Foundation Scheduler

variable {R : Type}

/-! ## The source -/

/-- `is_completed = FALSE AND is_error = FALSE AND is_allowed = TRUE` -/
def Computation.isEligible (c : Computation) : Bool := !c.isCompleted && !c.isError && c.isAllowed

/-- The transactions of the first eligible computations in their schedule order.
Which of those with equal times come first is left open. -/
def SelectsTransactions (db : Database) (batchSize : ℕ) (ids : List Handle) : Prop :=
  ∃ rows : List Computation, rows.Perm (db.computations.rows.filter Computation.isEligible) ∧
    rows.Pairwise (fun c c' => c.scheduleOrder ≤ c'.scheduleOrder) ∧
    ids = ((rows.take batchSize).map Computation.transactionId).dedup

theorem lawfulBEq_handle : LawfulBEq Handle := inferInstance

attribute [local instance] lawfulBEq_handle

/-- All computations of the selected transactions, except those that another
worker has locked. -/
def FetchesWork (db : Database) (batchSize : ℕ) (work : List Computation) : Prop :=
  ∃ ids, SelectsTransactions db batchSize ids ∧
    work.Subperm (db.computations.rows.filter fun c => decide (c.transactionId ∈ ids))

/-- The work of one tenant, by transaction. -/
abbrev TenantWork := List (Handle × List Computation)

/-- The work by tenant and transaction. The maps are visited in any order. -/
def GroupsWork (work : List Computation) (tenants : List (ℤ × TenantWork)) : Prop :=
  ∃ workByTenant : List (ℤ × List Computation),
    workByTenant.Perm (intoGroupMapBy Computation.tenantId work).entries ∧
    List.Forall₂ (fun group tenant => tenant.1 = group.1 ∧
      tenant.2.Perm (intoGroupMapBy Computation.transactionId group.2).entries)
      workByTenant tenants

/-- A failure that ends the cycle, and rolls it back. -/
inductive CycleFailure
  | operation (e : OperationFailure)
  | scheduler (e : SchedulerError)
deriving DecidableEq, Repr

/-- Check and build one transaction. -/
def addWork (T : Toposort) (s : List (ComponentNode R) × List OutputKey)
    (tx : Handle × List Computation) :
    Except CycleFailure (List (ComponentNode R) × List OutputKey) := do
  let ops ← (tx.2.mapM Computation.toOp).mapError .operation
  (addTransaction T s (tx.1, ops)).mapError .scheduler

/-- The components of a tenant's transactions, and the handles that were pruned. -/
def buildTenant (T : Toposort) (txs : TenantWork) :
    Except CycleFailure (List (ComponentNode R) × List OutputKey) :=
  txs.foldlM (addWork T) ([], [])

def addTenant (T : Toposort) (s : List (ℤ × List (ComponentNode R)) × List OutputKey)
    (tenant : ℤ × TenantWork) :
    Except CycleFailure (List (ℤ × List (ComponentNode R)) × List OutputKey) := do
  let (components, unneeded) ← buildTenant T tenant.2
  return (s.1 ++ [(tenant.1, components)], s.2 ++ unneeded)

/-- The components of each tenant, and the pruned handles of all tenants. -/
def prepareWork (T : Toposort) (tenants : List (ℤ × TenantWork)) :
    Except CycleFailure (List (ℤ × List (ComponentNode R)) × List OutputKey) :=
  tenants.foldlM (addTenant T) ([], [])

/-! ## Lists in correspondence -/

section Forall₂

variable {α β γ : Type} {r : α → β → Prop} {l : List α} {l' : List β}

theorem forall₂_exists_right (h : List.Forall₂ r l l') {a : α} (ha : a ∈ l) :
    ∃ b ∈ l', r a b := by
  obtain ⟨k, hk⟩ := List.mem_iff_getElem?.mp ha
  obtain ⟨hnone, -⟩ | ⟨a', b, ha', hb, hab⟩ := forall₂_getElem? h k
  · rw [hk] at hnone
    cases hnone
  · obtain rfl : a = a' := Option.some.inj (hk.symm.trans ha')
    exact ⟨b, List.mem_of_getElem? hb, hab⟩

theorem forall₂_exists_left (h : List.Forall₂ r l l') {b : β} (hb : b ∈ l') :
    ∃ a ∈ l, r a b :=
  forall₂_exists_right h.flip hb

theorem forall₂_comp {s : β → γ → Prop} {t : α → γ → Prop} {l'' : List γ}
    (h : List.Forall₂ r l l') (h' : List.Forall₂ s l' l'')
    (hrs : ∀ a b c, r a b → s b c → t a c) : List.Forall₂ t l l'' := by
  induction h generalizing l'' with
  | nil =>
    cases h'
    exact .nil
  | cons hab _ ih =>
    cases h' with
    | cons hbc h' => exact .cons (hrs _ _ _ hab hbc) (ih h')

theorem map_eq_of_forall₂ {f : α → γ} {g : β → γ} (h : List.Forall₂ r l l')
    (hfg : ∀ a b, r a b → f a = g b) : l.map f = l'.map g := by
  rw [← List.forall₂_eq_eq_eq, List.forall₂_map_left_iff, List.forall₂_map_right_iff]
  exact h.imp hfg

end Forall₂

/-! ## Transactions of a tenant -/

/-- The operations of the rows of a transaction. -/
def OperationsOf (tx : Handle × List Computation) (b : Handle × List (DFGOp R)) : Prop :=
  b.1 = tx.1 ∧ tx.2.mapM Computation.toOp = .ok b.2

theorem foldlM_addWork_eq_ok {T : Toposort} {txs : TenantWork}
    {s r : List (ComponentNode R) × List OutputKey} :
    txs.foldlM (addWork T) s = .ok r ↔
      ∃ batch, List.Forall₂ OperationsOf txs batch ∧ batch.foldlM (addTransaction T) s = .ok r := by
  induction txs generalizing s with
  | nil => simp
  | cons tx txs ih =>
    simp only [List.foldlM_cons, addWork, bind_eq_ok, mapError_eq_ok, ih,
      List.forall₂_cons_left_iff]
    constructor
    · rintro ⟨s', ⟨ops, hops, hadd⟩, batch, hall, hrun⟩
      refine ⟨_, ⟨(tx.1, ops), batch, ⟨rfl, hops⟩, hall, rfl⟩, ?_⟩
      rw [List.foldlM_cons, bind_eq_ok]
      exact ⟨s', hadd, hrun⟩
    · rintro ⟨_, ⟨⟨tid, ops⟩, batch, ⟨rfl, hops⟩, hall, rfl⟩, hrun⟩
      rw [List.foldlM_cons, bind_eq_ok] at hrun
      obtain ⟨s', hadd, hrun⟩ := hrun
      exact ⟨s', ⟨ops, hops, hadd⟩, batch, hall, hrun⟩

/-- A tenant's components are those of the batch of its operations. -/
theorem buildTenant_eq_ok {T : Toposort} {txs : TenantWork}
    {r : List (ComponentNode R) × List OutputKey} :
    buildTenant T txs = .ok r ↔
      ∃ batch, List.Forall₂ OperationsOf txs batch ∧ buildBatch T batch = .ok r :=
  foldlM_addWork_eq_ok

/-- What is built for the tenants, one after the other. -/
structure Prepared (T : Toposort) (tenant : ℤ × TenantWork)
    (b : ℤ × List (ComponentNode R) × List OutputKey) : Prop where
  tenantId : b.1 = tenant.1
  built : buildTenant T tenant.2 = .ok b.2

theorem foldlM_addTenant {T : Toposort} {tenants : List (ℤ × TenantWork)}
    {s r : List (ℤ × List (ComponentNode R)) × List OutputKey}
    (h : tenants.foldlM (addTenant T) s = .ok r) :
    ∃ bs, List.Forall₂ (Prepared T) tenants bs ∧
      r = (s.1 ++ bs.map (fun b => (b.1, b.2.1)), s.2 ++ bs.flatMap (fun b => b.2.2)) := by
  induction tenants generalizing s with
  | nil =>
    cases h
    exact ⟨[], .nil, by simp⟩
  | cons tenant tenants ih =>
    simp only [List.foldlM_cons, addTenant, bind_eq_ok, pure_eq_ok] at h
    obtain ⟨_, ⟨⟨components, unneeded⟩, hbuild, rfl⟩, h⟩ := h
    obtain ⟨bs, hall, rfl⟩ := ih h
    exact ⟨(tenant.1, components, unneeded) :: bs, .cons ⟨rfl, hbuild⟩ hall, by simp⟩

theorem prepareWork_eq_ok {T : Toposort} {tenants : List (ℤ × TenantWork)}
    {transactions : List (ℤ × List (ComponentNode R))} {unneeded : List OutputKey}
    (h : prepareWork T tenants = .ok (transactions, unneeded)) :
    ∃ bs, List.Forall₂ (Prepared T) tenants bs ∧
      transactions = bs.map (fun b => (b.1, b.2.1)) ∧
      unneeded = bs.flatMap (fun b => b.2.2) := by
  obtain ⟨bs, hall, heq⟩ := foldlM_addTenant h
  obtain ⟨rfl, rfl⟩ := Prod.mk.inj heq
  exact ⟨bs, hall, by simp, by simp⟩

/-! ## Keys of the work -/

section Keys

variable {db : Database} {batchSize : ℕ} {work : List Computation}
  {tenants : List (ℤ × TenantWork)}

theorem FetchesWork.subperm (h : FetchesWork db batchSize work) :
    work.Subperm db.computations.rows := by
  obtain ⟨ids, -, hsub⟩ := h
  exact hsub.trans List.filter_sublist.subperm

/-- The rows of a cycle have distinct keys. -/
theorem FetchesWork.nodup (h : FetchesWork db batchSize work) :
    (work.map Computation.key).Nodup := by
  obtain ⟨l, hperm, hsub⟩ := h.subperm
  exact ((hperm.map _).nodup_iff).mp ((hsub.map _).nodup db.computations.nodup)

theorem GroupsWork.mem (h : GroupsWork work tenants) {tenant : ℤ × TenantWork}
    (htenant : tenant ∈ tenants) : tenant.2.Perm (intoGroupMapBy Computation.transactionId
      (work.filter fun c => c.tenantId = tenant.1)).entries := by
  obtain ⟨byTenant, hperm, hall⟩ := h
  obtain ⟨group, hgroup, heq, htxs⟩ := forall₂_exists_left hall htenant
  have hmem := hperm.mem_iff.mp hgroup
  rw [heq, ← (mem_intoGroupMapBy.mp hmem).1]
  exact htxs

/-- Every tenant comes once. -/
theorem GroupsWork.nodup (h : GroupsWork work tenants) : (tenants.map Prod.fst).Nodup := by
  obtain ⟨byTenant, hperm, hall⟩ := h
  rw [← map_eq_of_forall₂ hall fun _ _ hgroup => hgroup.1.symm]
  exact ((hperm.map Prod.fst).nodup_iff).mpr (intoGroupMapBy _ work).nodup

/-- The rows of a transaction of a tenant. -/
theorem GroupsWork.mem_tx (h : GroupsWork work tenants) {tenant : ℤ × TenantWork}
    (htenant : tenant ∈ tenants) {tx : Handle × List Computation} (htx : tx ∈ tenant.2) :
    tx.2 = (work.filter fun c => c.tenantId = tenant.1).filter
      fun c => c.transactionId = tx.1 :=
  (mem_intoGroupMapBy.mp ((h.mem htenant).mem_iff.mp htx)).1

theorem GroupsWork.nodup_tx (h : GroupsWork work tenants) {tenant : ℤ × TenantWork}
    (htenant : tenant ∈ tenants) : (tenant.2.map Prod.fst).Nodup :=
  (((h.mem htenant).map Prod.fst).nodup_iff).mpr
    (intoGroupMapBy Computation.transactionId _).nodup

/-- In a transaction of a tenant output handles are distinct. -/
theorem GroupsWork.nodup_handles (hfetch : FetchesWork db batchSize work)
    (h : GroupsWork work tenants) {tenant : ℤ × TenantWork} (htenant : tenant ∈ tenants)
    {tx : Handle × List Computation} (htx : tx ∈ tenant.2) :
    (tx.2.map Computation.outputHandle).Nodup := by
  rw [h.mem_tx htenant htx, List.filter_filter]
  have hsub := (List.filter_sublist (l := work) (p := fun c =>
    decide (c.transactionId = tx.1) && decide (c.tenantId = tenant.1))).map Computation.key
  refine List.Nodup.map_on ?_ (List.Nodup.of_map _ (hsub.nodup hfetch.nodup))
  intro c hc c' hc' hhandle
  refine List.inj_on_of_nodup_map hfetch.nodup (List.mem_of_mem_filter hc)
    (List.mem_of_mem_filter hc') ?_
  have hc := (List.mem_filter.mp hc).2
  have hc' := (List.mem_filter.mp hc').2
  simp only [Bool.and_eq_true, decide_eq_true_eq] at hc hc'
  simp [Computation.key, Computation.outputKey, hhandle, hc, hc']

/-- The operations of a transaction have the handles of its rows. -/
theorem OperationsOf.outputHandle {tx : Handle × List Computation}
    {b : Handle × List (DFGOp R)} (h : OperationsOf tx b) :
    List.Forall₂ (fun c op => c.toOp = .ok op) tx.2 b.2 := mapM_eq_ok.mp h.2

end Keys

end Fhevm.Worker
