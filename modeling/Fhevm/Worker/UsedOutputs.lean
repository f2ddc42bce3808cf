import Fhevm.Scheduler.Completed
import Fhevm.Scheduler.PrunedHandles
import Fhevm.Worker.Cycle

/-!
# What is pruned from the work of a tenant

The pruned handles of a tenant in terms of its rows: the outputs that are not
allowed and lead to no allowed computation of their transaction. The execution of
the tenant's components reports none of them.

## Main definitions

* `UsedOutput`, `AllUsed` — the outputs that are not pruned.
* `mem_pruned_buildTenant` — the pruned handles of a tenant.
* `Executes.mem_getHandles` — the handles that an execution reports.
-/

namespace Fhevm.Worker

open Foundation Scheduler

variable {R S ε : Type}

/-! ## Used computations -/

/-- The dependencies of a computation that are handles. -/
def Computation.operands (c : Computation) : List Handle :=
  match SupportedFheOperations.tryFrom c.fheOperation with
  | none => []
  | some fheOp =>
    (c.dependencies.zipIdx.filter fun e => !isOperandScalar fheOp c.isScalar e.2).map Prod.fst

/-- The outputs of the allowed computations of a transaction, and those that lead to them. -/
inductive UsedOutput (rows : List Computation) : Handle → Prop
  | allowed {row : Computation} (hrow : row ∈ rows) (hallowed : row.isAllowed = true) :
      UsedOutput rows row.outputHandle
  | operand {row : Computation} {d : Handle} (hrow : row ∈ rows)
      (hused : UsedOutput rows row.outputHandle) (hd : d ∈ row.operands) : UsedOutput rows d

/-- Nothing of a tenant's work is pruned. -/
def AllUsed (txs : TenantWork) : Prop :=
  ∀ tx ∈ txs, ∀ row ∈ tx.2, UsedOutput tx.2 row.outputHandle

/-- What the operation of a row takes over from it. -/
structure OperationOf (c : Computation) (op : DFGOp R) : Prop where
  outputHandle : op.outputHandle = c.outputHandle
  isAllowed : op.isAllowed = c.isAllowed
  operands : ∀ d, .dependence d ∈ op.inputs ↔ d ∈ c.operands

theorem operationOf_toOp {c : Computation} {op : DFGOp R} (h : c.toOp = .ok op) :
    OperationOf c op := by
  unfold Computation.toOp at h
  split at h
  · cases h
  · rename_i fheOp hop
    simp only [bind_eq_ok, pure_eq_ok] at h
    obtain ⟨-, -, rfl⟩ := h
    refine ⟨rfl, rfl, fun d => ?_⟩
    have hmem : (.dependence d : DFGTaskInput R) ∈ c.inputs fheOp ↔
        ∃ idx, c.dependencies[idx]? = some d ∧ isOperandScalar fheOp c.isScalar idx = false := by
      simp only [Computation.inputs, List.mem_iff_getElem?, List.getElem?_mapIdx,
        Option.map_eq_some_iff]
      grind
    rw [hmem, Computation.operands, hop]
    simp [List.mem_zipIdx_iff_getElem?]

section Transaction

variable {tx : Handle × List Computation} {b : Handle × List (DFGOp R)}

theorem OperationsOf.forall₂ (h : OperationsOf tx b) : List.Forall₂ OperationOf tx.2 b.2 :=
  h.outputHandle.imp fun _ _ => operationOf_toOp

theorem OperationsOf.map_outputHandle (h : OperationsOf tx b) :
    b.2.map DFGOp.outputHandle = tx.2.map Computation.outputHandle :=
  (map_eq_of_forall₂ h.forall₂ fun _ _ hsame => hsame.outputHandle.symm).symm

/-- The operations of a transaction use the handles that its rows use. -/
theorem OperationsOf.used_iff (h : OperationsOf tx b) {handle : Handle} :
    Used b.2 handle ↔ UsedOutput tx.2 handle := by
  constructor <;> intro hused
  · induction hused with
    | allowed hop hallowed =>
      obtain ⟨row, hrow, hsame⟩ := forall₂_exists_left h.forall₂ hop
      rw [hsame.outputHandle]
      exact .allowed hrow (hsame.isAllowed ▸ hallowed)
    | operand hop _ hd ih =>
      obtain ⟨row, hrow, hsame⟩ := forall₂_exists_left h.forall₂ hop
      exact .operand hrow (hsame.outputHandle ▸ ih) ((hsame.operands _).mp hd)
  · induction hused with
    | allowed hrow hallowed =>
      obtain ⟨op, hop, hsame⟩ := forall₂_exists_right h.forall₂ hrow
      rw [← hsame.outputHandle]
      exact .allowed hop (hsame.isAllowed ▸ hallowed)
    | operand hrow _ hd ih =>
      obtain ⟨op, hop, hsame⟩ := forall₂_exists_right h.forall₂ hrow
      exact .operand hop (hsame.outputHandle ▸ ih) ((hsame.operands _).mpr hd)

end Transaction

/-! ## What is pruned -/

/-- Transactions are distinct, and so are the output handles of each. -/
structure DistinctRows (txs : TenantWork) : Prop where
  transactions : (txs.map Prod.fst).Nodup
  handles : ∀ tx ∈ txs, (tx.2.map Computation.outputHandle).Nodup

section Tenant

variable {T : Toposort} {txs : TenantWork} {batch : List (Handle × List (DFGOp R))}
  {components : List (ComponentNode R)} {unneeded : List OutputKey}

theorem DistinctRows.distinctKeys (h : DistinctRows txs)
    (hbatch : List.Forall₂ OperationsOf txs batch) : DistinctKeys batch where
  transactions := by
    rw [← map_eq_of_forall₂ hbatch fun _ _ hops => hops.1.symm]
    exact h.transactions
  handles b hb := by
    obtain ⟨tx, htx, hops⟩ := forall₂_exists_left hbatch hb
    rw [DistinctHandles, hops.map_outputHandle]
    exact h.handles tx htx

/-- The outputs that no allowed computation uses are pruned. -/
theorem mem_pruned_buildTenant (hrows : DistinctRows txs)
    (h : buildTenant T txs = .ok (components, unneeded)) (key : OutputKey) :
    key ∈ unneeded ↔ ∃ tx ∈ txs, key.2 = tx.1 ∧
      (∃ row ∈ tx.2, row.outputHandle = key.1) ∧ ¬ UsedOutput tx.2 key.1 := by
  obtain ⟨batch, hbatch, hbuild⟩ := buildTenant_eq_ok.mp h
  have hkeys := hrows.distinctKeys hbatch
  have hpruned : ∀ {tx b}, b ∈ batch → OperationsOf tx b → (PrunedHandle b.2 key.1 ↔
      (∃ row ∈ tx.2, row.outputHandle = key.1) ∧ ¬ UsedOutput tx.2 key.1) := by
    intro tx b hb hops
    obtain ⟨g, hg⟩ := Option.isSome_iff_exists.mp (isSome_of_buildBatch hkeys hbuild b hb)
    have hmem := congrArg (key.1 ∈ ·) hops.map_outputHandle
    simp only [List.mem_map, eq_iff_iff] at hmem
    rw [prunedHandle_iff (hkeys.handles b hb) hg, hmem, hops.used_iff]
  rw [mem_pruned_buildBatch hkeys.handles hbuild]
  constructor
  · rintro ⟨b, hb, htid, hhandle⟩
    obtain ⟨tx, htx, hops⟩ := forall₂_exists_left hbatch hb
    exact ⟨tx, htx, htid.trans hops.1, (hpruned hb hops).mp hhandle⟩
  · rintro ⟨tx, htx, htid, hunused⟩
    obtain ⟨b, hb, hops⟩ := forall₂_exists_right hbatch htx
    exact ⟨b, hb, htid.trans hops.1.symm, (hpruned hb hops).mpr hunused⟩

theorem pruned_eq_nil_iff (hrows : DistinctRows txs)
    (h : buildTenant T txs = .ok (components, unneeded)) : unneeded = [] ↔ AllUsed txs := by
  rw [List.eq_nil_iff_forall_not_mem]
  constructor
  · intro hnil tx htx row hrow
    by_contra hunused
    exact hnil (row.outputHandle, tx.1) ((mem_pruned_buildTenant hrows h _).mpr
      ⟨tx, htx, rfl, ⟨row, hrow, rfl⟩, hunused⟩)
  · intro hall key hkey
    obtain ⟨tx, htx, -, ⟨row, hrow, heq⟩, hunused⟩ := (mem_pruned_buildTenant hrows h key).mp hkey
    exact hunused (heq ▸ hall tx htx row hrow)

end Tenant

/-! ## Handles of an executed graph -/

/-- The handles that each component produces, with its transaction. -/
def outputs (nodes : List (ComponentNode R)) : List (List Handle × Handle) :=
  nodes.map fun n => (n.results, n.transactionId)

theorem outputs_addInput {g g' : DFComponentGraph R ε} {handle : Handle} {input : DFGTxInput R}
    (h : g.addInput handle input = .ok g') : outputs g'.graph.nodes = outputs g.graph.nodes := by
  unfold DFComponentGraph.addInput at h
  split at h
  · rename_i uses huses
    refine foldlM_invariant (P := fun g' => outputs g'.graph.nodes = outputs g.graph.nodes)
      (fun g₁ n g₂ hg₁ hstep => ?_) rfl h
    unfold DFComponentGraph.updateNode at hstep
    split at hstep
    · cases hstep
      rw [← hg₁]
      refine List.ext_getElem? fun i => ?_
      simp only [outputs, Dag.nodes_modifyNode, List.getElem?_map, List.getElem?_modify]
      cases g₁.graph.nodes[i]? with
      | none => rfl
      | some x => by_cases hi : n = i <;> simp [hi, ComponentNode.addInput]
    · cases hstep
  · cases h
    rfl

theorem nodes_build {components : List (ComponentNode R)} {g : DFComponentGraph R ε}
    (h : DFComponentGraph.build components = .ok g) : g.graph.nodes = components.reverse := by
  unfold DFComponentGraph.build at h
  simp only at h
  split at h
  · cases h
  · rename_i d hd
    cases h
    simpa using (Dag.addEdges_eq_some hd).1

/-- The handles of an executed graph are results of its components. -/
theorem Executes.mem_getHandles {w : WorkerSetup R S ε} {db : Database} {tenantId : ℤ}
    {components : List (ComponentNode R)} {g : DFComponentGraph R ε}
    (h : Executes w db tenantId components g) (hbuilt : ∀ c ∈ components, IsBuilt c)
    {key : OutputKey} (hkey : key ∈ g.getHandles) :
    ∃ c ∈ components, key.1 ∈ c.results ∧ c.transactionId = key.2 := by
  obtain ⟨hbuild, -, -, hload, hrun, -⟩ := h
  rename_i built loaded rows inputs s
  have hinputs : loaded.Loaded ∧ outputs loaded.graph.nodes = outputs built.graph.nodes := by
    refine foldlM_invariant (P := fun g : DFComponentGraph R ε =>
      g.Loaded ∧ outputs g.graph.nodes = outputs built.graph.nodes)
      (fun g₁ e g₂ hg₁ hstep => ?_) ⟨.build hbuilt hbuild, rfl⟩ hload
    exact ⟨.addInput hg₁.1 hstep, (outputs_addInput hstep).trans hg₁.2⟩
  obtain ⟨X, -, -, hinv⟩ := hrun.inv hinputs.1.ready
  have hreported : (key.1, key.2) ∈ s.graph.getHandles := hkey
  obtain ⟨i, n, hn, -, hhandle, htid⟩ := hinv.mem_getHandles hreported
  have hmem : (n.results, n.transactionId) ∈ outputs components.reverse := by
    rw [← nodes_build hbuild, ← hinputs.2]
    exact List.mem_map_of_mem (List.mem_of_getElem? hn)
  obtain ⟨c, hc, heq⟩ := List.mem_map.mp hmem
  obtain ⟨hresults, htid'⟩ := Prod.mk.inj heq
  exact ⟨c, List.mem_reverse.mp hc, hresults ▸ hhandle, htid'.trans htid⟩

end Fhevm.Worker
