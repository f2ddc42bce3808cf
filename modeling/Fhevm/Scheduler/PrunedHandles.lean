import Fhevm.Scheduler.Batch

/-!
# The handles that are pruned

An operation is pruned unless it is allowed or an operation that is not pruned
uses its result. The handles of a transaction that are pruned are exactly those
that no component produces.

## Main definitions

* `Used` — the handles that are allowed, and the operands of operations on them.
* `PrunedHandle` — the handle of a pruned operation.
* `mem_pruned_buildBatch` — the pruned handles of a batch.
-/

namespace Fhevm.Scheduler

open Foundation

variable {R : Type}

/-- The handles of allowed operations, and those that lead to them. -/
inductive Used (operations : List (DFGOp R)) : Handle → Prop
  | allowed {op : DFGOp R} (hop : op ∈ operations) (hallowed : op.isAllowed = true) :
      Used operations op.outputHandle
  | operand {op : DFGOp R} {d : Handle} (hop : op ∈ operations)
      (hused : Used operations op.outputHandle) (hd : .dependence d ∈ op.inputs) :
      Used operations d

def PrunedHandle (operations : List (DFGOp R)) (h : Handle) : Prop :=
  ∃ g i, operationGraph (sortByHandle operations) = some g ∧ i ∈ unneeded g ∧
    (operationAt (sortByHandle operations) i).outputHandle = h

section Transaction

variable {operations : List (DFGOp R)} {g : Dag (Bool × ℕ) ℕ}

theorem getElem?_eq_operationAt {i : ℕ} (hi : i < operations.length) :
    operations[i]? = some (operationAt operations i) := by
  simp [operationAt, List.getD_eq_getElem?_getD, hi]

theorem getElem?_nodes_operationGraph (hg : operationGraph operations = some g) {i : ℕ}
    (hi : i < operations.length) :
    g.nodes[i]? = some ((operationAt operations i).isAllowed, i) := by
  rw [(operationGraph_eq_some hg).1, List.getElem?_mapIdx, getElem?_eq_operationAt hi]
  rfl

/-- An operation leads to those that use its result. -/
theorem adj_dependencePairs_iff (hnd : DistinctHandles operations) {i k : ℕ} :
    Adj ((dependencePairs operations).map Edge.arc) i k ↔
      i < operations.length ∧ k < operations.length ∧
        .dependence (operationAt operations i).outputHandle ∈ (operationAt operations k).inputs := by
  constructor
  · intro h
    obtain ⟨e, he, heq⟩ := List.mem_map.mp h
    obtain ⟨rfl, rfl⟩ := Prod.mk.inj heq
    obtain ⟨op, dh, pos, hop, hpos, hproduced, -⟩ := mem_dependencePairs.mp he
    obtain ⟨op', hop', rfl⟩ := getElem?_producedHandles hproduced
    obtain ⟨hk, rfl⟩ := List.getElem?_eq_some_iff.mp hop
    obtain ⟨hi, rfl⟩ := List.getElem?_eq_some_iff.mp hop'
    refine ⟨hi, hk, ?_⟩
    have hmem := List.mem_of_getElem? hpos
    simpa [operationAt, List.getD_eq_getElem?_getD, hi, hk] using hmem
  · rintro ⟨hi, hk, hmem⟩
    obtain ⟨pos, hpos⟩ := List.mem_iff_getElem?.mp hmem
    refine List.mem_map.mpr ⟨⟨i, k, pos % 256⟩, mem_dependencePairs.mpr ?_, rfl⟩
    exact ⟨_, _, pos, getElem?_eq_operationAt hk, hpos,
      (producedHandles_eq_some hnd).mpr ⟨_, getElem?_eq_operationAt hi, rfl⟩, rfl⟩

theorem adj_operationGraph_iff (hnd : DistinctHandles operations)
    (hg : operationGraph operations = some g) {i k : ℕ} :
    Adj g.arcs i k ↔ i < operations.length ∧ k < operations.length ∧
      .dependence (operationAt operations i).outputHandle ∈ (operationAt operations k).inputs := by
  rw [Dag.arcs, (operationGraph_eq_some hg).2, adj_dependencePairs_iff hnd]

/-- An operation is needed when its handle is used. -/
theorem needed_iff_used (hnd : DistinctHandles operations)
    (hg : operationGraph operations = some g) {i : ℕ} (hi : i < operations.length) :
    Needed g i ↔ Used operations (operationAt operations i).outputHandle := by
  constructor
  · rintro ⟨j, n, hreach, hn, hmark⟩
    induction hreach using Relation.ReflTransGen.head_induction_on with
    | refl =>
      rw [getElem?_nodes_operationGraph hg hi] at hn
      cases hn
      exact .allowed (operationAt_mem hi) hmark
    | head hadj _ ih =>
      obtain ⟨-, hk, hmem⟩ := (adj_operationGraph_iff hnd hg).mp hadj
      exact .operand (operationAt_mem hk) (ih hk) hmem
  · intro hused
    generalize hh : (operationAt operations i).outputHandle = h at hused
    induction hused generalizing i with
    | allowed hop hallowed =>
      obtain ⟨j, hj, rfl⟩ := exists_operationAt hop
      obtain rfl : i = j := hnd.eq_of_outputHandle hi hj hh
      exact ⟨i, _, .refl, getElem?_nodes_operationGraph hg hi, hallowed⟩
    | operand hop _ hd ih =>
      obtain ⟨k, hk, rfl⟩ := exists_operationAt hop
      obtain ⟨j, n, hreach, hn, hmark⟩ := ih hk rfl
      subst hh
      exact ⟨j, n, .head ((adj_operationGraph_iff hnd hg).mpr ⟨hi, hk, hd⟩) hreach, hn, hmark⟩

theorem used_sortByHandle {h : Handle} : Used (sortByHandle operations) h ↔ Used operations h := by
  constructor <;> intro hused
  · induction hused with
    | allowed hop hallowed => exact .allowed (mem_sortByHandle.mp hop) hallowed
    | operand hop _ hd ih => exact .operand (mem_sortByHandle.mp hop) ih hd
  · induction hused with
    | allowed hop hallowed => exact .allowed (mem_sortByHandle.mpr hop) hallowed
    | operand hop _ hd ih => exact .operand (mem_sortByHandle.mpr hop) ih hd

/-- The pruned handles are those of the operations that are not used. -/
theorem prunedHandle_iff (hnd : DistinctHandles operations)
    (hg : operationGraph (sortByHandle operations) = some g) {h : Handle} :
    PrunedHandle operations h ↔
      (∃ op ∈ operations, op.outputHandle = h) ∧ ¬ Used operations h := by
  have hcount := nodeCount_operationGraph hg
  constructor
  · rintro ⟨g', i, hg', hi, rfl⟩
    obtain rfl : g = g' := Option.some.inj (hg.symm.trans hg')
    obtain ⟨hi, hneeded⟩ := mem_unneeded.mp hi
    rw [hcount] at hi
    rw [needed_iff_used hnd.sorted hg hi, used_sortByHandle] at hneeded
    exact ⟨⟨_, mem_sortByHandle.mp (operationAt_mem hi), rfl⟩, hneeded⟩
  · rintro ⟨⟨op, hop, rfl⟩, hused⟩
    obtain ⟨i, hi, rfl⟩ := exists_operationAt (mem_sortByHandle.mpr hop)
    refine ⟨g, i, hg, mem_unneeded.mpr ⟨hcount ▸ hi, ?_⟩, rfl⟩
    rwa [needed_iff_used hnd.sorted hg hi, used_sortByHandle]

/-- No component produces a pruned handle. -/
theorem PrunedHandle.not_neededHandle (hnd : DistinctHandles operations) {h : Handle}
    (hpruned : PrunedHandle operations h) : ¬ NeededHandle operations h := by
  rintro ⟨g, i, hg, hi, hneeded, heq⟩
  obtain ⟨g', j, hg', hj, heq'⟩ := hpruned
  obtain rfl : g = g' := Option.some.inj (hg.symm.trans hg')
  have hcount := nodeCount_operationGraph hg
  obtain rfl : i = j := hnd.sorted.eq_of_outputHandle (hcount ▸ hi)
    (hcount ▸ (mem_unneeded.mp hj).1) (heq.trans heq'.symm)
  exact hneeded hj

end Transaction

/-! ## Pruned handles of a batch -/

section Batch

variable {T : Toposort} {batch : List (Handle × List (DFGOp R))}

theorem addTransaction_pruned {tx : Handle × List (DFGOp R)} (hnd : DistinctHandles tx.2)
    {s s' : List (ComponentNode R) × List (Handle × Handle)} (h : addTransaction T s tx = .ok s')
    (k : Handle × Handle) : k ∈ s'.2 ↔ k ∈ s.2 ∨ k.2 = tx.1 ∧ PrunedHandle tx.2 k.1 := by
  cases hg : operationGraph (sortByHandle tx.2) with
  | none =>
    rw [addTransaction, buildComponentNodes_eq_error hg] at h
    cases h
  | some g =>
    obtain ⟨bs, cs, -, -, hbuild⟩ := buildComponentNodes_eq_ok T tx.1 hnd hg
    rw [addTransaction, hbuild] at h
    cases h
    simp only [List.mem_append, List.mem_map, PrunedHandle, hg]
    grind

theorem foldlM_addTransaction_pruned (hnd : ∀ tx ∈ batch, DistinctHandles tx.2)
    {s s' : List (ComponentNode R) × List (Handle × Handle)}
    (h : batch.foldlM (addTransaction T) s = .ok s') (k : Handle × Handle) :
    k ∈ s'.2 ↔ k ∈ s.2 ∨ ∃ tx ∈ batch, k.2 = tx.1 ∧ PrunedHandle tx.2 k.1 := by
  induction batch generalizing s with
  | nil =>
    cases h
    simp
  | cons tx batch ih =>
    rw [List.foldlM_cons] at h
    cases hadd : addTransaction T s tx with
    | error e =>
      rw [hadd] at h
      cases h
    | ok s₁ =>
      rw [hadd] at h
      rw [ih (fun tx' h => hnd tx' (List.mem_cons_of_mem _ h)) h,
        addTransaction_pruned (hnd tx List.mem_cons_self) hadd]
      simp [or_assoc]

theorem mem_pruned_buildBatch (hnd : ∀ tx ∈ batch, DistinctHandles tx.2)
    {cs : List (ComponentNode R)} {pruned : List (Handle × Handle)}
    (h : buildBatch T batch = .ok (cs, pruned)) (k : Handle × Handle) :
    k ∈ pruned ↔ ∃ tx ∈ batch, k.2 = tx.1 ∧ PrunedHandle tx.2 k.1 := by
  simpa using foldlM_addTransaction_pruned hnd h k

/-- A batch that can be built has a graph for each transaction. -/
theorem isSome_of_buildBatch (hkeys : DistinctKeys batch)
    {r : List (ComponentNode R) × List (Handle × Handle)} (h : buildBatch T batch = .ok r) :
    ∀ tx ∈ batch, (operationGraph (sortByHandle tx.2)).isSome := by
  intro tx htx
  by_contra hnone
  rw [buildBatch_eq_error T hkeys htx (by simpa using hnone)] at h
  cases h

/-- The components of a batch produce none of its pruned handles. -/
theorem results_of_buildBatch (hkeys : DistinctKeys batch) {cs : List (ComponentNode R)}
    {pruned : List (Handle × Handle)} (h : buildBatch T batch = .ok (cs, pruned)) :
    ∀ c ∈ cs, ∀ d ∈ c.results, (d, c.transactionId) ∉ pruned := by
  intro c hc d hd hpruned
  obtain ⟨cs', pruned', hbuild, css, hall, hflat⟩ :=
    buildBatch_eq_ok T hkeys (isSome_of_buildBatch hkeys h)
  obtain ⟨rfl, rfl⟩ : cs = cs' ∧ pruned = pruned' := by
    simpa using h.symm.trans hbuild
  obtain ⟨l, hl, hcl⟩ := List.mem_flatten.mp (hflat ▸ hc)
  obtain ⟨j, hj⟩ := List.mem_iff_getElem?.mp hl
  rcases forall₂_getElem? hall j with ⟨-, hnone⟩ | ⟨tx, l', htx, hl', hdesc, htid⟩
  · rw [hj] at hnone
    cases hnone
  · rw [hj] at hl'
    cases hl'
    obtain ⟨tx', htx', htid', hhandle⟩ := (mem_pruned_buildBatch hkeys.handles h _).mp hpruned
    have hsame : tx = tx' := List.inj_on_of_nodup_map hkeys.transactions
      (List.mem_of_getElem? htx) htx' ((htid c hcl).symm.trans htid')
    subst hsame
    exact hhandle.not_neededHandle (hkeys.handles tx htx') (hdesc.needed c hcl d hd)

end Batch

end Fhevm.Scheduler
