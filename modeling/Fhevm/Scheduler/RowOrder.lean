import Fhevm.Scheduler.PrunedHandles

/-!
# The order of rows

The rows of a transaction come in any order. The components that are built from them are the same in
each, because the operations are sorted by their handles, which differ. They have all operations
that lead to an allowed one; the others are returned as unneeded.

## Main definitions

* `DependsOn`, `NeededOperation` — dependences between operations, and those that are needed.
* `buildComponentNodes_rowOrder` — the components of a transaction, in any order of its rows.
-/

namespace Fhevm.Scheduler

open Foundation

variable {R : Type}

/-- The consumer has the handle of the producer as an operand. -/
def DependsOn (operations : List (DFGOp R)) (producer consumer : DFGOp R) : Prop :=
  producer ∈ operations ∧ consumer ∈ operations ∧
    .dependence producer.outputHandle ∈ consumer.inputs

/-- The operation, or one that is reached from it, is allowed. -/
def NeededOperation (operations : List (DFGOp R)) (op : DFGOp R) : Prop :=
  ∃ op', Relation.ReflTransGen (DependsOn operations) op op' ∧ op'.isAllowed = true

section Operations

variable {operations operations' : List (DFGOp R)}

/-- Operations with distinct handles have one sorted order. -/
theorem sortByHandle_eq_of_perm (hperm : operations.Perm operations')
    (hnd : DistinctHandles operations) : sortByHandle operations = sortByHandle operations' := by
  have hsorted : ∀ ops : List (DFGOp R),
      (sortByHandle ops).Pairwise (fun a b => a.outputHandle ≤ b.outputHandle) := by
    intro ops
    have : Std.Total (fun a b : DFGOp R => a.outputHandle ≤ b.outputHandle) :=
      ⟨fun _ _ => List.le_total _ _⟩
    have : IsTrans (DFGOp R) (fun a b => a.outputHandle ≤ b.outputHandle) :=
      ⟨fun _ _ _ => List.le_trans⟩
    exact List.pairwise_insertionSort _ _
  refine List.Perm.eq_of_pairwise (fun a b ha hb hab hba => ?_) (hsorted _) (hsorted _)
    ((sortByHandle_perm _).trans (hperm.trans (sortByHandle_perm _).symm))
  exact List.inj_on_of_nodup_map hnd (mem_sortByHandle.mp ha)
    (hperm.mem_iff.mpr (mem_sortByHandle.mp hb)) (List.le_antisymm hab hba)

theorem dependsOn_sortByHandle {p c : DFGOp R} :
    DependsOn (sortByHandle operations) p c ↔ DependsOn operations p c := by
  simp only [DependsOn, mem_sortByHandle]

/-- The indices and the operations have the same dependences. -/
theorem acyclic_dependencePairs_iff (hnd : DistinctHandles operations) :
    Acyclic (Adj ((dependencePairs operations).map Edge.arc)) ↔ Acyclic (DependsOn operations) := by
  constructor
  · intro h
    choose index hindex using fun op : {op // op ∈ operations} => exists_operationAt op.2
    classical
    refine h.of_map (fun op => if hop : op ∈ operations then index ⟨op, hop⟩ else 0) ?_
    rintro p c ⟨hp, hc, hdep⟩
    obtain ⟨hi, hpi⟩ := hindex ⟨p, hp⟩
    obtain ⟨hk, hck⟩ := hindex ⟨c, hc⟩
    simp only [dif_pos hp, dif_pos hc]
    rw [adj_dependencePairs_iff hnd, hpi, hck]
    exact ⟨hi, hk, hdep⟩
  · intro h
    refine h.of_map (operationAt operations) fun i k hik => ?_
    obtain ⟨hi, hk, hdep⟩ := (adj_dependencePairs_iff hnd).mp hik
    exact ⟨operationAt_mem hi, operationAt_mem hk, hdep⟩

/-- An operation is needed when its handle is used. -/
theorem used_iff_neededOperation (hnd : DistinctHandles operations) {op : DFGOp R}
    (hop : op ∈ operations) : Used operations op.outputHandle ↔ NeededOperation operations op := by
  constructor
  · intro hused
    generalize hh : op.outputHandle = h at hused
    induction hused generalizing op with
    | @allowed op' hop' hallowed =>
      obtain rfl : op = op' := List.inj_on_of_nodup_map hnd hop hop' hh
      exact ⟨op, .refl, hallowed⟩
    | @operand op' d hop' _ hd ih =>
      obtain ⟨last, hreach, hallowed⟩ := ih hop' rfl
      subst hh
      exact ⟨last, .head ⟨hop, hop', hd⟩ hreach, hallowed⟩
  · rintro ⟨last, hreach, hallowed⟩
    induction hreach using Relation.ReflTransGen.head_induction_on with
    | refl => exact .allowed hop hallowed
    | head hdep _ ih => exact .operand hdep.2.1 (ih hdep.2.1) hdep.2.2

end Operations

/-- The components are numbered in order and built from some of the operations. The others are
unneeded: none of them is allowed or leads to one that is. -/
structure SplitsOperations (operations : List (DFGOp R)) (transactionId : Handle)
    (components : List (ComponentNode R)) (unneeded : List (Handle × Handle))
    (kept : List (List (DFGOp R))) (pruned : List (DFGOp R)) : Prop where
  perm : (kept.flatten ++ pruned).Perm operations
  built : List.Forall₂ (fun (c : ComponentNode R) ops => c.BuiltFrom ops) components kept
  componentId : ∀ (i : ℕ) (c : ComponentNode R), components[i]? = some c → c.componentId = i
  handles : unneeded = pruned.map (fun op => (op.outputHandle, transactionId))
  needed : ∀ op ∈ operations, op ∈ pruned ↔ ¬ NeededOperation operations op

section Transaction

variable {operations : List (DFGOp R)} {g : Dag (Bool × ℕ) ℕ}

theorem map_operationAt_range (operations : List (DFGOp R)) :
    (List.range operations.length).map (operationAt operations) = operations := by
  refine List.ext_getElem? fun i => ?_
  rw [List.getElem?_map]
  by_cases hi : i < operations.length
  · rw [List.getElem?_range hi, getElem?_eq_operationAt hi]
    rfl
  · simp [Nat.le_of_not_lt hi]

/-- The blocks and the unneeded operations are all operations. -/
theorem Split.perm_range {bs : List (List ℕ)} (h : Split g bs) :
    (bs.flatten ++ unneeded g).Perm (List.range g.nodeCount) := by
  have hneeded : (List.range g.nodeCount).filter (· ∉ unneeded g) =
      (List.range g.nodeCount).filter (fun i => isNeeded g (g.nodeCount + 1) i) := by
    refine List.filter_congr fun i hi => ?_
    have hlt := List.mem_range.mp hi
    rw [Bool.eq_iff_iff, decide_eq_true_eq, mem_unneeded, isNeeded_eq]
    grind
  refine (h.perm.append_right _).trans ?_
  rw [hneeded]
  exact List.filter_append_perm _ _

/-- An operation has an unneeded index when it is not needed. -/
theorem mem_map_unneeded (hnd : DistinctHandles operations)
    (hg : operationGraph (sortByHandle operations) = some g) {op : DFGOp R}
    (hop : op ∈ operations) :
    op ∈ (unneeded g).map (operationAt (sortByHandle operations)) ↔
      ¬ NeededOperation operations op := by
  have hcount := nodeCount_operationGraph hg
  have hiff : ∀ i, i < g.nodeCount → operationAt (sortByHandle operations) i = op →
      (Needed g i ↔ NeededOperation operations op) := by
    rintro i hi rfl
    rw [needed_iff_used hnd.sorted hg (hcount ▸ hi), used_sortByHandle,
      used_iff_neededOperation hnd hop]
  constructor
  · intro hmem
    obtain ⟨i, hi, heq⟩ := List.mem_map.mp hmem
    obtain ⟨hlt, hnot⟩ := mem_unneeded.mp hi
    rwa [← hiff i hlt heq]
  · intro hnot
    obtain ⟨i, hi, heq⟩ := exists_operationAt (mem_sortByHandle.mpr hop)
    rw [← hcount] at hi
    exact List.mem_map.mpr ⟨i, mem_unneeded.mpr ⟨hi, by rwa [hiff i hi heq]⟩, heq⟩

theorem exists_splitsOperations (T : Toposort) (tid : Handle) (hnd : DistinctHandles operations)
    (hg : operationGraph (sortByHandle operations) = some g) :
    ∃ components unneeded kept pruned,
      buildComponentNodes T operations tid = .ok (components, unneeded) ∧
      SplitsOperations operations tid components unneeded kept pruned := by
  obtain ⟨bs, components, hsplit, hcomponents, hbuild⟩ := buildComponentNodes_eq_ok T tid hnd hg
  have hcount := nodeCount_operationGraph hg
  refine ⟨components, _, bs.map (List.map (operationAt (sortByHandle operations))),
    (unneeded g).map (operationAt (sortByHandle operations)), hbuild, ?_⟩
  refine
    { perm := ?_
      built := ?_
      componentId := fun i c hc => ?_
      handles := by rw [List.map_map]; rfl
      needed := fun op hop => mem_map_unneeded hnd hg hop }
  · rw [← List.map_flatten, ← List.map_append]
    have hsorted := hsplit.perm_range.map (operationAt (sortByHandle operations))
    rw [hcount, map_operationAt_range] at hsorted
    exact hsorted.trans (sortByHandle_perm _)
  · have hzip : bs.map (List.map (operationAt (sortByHandle operations))) =
        bs.zipIdx.map (fun b => b.1.map (operationAt (sortByHandle operations))) := by
      conv_lhs => rw [← List.zipIdx_map_fst 0 bs, List.map_map]
      rfl
    rw [hzip, List.forall₂_map_right_iff]
    exact hcomponents.flip.imp fun _ _ h => h.1
  · rcases forall₂_getElem? hcomponents i with ⟨-, hnone⟩ | ⟨⟨b, j⟩, c', hb, hc', -, -, hid⟩
    · rw [hc] at hnone
      cases hnone
    · obtain rfl : c = c' := Option.some.inj (hc.symm.trans hc')
      rw [hid]
      simp only [List.getElem?_zipIdx, Option.map_eq_some_iff, Prod.mk.injEq] at hb
      obtain ⟨_, -, -, rfl⟩ := hb
      simp

end Transaction

/-- The components of a transaction, their numbers and the unneeded handles are the same for every
order of its rows. There are some unless the dependences have a cycle, and each operation is in one
of the components or is unneeded. -/
theorem buildComponentNodes_rowOrder (T : Toposort) {operations operations' : List (DFGOp R)}
    (tid : Handle) (hperm : operations.Perm operations') (hnd : DistinctHandles operations) :
    buildComponentNodes T operations tid = buildComponentNodes T operations' tid ∧
    ((∃ r, buildComponentNodes T operations tid = .ok r) ↔ Acyclic (DependsOn operations)) ∧
    ∀ components unneeded, buildComponentNodes T operations tid = .ok (components, unneeded) →
      ∃ kept pruned, SplitsOperations operations tid components unneeded kept pruned := by
  have hacyclic : (operationGraph (sortByHandle operations)).isSome ↔
      Acyclic (DependsOn operations) := by
    rw [operationGraph_isSome_iff, acyclic_dependencePairs_iff hnd.sorted]
    have hsame : DependsOn (sortByHandle operations) = DependsOn operations := by
      funext p c
      exact propext dependsOn_sortByHandle
    rw [hsame]
  refine ⟨?_, ?_, fun components unneeded h => ?_⟩
  · unfold buildComponentNodes
    rw [sortByHandle_eq_of_perm hperm hnd]
  · rw [← hacyclic]
    cases hg : operationGraph (sortByHandle operations) with
    | none => simp [buildComponentNodes_eq_error hg]
    | some g =>
      obtain ⟨components, unneeded, _, _, hbuild, -⟩ :=
        exists_splitsOperations T tid hnd hg
      simp [hbuild]
  · cases hg : operationGraph (sortByHandle operations) with
    | none =>
      rw [buildComponentNodes_eq_error hg] at h
      cases h
    | some g =>
      obtain ⟨components', unneeded', kept, pruned, hbuild, hsplits⟩ :=
        exists_splitsOperations T tid hnd hg
      obtain ⟨rfl, rfl⟩ : components = components' ∧ unneeded = unneeded' := by
        simpa using h.symm.trans hbuild
      exact ⟨kept, pruned, hsplits⟩

/-- A sum that is allowed, its operand, and an operation that nothing uses. -/
def sampleRows : List (DFGOp Unit) :=
  [⟨[2], .fheAdd, [.dependence [3], .dependence [3]], true⟩, ⟨[3], .fheTrivialEncrypt, [], false⟩,
    ⟨[1], .fheTrivialEncrypt, [], false⟩]

theorem sampleRows_reverse : buildComponentNodes .kahn sampleRows [7] =
    buildComponentNodes .kahn sampleRows.reverse [7] :=
  (buildComponentNodes_rowOrder .kahn [7] (List.reverse_perm sampleRows).symm
    (show (sampleRows.map DFGOp.outputHandle).Nodup by decide)).1

end Fhevm.Scheduler
