import Fhevm.Scheduler.BuildComponents
import Fhevm.Scheduler.Confluence
import Fhevm.Scheduler.SymbolicEngine

/-!
# Dispatching under any completion order

What the scheduling loop promises whatever the order in which tasks complete:
every task is spawned once and after its predecessors, the counters count the
predecessors that are left, no round fails, and the loop ends with every task
joined. With one producer for every handle the outcome does not depend on the order.

## Main definitions

* `Dispatched` — the promise about a state of the loop.
* `parallelSchedule_confluent` — it holds in all reachable states.
-/

namespace Fhevm.Scheduler

open Foundation

variable {R S ε : Type}

/-- Task `t` was spawned after the tasks `past` were joined: all its predecessors
are among them, and its components received what they stored. -/
structure DispatchedAfter (G : DFComponentGraph R ε) (X : Dag ExecNode Unit)
    (past : List (Task R ε × Inserts R ε)) (t : Task R ε) : Prop where
  predecessors : ∀ j, Adj X.arcs j t.taskIndex → ∃ e ∈ past, e.1.taskIndex = j ∧ e.2 ⊆ t.seen
  received : t = taskAt G X t.seen t.taskIndex

/-- The promise about a state of the loop. -/
structure Dispatched (G : DFComponentGraph R ε) (X : Dag ExecNode Unit) (s : SchedState R ε) :
    Prop where
  once : (s.spawned.map Task.taskIndex).Nodup
  bounded : ∀ t ∈ s.spawned, t.taskIndex < X.nodeCount
  running : ∀ t ∈ s.running, DispatchedAfter G X s.joined t
  joined : ∀ pre e post, s.joined = pre ++ e :: post → DispatchedAfter G X pre e.1
  /-- A counter is the number of predecessors that were not joined. -/
  counters : ∀ (i : ℕ) (x : ExecNode), s.executionGraph.nodes[i]? = some x →
    x.dependenceCounter = (X.arcs.filter (fun a => a.2 = i ∧ a.1 ∉ s.joinedIndices)).length
  /-- Joining a task decrements the counters of its dependents, which are not zero. -/
  positive : ∀ t ∈ s.running, ∀ (i : ℕ) (x : ExecNode), Adj X.arcs t.taskIndex i →
    s.executionGraph.nodes[i]? = some x → 0 < x.dependenceCounter

theorem dispatchedAfter {G : DFComponentGraph R ε} {X : Dag ExecNode Unit}
    {past joined : List (Task R ε × Inserts R ε)} {t : Task R ε} (hpast : past <+: joined)
    (hafter : SpawnedAfter G X past t) : DispatchedAfter G X joined t := by
  have hseen : t.seen = past.flatMap Prod.snd := by
    rw [hafter.eq_taskAt]
    rfl
  refine ⟨fun j hj => ?_, hseen ▸ hafter.eq_taskAt⟩
  obtain ⟨e, he, hej⟩ := List.mem_map.mp (hafter.preds j hj)
  refine ⟨e, hpast.subset he, hej, fun r hr => ?_⟩
  rw [hseen]
  exact List.mem_flatMap.mpr ⟨e, he, hr⟩

theorem SchedInv.dispatched {eng : FheEngine R S ε} {T : Toposort} {G : DFComponentGraph R ε}
    {X : Dag ExecNode Unit} {s : SchedState R ε} (hs : SchedInv eng T G X s) :
    Dispatched G X s := by
  obtain ⟨taken, hstate, -⟩ := hs.state
  have hcounter : ∀ (i : ℕ) (x : ExecNode), s.executionGraph.nodes[i]? = some x →
      x.dependenceCounter = pending X s.joinedIndices i := by
    intro i x hx
    rw [hstate] at hx
    simp only [stateWith, withCounters, Dag.nodes_mapIdxNodes, List.getElem?_mapIdx,
      Option.map_eq_some_iff] at hx
    obtain ⟨y, -, rfl⟩ := hx
    rfl
  refine
    { once := hs.nodup
      bounded := fun t ht => ((hs.spawned_iff _).mp (List.mem_map_of_mem ht)).1
      running := fun t ht => ?_
      joined := fun pre e post hsplit => ?_
      counters := fun i x hx => ?_
      positive := fun t ht i x hadj hx => ?_ }
  · obtain ⟨past, hpast, hafter⟩ := hs.running t ht
    exact dispatchedAfter hpast hafter
  · obtain ⟨past, hpast, hafter⟩ := hs.joined pre e post hsplit
    exact dispatchedAfter hpast hafter
  · rw [hcounter i x hx, pending, List.countP_eq_length_filter]
  · rw [hcounter i x hx, Nat.pos_iff_ne_zero, Ne, pending_eq_zero]
    intro hall
    have hnd := hs.nodup
    rw [SchedState.spawned, List.map_append, List.map_map, List.nodup_append] at hnd
    exact hnd.2.2 _ (List.mem_map_of_mem ht) _ (hall _ hadj) rfl

/-- The runs of the loop under a strategy. -/
def Run (eng : FheEngine R S ε) (T : Toposort) (G : DFComponentGraph R ε)
    (X : Dag ExecNode Unit) : SchedState R ε → SchedState R ε → Prop :=
  Relation.ReflTransGen (Step eng T (shape G.graph) (shape X))

/-- Under the parallel strategy, whatever the order in which tasks complete:
every reachable state keeps the promise, any running task can be joined next,
a run has at most as many rounds as there are tasks and ends with all of them
joined, and with one producer for each handle all runs end with the same results
and the same marked components. -/
theorem parallelSchedule_confluent (eng : FheEngine R S ε) (T : Toposort)
    {G : DFComponentGraph R ε} (hG : G.Loaded) :
    ∃ X s₀, partitionPreservingParallelism T G.graph = .ok X ∧
      scheduleCoarseGrain T .maxParallelism G = .ok s₀ ∧
      (∀ s, Run eng T G X s₀ s → Dispatched G X s ∧
        (∀ before t after results, s.running = before ++ t :: after →
          results.Perm (executePartition eng T t.args).entries →
          ∃ s', completeTask (shape G.graph) (shape X) s t (before ++ after) results = .ok s' ∧
            s'.joined = s.joined ++ [(t, results)]) ∧
        s.joined.length ≤ X.nodeCount ∧
        (Final s → ∀ i, i < X.nodeCount → i ∈ s.joinedIndices)) ∧
      (SingleProducer G → ∀ s s', Run eng T G X s₀ s → Run eng T G X s₀ s' →
        Final s → Final s' → s.graph.results.Perm s'.graph.results ∧
          s.graph.graph.nodes.map ComponentNode.isUncomputable =
            s'.graph.graph.nodes.map ComponentNode.isUncomputable) := by
  obtain ⟨X, hX, hpart⟩ := partitionWith_spec T .maxParallelism G
  obtain ⟨s₀, hstart, -⟩ := scheduleStart_inv eng T hG.ready hpart
  have hentry : scheduleCoarseGrain T .maxParallelism G = .ok s₀ := by
    simp only [scheduleCoarseGrain, hX, hstart]
  have hinv : ∀ s, Run eng T G X s₀ s → SchedInv eng T G X s := by
    intro s hrun
    obtain ⟨X', hX', -, hs⟩ := Reachable.inv hG.ready
      (⟨X, s₀, hX, hstart, hrun⟩ : Reachable eng T .maxParallelism G s)
    have hsame : X = X' := Except.ok.inj (hX.symm.trans hX')
    exact hsame ▸ hs
  refine ⟨X, s₀, hX, hentry, fun s hrun => ?_, fun hsingle s s' hrun hrun' hfinal hfinal' => ?_⟩
  · have hs := hinv s hrun
    refine ⟨hs.dispatched, fun before t after results hrunning hresults => ?_,
      hs.length_joined_le, fun hfinal i hi => hs.final hfinal hi⟩
    obtain ⟨s', hs', -, hjoined⟩ := hs.join hG.ready hpart hrunning hresults
    exact ⟨s', hs', hjoined⟩
  · exact (hinv s hrun).confluent hG.ready hsingle hpart (hinv s' hrun') hfinal hfinal'

/-- One transaction whose first operation has two consumers. -/
def forkBatch : List (Handle × List (DFGOp Term)) :=
  [([10], [⟨[1], .fheTrivialEncrypt, [.value (.scalar [5]), .value (.scalar [2])], true⟩,
    ⟨[2], .fheNeg, [.dependence [1]], true⟩, ⟨[3], .fheNot, [.dependence [1]], true⟩])]

theorem parallelSchedule_confluent_fork : ∃ G : DFComponentGraph Term FhevmError,
    buildBatchGraph Toposort.kahn forkBatch = .ok G ∧ ∃ X s₀,
      scheduleCoarseGrain Toposort.kahn .maxParallelism G = .ok s₀ ∧
      (∀ s, Run symbolicEngine Toposort.kahn G X s₀ s → Dispatched G X s) ∧
      ∀ s s', Run symbolicEngine Toposort.kahn G X s₀ s →
        Run symbolicEngine Toposort.kahn G X s₀ s' → Final s → Final s' →
          s.graph.results.Perm s'.graph.results := by
  obtain ⟨G, hG, hcheck⟩ := exists_ok_of_check (x := (buildBatchGraph Toposort.kahn forkBatch :
      Except _ (DFComponentGraph Term FhevmError)))
    (P := fun G => decide (G.graph.nodes.flatMap ComponentNode.results).Nodup) (by decide)
  have hsingle : SingleProducer G := singleProducer_of_nodup (of_decide_eq_true hcheck)
  obtain ⟨X, s₀, -, hs₀, hrun, hconf⟩ :=
    parallelSchedule_confluent symbolicEngine Toposort.kahn (buildBatchGraph_loaded hG)
  exact ⟨G, hG, X, s₀, hs₀, fun s hs => (hrun s hs).1, fun s s' hs hs' hfinal hfinal' =>
    (hconf hsingle s s' hs hs' hfinal hfinal').1⟩

end Fhevm.Scheduler
