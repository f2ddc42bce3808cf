import Fhevm.Scheduler.BuildComponents
import Fhevm.Scheduler.Confluence
import Fhevm.Scheduler.SymbolicEngine

/-!
# The two partition strategies

The local strategy runs whole connected components as one task, so its division
into tasks is coarser than that of the parallel strategy. Both complete the same
handles. The parallel strategy skips the components that depend on an error of
another task, for which the local strategy still records results.

## Main definitions

* `Skipped` — the components that the parallel strategy does not run.
* `strategies_agree` — what the two strategies have in common.
* `strategies_differ` — a batch for which their results differ.
-/

namespace Fhevm.Scheduler

open Foundation

variable {R S ε : Type}

section Compare

variable {eng : FheEngine R S ε} {T : Toposort} {G : DFComponentGraph R ε} {X X' : Dag ExecNode Unit}

/-- Connected components are a coarser division than chains. -/
theorem coarser (eng : FheEngine R S ε) (T : Toposort) (hG : G.Ready) (hX : IsPartition G.graph X)
    (hX' : IsPartition G.graph X')
    (hchain : ∀ i, (block X i).IsChain (Chained G.graph.arcs)) (hnone : X'.edges = []) :
    (componentDataflow eng T hG X).Coarser (componentDataflow eng T hG X') where
  dep := rfl
  exec := rfl
  reports := rfl
  same a b h := by
    obtain ⟨i, ha, hb⟩ := h
    -- an edge never leaves a connected component
    have hadj : ∀ u v, Chained G.graph.arcs u v → nodeMap X' u = nodeMap X' v := by
      intro u v huv
      obtain ⟨hu, hv⟩ := Dag.adj_lt huv.2.2
      obtain ⟨j, hj⟩ := hX'.mem_some_block hu
      obtain ⟨k, hk⟩ := hX'.mem_some_block hv
      have hjk : j = k := by
        by_contra hne
        have hno := (hX'.adj_iff j k).mpr ⟨hne, u, hj, v, hk, huv.2.2⟩
        simp [Adj, Dag.arcs, hnone] at hno
      rw [(nodeMap_eq_some hX'.topological.nodup).mpr hj,
        (nodeMap_eq_some hX'.topological.nodup).mpr hk, hjk]
    have hmap := eq_of_isChain hadj (hchain i) ha hb
    have hlt : a < G.graph.nodeCount :=
      hX.topological.mem_iff.mp (mem_flatten_blocks.mpr ⟨i, ha⟩)
    obtain ⟨j, hj⟩ := hX'.mem_some_block hlt
    rw [(nodeMap_eq_some hX'.topological.nodup).mpr hj, eq_comm,
      nodeMap_eq_some hX'.topological.nodup] at hmap
    exact ⟨j, hj, hmap⟩

/-- The parts of a component that the completed handles depend on. -/
theorem getHandles_graphAfter (G : DFComponentGraph R ε) (L : Inserts R ε) (taken : List ℕ) :
    (graphAfter G L taken).getHandles =
      (G.graph.nodes.zipIdx.filter (fun n => !flagged G L n.2)).flatMap
        (fun n => n.1.results.map (·, n.1.transactionId)) := by
  have hnodes : (graphAfter G L taken).graph.nodes =
      G.graph.nodes.zipIdx.map (fun n => nodeAfter G L (decide (n.2 ∈ taken)) n.2 n.1) := by
    simp [graphAfter, List.mapIdx_eq_zipIdx_map]
  rw [DFComponentGraph.getHandles, hnodes, List.filter_map, List.flatMap_map]
  rfl

theorem SchedInv.getHandles_eq {s : SchedState R ε} (hs : SchedInv eng T G X s) :
    s.graph.getHandles = (G.graph.nodes.zipIdx.filter (fun n => !flagged G s.log n.2)).flatMap
      (fun n => n.1.results.map (·, n.1.transactionId)) := by
  obtain ⟨taken, hstate, -⟩ := hs.state
  have hgraph : s.graph = graphAfter G s.log taken := by
    rw [hstate]
    rfl
  rw [hgraph, getHandles_graphAfter]

/-- A component that the parallel strategy skips: it depends on a component of
another task for which an error was stored. -/
def Skipped (G : DFComponentGraph R ε) (X : Dag ExecNode Unit) (results : List (DFGTxResult ε))
    (c : ℕ) : Prop :=
  ∃ d, ¬ SameBlock X d c ∧ Precedes G.graph.arcs d c ∧
    ∃ r ∈ results, G.allowedMap.get? r.handle = some d ∧ ∃ e, r.compressedCt = .error e

/-- What is stored for an outcome. -/
theorem mem_storedResults {L : Inserts R ε} {r : DFGTxResult ε} :
    r ∈ storedResults G L ↔ ∃ h o c tx, (h, o) ∈ L ∧ G.allowedMap.get? h = some c ∧
      G.graph.nodes[c]? = some tx ∧ r ∈ savedResults tx.transactionId h o := by
  simp only [storedResults, List.mem_flatMap, Prod.exists]
  constructor
  · rintro ⟨h, o, hmem, hr⟩
    cases hp : G.allowedMap.get? h with
    | none => simp [hp] at hr
    | some c =>
      cases hn : G.graph.nodes[c]? with
      | none => simp [hp, hn] at hr
      | some tx => exact ⟨h, o, c, tx, hmem, hp, hn, by simpa [hp, hn] using hr⟩
  · rintro ⟨h, o, c, tx, hmem, hp, hn, hr⟩
    exact ⟨h, o, hmem, by simpa [hp, hn] using hr⟩

/-- What is stored carries the handle and the transaction it is stored under, and is
an error when the outcome is one. -/
theorem handle_of_mem_savedResults {tid h : Handle} {o : OpOutcome R ε} {r : DFGTxResult ε}
    (hr : r ∈ savedResults tid h o) : r.handle = h ∧ r.transactionId = tid ∧
      ∀ e, r.compressedCt = .error e → o = .error e := by
  cases o with
  | error e =>
    rw [savedResults, List.mem_singleton] at hr
    subst hr
    exact ⟨rfl, rfl, fun e' h => by cases h; rfl⟩
  | ok t =>
    simp only [savedResults] at hr
    split at hr
    · rw [List.mem_singleton] at hr
      subst hr
      exact ⟨rfl, rfl, fun e h => by cases h⟩
    · simp at hr

/-- Skipped components are those cut off by a task of the parallel strategy. -/
theorem SchedInv.skipped_iff {s : SchedState R ε} (hG : G.Ready) (hsingle : SingleProducer G)
    (hX : IsPartition G.graph X) (hs : SchedInv eng T G X s) (hfinal : Final s) {c : ℕ} :
    Skipped G X s.graph.results c ↔
      (componentDataflow eng T hG X).CutOff (componentDataflow eng T hG X).outcome c := by
  have hlog := hs.final_log hG hsingle hX hfinal
  rw [hs.graph_eq.1]
  constructor
  · rintro ⟨d, hsame, hbefore, r, hr, hd, e, he⟩
    obtain ⟨h, o, p, tx, hmem, hp, -, hr⟩ := mem_storedResults.mp hr
    obtain ⟨rfl, -, ho⟩ := handle_of_mem_savedResults hr
    rw [hd] at hp
    cases hp
    rw [ho e he] at hmem
    obtain ⟨-, hget⟩ := (keptBy_iff hsingle hd).mp ((hlog _ _).mp hmem)
    obtain ⟨m, hout, hget⟩ := Option.bind_eq_some_iff.mp hget
    exact ⟨d, m, hsame, hbefore, hout, _, e, hget⟩
  · rintro ⟨d, m, hsame, hbefore, hout, h, e, hget⟩
    have hp := allowedMap_of_outcome hsingle hout hget
    obtain ⟨tx, htx⟩ : ∃ tx, G.graph.nodes[d]? = some tx :=
      ⟨_, List.getElem?_eq_getElem (hG.producer_lt hp)⟩
    refine ⟨d, hsame, hbefore, ⟨h, tx.transactionId, .error e⟩, ?_, hp, e, rfl⟩
    exact mem_storedResults.mpr ⟨h, .error e, d, tx, (hlog h _).mpr ⟨d, trivial, m, hout, hget⟩, hp,
      htx, List.mem_singleton.mpr rfl⟩

end Compare

/-- With one producer for every handle both strategies complete the same handles,
and the local strategy stores what the parallel one stores, and more only for the
components that the parallel strategy skips, for which the latter stores nothing. -/
theorem strategies_agree (eng : FheEngine R S ε) (T : Toposort) {G : DFComponentGraph R ε}
    (hG : G.Loaded) (hsingle : SingleProducer G) {s s' : SchedState R ε}
    (hs : Reachable eng T .maxParallelism G s) (hs' : Reachable eng T .maxLocality G s')
    (hfinal : Final s) (hfinal' : Final s') :
    s.graph.getHandles = s'.graph.getHandles ∧
      ∃ X extra, partitionPreservingParallelism T G.graph = .ok X ∧
        s'.graph.results.Perm (s.graph.results ++ extra) ∧
        (∀ r ∈ extra, ∃ c, G.allowedMap.get? r.handle = some c ∧ Skipped G X s.graph.results c) ∧
        ∀ r ∈ s.graph.results, ∀ c, G.allowedMap.get? r.handle = some c →
          ¬ Skipped G X s.graph.results c := by
  obtain ⟨X, hX, hpart, hinv⟩ := hs.inv hG.ready
  obtain ⟨X', hX', hpart', hinv'⟩ := hs'.inv hG.ready
  obtain ⟨Y, hY, -, hchain, -⟩ := partitionPreservingParallelism_spec T G.graph
  have hXY : X = Y := Except.ok.inj (hX.symm.trans hY)
  subst hXY
  obtain ⟨Z, hZ, -, hedges⟩ := partitionComponents_spec T G.graph
  have hXZ : X' = Z := Except.ok.inj (hX'.symm.trans hZ)
  subst hXZ
  have hcoarse := coarser eng T hG.ready hpart hpart' hchain hedges
  have hconv := hpart.convex eng T hG.ready
  have hlog := hinv.final_log hG.ready hsingle hpart hfinal
  have hlog' := hinv'.final_log hG.ready hsingle hpart' hfinal'
  -- what the local strategy stores beyond the outcomes of the parallel one
  classical
  let extra := s'.log.filter (fun e => decide (¬ KeptBy
    (componentDataflow eng T hG.ready X).outcome (fun _ => True) e.1 e.2))
  have hsplit : s'.log.Perm (s.log ++ extra) := by
    have hnd : s.log.Nodup := hinv.nodup_log hG.ready hsingle hpart _ List.prefix_rfl
    have hnd' : s'.log.Nodup := hinv'.nodup_log hG.ready hsingle hpart' _ List.prefix_rfl
    refine (List.perm_ext_iff_of_nodup hnd'
      (List.nodup_append.mpr ⟨hnd, hnd'.filter _, ?_⟩)).mpr ?_
    · rintro ⟨h, o⟩ hmem _ hextra rfl
      exact of_decide_eq_true (List.mem_filter.mp hextra).2 ((hlog h o).mp hmem)
    · rintro ⟨h, o⟩
      rw [List.mem_append, List.mem_filter, decide_eq_true_eq, hlog h o]
      constructor
      · intro hmem
        by_cases hkept : KeptBy (componentDataflow eng T hG.ready X).outcome (fun _ => True) h o
        · exact .inl hkept
        · exact .inr ⟨hmem, hkept⟩
      · rintro (⟨c, -, m, hout, hget⟩ | ⟨hmem, -⟩)
        · exact (hlog' h o).mpr ⟨c, trivial, m, hcoarse.outcome_eq_some hconv hout, hget⟩
        · exact hmem
  refine ⟨?_, X, storedResults G extra, hY, ?_, fun r hr => ?_, fun r hr c hc hskip => ?_⟩
  · rw [hinv.getHandles_eq, hinv'.getHandles_eq]
    congr 1
    refine List.filter_congr fun n _ => congrArg not ?_
    rw [Bool.eq_iff_iff, hinv.final_flagged hG.ready hsingle hpart hfinal,
      hinv'.final_flagged hG.ready hsingle hpart' hfinal', hcoarse.failed_iff hconv]
  · rw [hinv.graph_eq.1, hinv'.graph_eq.1]
    have hperm : (storedResults G s'.log).Perm (storedResults G (s.log ++ extra)) :=
      hsplit.flatMap_right _
    have hparts : storedResults G (s.log ++ extra) =
        storedResults G s.log ++ storedResults G extra := List.flatMap_append
    rwa [hparts] at hperm
  · obtain ⟨h, o, c, tx, hmem, hp, -, hr⟩ := mem_storedResults.mp hr
    obtain ⟨rfl, -⟩ := handle_of_mem_savedResults hr
    obtain ⟨hmem, hnot⟩ := List.mem_filter.mp hmem
    refine ⟨c, hp, (hinv.skipped_iff hG.ready hsingle hpart hfinal).mpr ?_⟩
    by_contra hcut
    obtain ⟨-, hget⟩ := (keptBy_iff hsingle hp).mp ((hlog' _ _).mp hmem)
    rw [hcoarse.eq_outcome hconv c hcut] at hget
    exact of_decide_eq_true hnot ((keptBy_iff hsingle hp).mpr ⟨trivial, hget⟩)
  · rw [hinv.graph_eq.1] at hr
    obtain ⟨h, o, c', tx, hmem, hp, -, hr⟩ := mem_storedResults.mp hr
    obtain ⟨rfl, -⟩ := handle_of_mem_savedResults hr
    rw [hc] at hp
    cases hp
    have hcut := (hinv.skipped_iff hG.ready hsingle hpart hfinal).mp hskip
    obtain ⟨-, hget⟩ := (keptBy_iff hsingle hc).mp ((hlog _ _).mp hmem)
    rw [Dataflow.outcome_eq_none _ hcut] at hget
    cases hget

/-! ## A batch for which the results differ -/

/-- A transaction whose operation fails, and two others that use its result. -/
def failingBatch : List (Handle × List (DFGOp Term)) :=
  [([10], [⟨[1], .fheAdd, [.value (.scalar [5])], true⟩]),
    ([11], [⟨[2], .fheNeg, [.dependence [1]], true⟩]),
    ([12], [⟨[3], .fheNot, [.dependence [1]], true⟩])]

/-- The outcomes that two runs are compared by. -/
def SameOutcome (s s' : SchedState R ε) : Prop :=
  (∀ r, r ∈ s.graph.results ↔ r ∈ s'.graph.results) ∧ s.graph.getHandles = s'.graph.getHandles

/-- The batch, run to its end under both strategies. -/
def failingRuns : Except SchedulerError
    (DFComponentGraph Term FhevmError × SchedState Term FhevmError × SchedState Term FhevmError) :=
  match buildBatchGraph Toposort.kahn failingBatch with
  | .error e => .error e
  | .ok G =>
    match runInOrder symbolicEngine Toposort.kahn .maxParallelism G,
      runInOrder symbolicEngine Toposort.kahn .maxLocality G with
    | .ok s, .ok s' => .ok (G, s, s')
    | _, _ => .error .schedulerError

theorem failing_batch_runs : ∃ (G : DFComponentGraph Term FhevmError)
    (s s' : SchedState Term FhevmError), G.Loaded ∧ SingleProducer G ∧
      Reachable symbolicEngine Toposort.kahn .maxParallelism G s ∧ Final s ∧
      Reachable symbolicEngine Toposort.kahn .maxLocality G s' ∧ Final s' ∧
      s.graph.results.map DFGTxResult.handle = [[1]] ∧
      s'.graph.results.map DFGTxResult.handle = [[1], [3], [2]] := by
  obtain ⟨⟨G, s, s'⟩, hruns, hcheck⟩ := exists_ok_of_check (x := failingRuns)
    (P := fun r => decide (r.1.graph.nodes.flatMap ComponentNode.results).Nodup &&
      r.2.1.running.isEmpty && r.2.2.running.isEmpty &&
      decide (r.2.1.graph.results.map DFGTxResult.handle = [[1]]) &&
      decide (r.2.2.graph.results.map DFGTxResult.handle = [[1], [3], [2]])) (by decide)
  simp only [Bool.and_eq_true, decide_eq_true_eq, List.isEmpty_iff] at hcheck
  obtain ⟨⟨⟨⟨hnodup, hfinal⟩, hfinal'⟩, hresults⟩, hresults'⟩ := hcheck
  unfold failingRuns at hruns
  split at hruns
  · cases hruns
  rename_i G' hG
  split at hruns
  · rename_i s₁ s₁' hs hs'
    cases hruns
    exact ⟨G, s, s', buildBatchGraph_loaded hG, singleProducer_of_nodup hnodup,
      runInOrder_reachable hs, hfinal, runInOrder_reachable hs', hfinal', hresults, hresults'⟩
  · cases hruns

theorem strategies_agree_failing : ∃ (G : DFComponentGraph Term FhevmError)
    (s s' : SchedState Term FhevmError),
      Reachable symbolicEngine Toposort.kahn .maxParallelism G s ∧
      Reachable symbolicEngine Toposort.kahn .maxLocality G s' ∧
      s.graph.getHandles = s'.graph.getHandles := by
  obtain ⟨G, s, s', hG, hsingle, hs, hfinal, hs', hfinal', -⟩ := failing_batch_runs
  exact ⟨G, s, s', hs, hs',
    (strategies_agree symbolicEngine Toposort.kahn hG hsingle hs hs' hfinal hfinal').1⟩

/-- The local strategy stores errors for the two components that the other one skips. -/
theorem strategies_differ : ∃ (G : DFComponentGraph Term FhevmError)
    (s s' : SchedState Term FhevmError), G.Loaded ∧ SingleProducer G ∧
      Reachable symbolicEngine Toposort.kahn .maxParallelism G s ∧ Final s ∧
      Reachable symbolicEngine Toposort.kahn .maxLocality G s' ∧ Final s' ∧
      ¬ SameOutcome s s' := by
  obtain ⟨G, s, s', hG, hsingle, hs, hfinal, hs', hfinal', hresults, hresults'⟩ :=
    failing_batch_runs
  refine ⟨G, s, s', hG, hsingle, hs, hfinal, hs', hfinal', fun hsame => ?_⟩
  have hmem : [3] ∈ s'.graph.results.map DFGTxResult.handle := by simp [hresults']
  obtain ⟨r, hr, hhandle⟩ := List.mem_map.mp hmem
  have hmem' := List.mem_map_of_mem (f := DFGTxResult.handle) ((hsame.1 r).mpr hr)
  rw [hresults, hhandle] at hmem'
  simp at hmem'

end Fhevm.Scheduler
