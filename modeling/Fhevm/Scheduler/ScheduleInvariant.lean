import Fhevm.Scheduler.ScheduleState

/-!
# The invariant of the scheduling loop

The counter of a task is the number of its predecessors that have not been
joined, and a task is spawned exactly when that number is zero. Hence no round
of the loop fails, and the loop can only end once every task was joined.

## Main definitions

* `SchedInv` — what holds in every reachable state.
* `SchedInv.join` — joining any running task, in any order of its results, succeeds.
* `Reachable.inv`, `SchedInv.final` — the invariant in runs, and at their end.
-/

namespace Fhevm.Scheduler

open Foundation

variable {R S ε : Type}

/-! ## Counters -/

/-- The number of predecessors of `i` that are not done. -/
def pending (X : Dag ExecNode Unit) (done : List ℕ) (i : ℕ) : ℕ :=
  X.arcs.countP (fun a => a.2 = i ∧ a.1 ∉ done)

theorem pending_nil (X : Dag ExecNode Unit) (i : ℕ) : pending X [] i = inDegree X.arcs i := by
  simp [pending, inDegree]

theorem pending_eq_zero {X : Dag ExecNode Unit} {done : List ℕ} {i : ℕ} :
    pending X done i = 0 ↔ ∀ j, Adj X.arcs j i → j ∈ done := by
  rw [pending, List.countP_eq_zero]
  constructor
  · intro h j hj
    by_contra hnot
    exact h (j, i) hj (by simpa using hnot)
  · rintro h ⟨j, i'⟩ ha hp
    obtain ⟨rfl, hnot⟩ := of_decide_eq_true hp
    exact hnot (h j ha)

theorem countP_concat_done (as : List Arc) (done : List ℕ) {i j : ℕ} (hj : j ∉ done) :
    as.countP (fun a => a.2 = i ∧ a.1 ∉ done) =
      as.countP (fun a => a.2 = i ∧ a.1 ∉ done ++ [j]) + as.count (j, i) := by
  induction as with
  | nil => rfl
  | cons a as ih =>
    rw [List.countP_cons, List.countP_cons, List.count_cons, ih]
    obtain ⟨u, v⟩ := a
    by_cases hu : u = j
    · subst hu
      by_cases hv : v = i <;> simp [hv, hj]
      omega
    · have hne : ((u, v) == (j, i)) = false := by simp [hu]
      simp [hu]
      omega

/-- Joining a predecessor lowers the counter by one; other counters stay. -/
theorem pending_concat {X : Dag ExecNode Unit} (hsimple : X.arcs.Nodup) {done : List ℕ} {j : ℕ}
    (hj : j ∉ done) (i : ℕ) :
    pending X (done ++ [j]) i =
      if Adj X.arcs j i then fetchSub (pending X done i) else pending X done i := by
  have hcount := countP_concat_done X.arcs done (i := i) hj
  rw [← pending, ← pending] at hcount
  split
  · rename_i hadj
    rw [List.count_eq_one_of_mem hsimple hadj] at hcount
    rw [fetchSub, if_neg (by omega)]
    omega
  · rename_i hadj
    rw [List.count_eq_zero_of_not_mem hadj] at hcount
    omega

theorem outgoing_shape (X : Dag ExecNode Unit) (j : ℕ) :
    (shape X).outgoing j = X.outgoing j := rfl

theorem mem_targets {X : Dag ExecNode Unit} {j i : ℕ} :
    i ∈ (X.outgoing j).map Edge.target ↔ Adj X.arcs j i := by
  simp only [List.mem_map, Dag.mem_outgoing, Dag.adj_iff]
  constructor
  · rintro ⟨e, ⟨he, hs⟩, ht⟩
    exact ⟨e, he, hs, ht⟩
  · rintro ⟨e, he, hs, ht⟩
    exact ⟨e, ⟨he, hs⟩, ht⟩

theorem nodup_targets {X : Dag ExecNode Unit} (hsimple : X.arcs.Nodup) (j : ℕ) :
    ((X.outgoing j).map Edge.target).Nodup := by
  have hsub : ((X.outgoing j).map Edge.arc).Nodup := by
    rw [Dag.outgoing, List.map_reverse, List.nodup_reverse]
    exact hsimple.sublist (List.filter_sublist.map Edge.arc)
  have harc : (X.outgoing j).map Edge.arc = ((X.outgoing j).map Edge.target).map (j, ·) := by
    rw [List.map_map]
    refine List.map_congr_left fun e he => ?_
    simp [Edge.arc, (Dag.mem_outgoing.mp he).2]
  rw [harc] at hsub
  exact hsub.of_map _

/-! ## The invariant -/

/-- The tasks spawned so far. -/
def SchedState.spawned (s : SchedState R ε) : List (Task R ε) :=
  s.running ++ s.joined.map Prod.fst

def SchedState.joinedIndices (s : SchedState R ε) : List ℕ :=
  s.joined.map (fun e => e.1.taskIndex)

/-- When `t` was spawned, the tasks `past` were joined, among them all that `t` waited for. -/
structure SpawnedAfter (G : DFComponentGraph R ε) (X : Dag ExecNode Unit)
    (past : List (Task R ε × Inserts R ε)) (t : Task R ε) : Prop where
  eq_taskAt : t = taskAt G X (past.flatMap Prod.snd) t.taskIndex
  preds : ∀ j, Adj X.arcs j t.taskIndex → j ∈ past.map (fun e => e.1.taskIndex)
  notMem : t.taskIndex ∉ past.map (fun e => e.1.taskIndex)

structure SchedInv (eng : FheEngine R S ε) (T : Toposort) (G : DFComponentGraph R ε)
    (X : Dag ExecNode Unit) (s : SchedState R ε) : Prop where
  state : ∃ taken, s = stateWith G X (pending X s.joinedIndices) s.joined taken s.running ∧
    ∀ c ∈ taken, ∃ t ∈ s.spawned, c ∈ block X t.taskIndex
  nodup : (s.spawned.map Task.taskIndex).Nodup
  spawned_iff : ∀ i, i ∈ s.spawned.map Task.taskIndex ↔
    i < X.nodeCount ∧ ∀ j, Adj X.arcs j i → j ∈ s.joinedIndices
  running : ∀ t ∈ s.running, ∃ past, past <+: s.joined ∧ SpawnedAfter G X past t
  joined : ∀ pre e post, s.joined = pre ++ e :: post →
    ∃ past, past <+: pre ∧ SpawnedAfter G X past e.1
  results : ∀ e ∈ s.joined, e.2.Perm (executePartition eng T e.1.args).entries

section Preservation

variable {eng : FheEngine R S ε} {T : Toposort} {G : DFComponentGraph R ε}
  {X : Dag ExecNode Unit} {s : SchedState R ε}

/-- The results of a task are results of its components. -/
theorem mem_executePartition {as : List (ComponentArgs R)} {h : Handle} {o : OpOutcome R ε}
    (hmem : (h, o) ∈ (executePartition eng T as).entries) :
    ∃ a ∈ as, ∃ available, (h, o) ∈ executeWith eng T available a := by
  have hget := HashMap.get?_eq_some.mpr hmem
  clear hmem
  have hrun : ∀ (as : List (ComponentArgs R)) (m : HashMap Handle (OpOutcome R ε)),
      (as.foldl (fun res a => res.insertAll (executeTransaction eng T res a)) m).get? h = some o →
      m.get? h = some o ∨ ∃ a ∈ as, ∃ available, (h, o) ∈ executeWith eng T available a := by
    intro as
    induction as with
    | nil => exact fun m hm => .inl hm
    | cons a as ih =>
      intro m hm
      rcases ih _ hm with hm | ⟨a', ha', hx⟩
      · rcases HashMap.mem_of_get?_insertAll hm with hm | hm
        · exact .inl hm
        · exact .inr ⟨a, List.mem_cons_self, _, executeTransaction_eq eng T m a ▸ hm⟩
      · exact .inr ⟨a', List.mem_cons_of_mem _ ha', hx⟩
  rcases hrun as _ hget with hm | hx
  · simp at hm
  · exact hx

theorem mem_args_taskAt {L : Inserts R ε} {i : ℕ} {a : ComponentArgs R}
    (h : a ∈ (taskAt G X L i).args) : ∃ c n, c ∈ block X i ∧ flagged G L c = false ∧
      G.graph.nodes[c]? = some n ∧ a = { n.toArgs with inputs := Delivers (lastOk L) n.inputs } := by
  simp only [Task.args, taskAt, List.mem_map, List.mem_filterMap, membersAt, List.mem_filter,
    Prod.exists, argsAt, Option.map_eq_some_iff, Prod.mk.injEq] at h
  obtain ⟨c, a', ⟨d, ⟨hd, hf⟩, _, ⟨n, hn, rfl⟩, rfl, rfl⟩, rfl⟩ := h
  exact ⟨d, n, hd, by simpa using hf, hn, rfl⟩

/-- The handles of the results of a task have recorded producers, and its allowed
ciphertexts are compressed. -/
theorem results_storable (eng : FheEngine R S ε) (T : Toposort) (hG : G.Ready) {L : Inserts R ε}
    {i : ℕ} {e : Handle × OpOutcome R ε}
    (he : e ∈ (executePartition eng T (taskAt G X L i).args).entries) :
    (G.allowedMap.get? e.1).isSome ∧ Compressed e.2 := by
  obtain ⟨h, o⟩ := e
  obtain ⟨a, ha, available, hmem⟩ := mem_executePartition he
  obtain ⟨c, n, -, -, hn, rfl⟩ := mem_args_taskAt ha
  obtain ⟨⟨op, hop, hh⟩, hcomp⟩ := mem_executeWith hmem
  refine ⟨?_, hcomp⟩
  have hn := List.mem_of_getElem? hn
  obtain ⟨operations, hnodes, -, hresults, -⟩ := hG.built n hn
  rw [hG.allowedMap_eq]
  refine HashMap.get?_lastIndex_isSome.mpr ⟨n, hn, ?_⟩
  rw [hresults]
  simp only [ComponentNode.toArgs, hnodes, List.mem_map] at hop
  obtain ⟨d, hd, rfl⟩ := hop
  exact List.mem_map.mpr ⟨d, hd, hh⟩

/-- One round of the loop: joining any running task succeeds, whatever the order
of its results. -/
theorem SchedInv.join (hG : G.Ready) (hX : IsPartition G.graph X) (hs : SchedInv eng T G X s)
    {before after : List (Task R ε)} {t : Task R ε} {results : Inserts R ε}
    (hrunning : s.running = before ++ t :: after)
    (hresults : results.Perm (executePartition eng T t.args).entries) :
    ∃ s', completeTask (shape G.graph) (shape X) s t (before ++ after) results = .ok s' ∧
      SchedInv eng T G X s' ∧ s'.joined = s.joined ++ [(t, results)] := by
  obtain ⟨taken, hstate, htaken⟩ := hs.state
  obtain ⟨past, hpast, hafter⟩ := hs.running t (by simp [hrunning])
  -- the results can be stored
  have hstore := foldlM_addOutput_graphAfter hG (s.joined.flatMap Prod.snd) taken results
    (fun e he => results_storable eng T hG
      (hafter.eq_taskAt ▸ hresults.mem_iff.mp he))
  -- `t` was not joined before, and its dependents were not spawned
  have hjoined : t.taskIndex ∉ s.joinedIndices := by
    intro hmem
    have hnd := hs.nodup
    simp only [SchedState.spawned, hrunning, List.map_append, List.map_cons, List.map_map] at hnd
    exact (List.nodup_append.mp hnd).2.2 _ (by simp) _ hmem rfl
  have hdependents : ∀ i, Adj X.arcs t.taskIndex i → i ∉ s.spawned.map Task.taskIndex :=
    fun i hi hmem => hjoined (((hs.spawned_iff i).mp hmem).2 _ hi)
  let joined' := s.joined ++ [(t, results)]
  have hindices : joined'.map (fun e => e.1.taskIndex) = s.joinedIndices ++ [t.taskIndex] := by
    simp [joined', SchedState.joinedIndices]
  have hnot : ∀ e ∈ X.outgoing t.taskIndex, ∀ c ∈ block X e.target, c ∉ taken := by
    intro e he c hc hmem
    obtain ⟨t', ht', hc'⟩ := htaken c hmem
    have hsame := block_unique hX.topological.nodup hc hc'
    exact hdependents e.target (mem_targets.mp (List.mem_map_of_mem he))
      (hsame ▸ List.mem_map_of_mem ht')
  obtain ⟨taken', running', hrelease, hrunning', htaken'⟩ := foldlM_releaseDependent hX joined'
    (X.outgoing t.taskIndex) (pending X s.joinedIndices) taken (before ++ after)
    (nodup_targets hX.simple _)
    (fun e he => (Dag.adj_lt (mem_targets.mp (List.mem_map_of_mem he))).2) hnot
  -- the new counters are the numbers of predecessors that are left
  have hcounters : (fun i => if i ∈ (X.outgoing t.taskIndex).map Edge.target then
      fetchSub (pending X s.joinedIndices i) else pending X s.joinedIndices i) =
      pending X (s.joinedIndices ++ [t.taskIndex]) := by
    funext i
    rw [pending_concat hX.simple hjoined]
    simp only [mem_targets]
  have hreleased : ((X.outgoing t.taskIndex).map Edge.target).filter
      (fun i => fetchSub (pending X s.joinedIndices i) = 0) =
      ((X.outgoing t.taskIndex).map Edge.target).filter
        (fun i => pending X (s.joinedIndices ++ [t.taskIndex]) i = 0) := by
    refine List.filter_congr fun i hi => ?_
    rw [pending_concat hX.simple hjoined, if_pos (mem_targets.mp hi)]
  rw [hcounters, ← hindices] at hrelease
  rw [hreleased] at hrunning' htaken'
  set released := ((X.outgoing t.taskIndex).map Edge.target).filter
    (fun i => pending X (s.joinedIndices ++ [t.taskIndex]) i = 0) with hrel
  have hmemreleased : ∀ i, i ∈ released ↔ Adj X.arcs t.taskIndex i ∧
      ∀ j, Adj X.arcs j i → j ∈ s.joinedIndices ++ [t.taskIndex] := by
    intro i
    rw [hrel, List.mem_filter, mem_targets, decide_eq_true_eq, pending_eq_zero]
  let s' := stateWith G X (pending X (joined'.map (fun e => e.1.taskIndex))) joined' taken' running'
  have hmap : (released.map (taskAt G X (joined'.flatMap Prod.snd))).map Task.taskIndex =
      released := by
    rw [List.map_map]
    exact List.map_id _
  have hspawned : s'.spawned.Perm
      (s.spawned ++ released.map (taskAt G X (joined'.flatMap Prod.snd))) := by
    classical
    simp only [SchedState.spawned, s', stateWith, hrunning', hrunning, joined', List.map_append,
      List.map_cons, List.map_nil, List.perm_iff_count, List.count_append, List.count_cons,
      List.count_nil]
    intro u
    omega
  refine ⟨s', ?_, ?_, rfl⟩
  · rw [completeTask, hstate]
    simp only [stateWith, hstore]
    rw [outgoing_shape]
    refine Eq.trans ?_ hrelease
    simp [stateWith, joined', List.flatMap_append]
  refine
    { state := ⟨taken', rfl, fun c hc => ?_⟩
      nodup := ?nodup
      spawned_iff := fun i => ?_
      running := fun u hu => ?_
      joined := fun pre e post hsplit => ?_
      results := fun e he => ?_ }
  case nodup =>
    rw [(hspawned.map _).nodup_iff, List.map_append, hmap, List.nodup_append]
    refine ⟨hs.nodup, (nodup_targets hX.simple _).filter _, ?_⟩
    rintro i hi j hj rfl
    exact hdependents i ((hmemreleased i).mp hj).1 hi
  · rcases htaken' c hc with hc | ⟨i, hi, hc⟩
    · obtain ⟨t', ht', hc'⟩ := htaken c hc
      exact ⟨t', hspawned.mem_iff.mpr (List.mem_append_left _ ht'), hc'⟩
    · exact ⟨_, hspawned.mem_iff.mpr (List.mem_append_right _ (List.mem_map_of_mem hi)), hc⟩
  · rw [(hspawned.map _).mem_iff, List.map_append, hmap, List.mem_append, hs.spawned_iff,
      hmemreleased]
    have hj' : s'.joinedIndices = s.joinedIndices ++ [t.taskIndex] := hindices
    rw [hj']
    constructor
    · rintro (⟨hi, hall⟩ | ⟨hadj, hall⟩)
      · exact ⟨hi, fun j hj => List.mem_append_left _ (hall j hj)⟩
      · exact ⟨(Dag.adj_lt hadj).2, hall⟩
    · rintro ⟨hi, hall⟩
      by_cases hadj : Adj X.arcs t.taskIndex i
      · exact .inr ⟨hadj, hall⟩
      · refine .inl ⟨hi, fun j hj => ?_⟩
        rcases List.mem_append.mp (hall j hj) with hmem | hmem
        · exact hmem
        · exact absurd (List.mem_singleton.mp hmem ▸ hj) hadj
  · have hu' : u ∈ running' := hu
    rw [hrunning', List.mem_append] at hu'
    rcases hu' with hu' | hu'
    · have hu₀ : u ∈ s.running := by
        rw [hrunning]
        rcases List.mem_append.mp hu' with h | h
        · exact List.mem_append_left _ h
        · exact List.mem_append_right _ (List.mem_cons_of_mem _ h)
      obtain ⟨past, hpast, hafter⟩ := hs.running u hu₀
      exact ⟨past, hpast.trans (List.prefix_append _ _), hafter⟩
    · obtain ⟨i, hi, rfl⟩ := List.mem_map.mp hu'
      obtain ⟨hadj, hall⟩ := (hmemreleased i).mp hi
      refine ⟨joined', List.prefix_rfl, rfl, fun j hj => hindices ▸ hall j hj, fun hmem => ?_⟩
      rw [hindices, List.mem_append, List.mem_singleton] at hmem
      refine hdependents i hadj ?_
      rw [SchedState.spawned, List.map_append, List.map_map]
      rcases hmem with hmem | hmem
      · exact List.mem_append_right _ hmem
      · refine List.mem_append_left _ ?_
        have hi' : i = t.taskIndex := hmem
        rw [hi', hrunning]
        simp
  · have hsplit' : s.joined ++ [(t, results)] = pre ++ e :: post := hsplit
    rcases List.eq_nil_or_concat post with rfl | ⟨post', e', rfl⟩
    · obtain ⟨rfl, he⟩ := List.append_inj' hsplit' rfl
      rw [← List.singleton_inj.mp he]
      exact ⟨past, hpast, hafter⟩
    · rw [List.concat_eq_append, ← List.cons_append, ← List.append_assoc] at hsplit'
      exact hs.joined pre e post' (List.append_inj' hsplit' rfl).1
  · rcases List.mem_append.mp he with he | he
    · exact hs.results e he
    · rw [List.mem_singleton.mp he]
      exact hresults

/-- The loop is entered with the tasks that wait for nothing. -/
theorem scheduleStart_inv (eng : FheEngine R S ε) (T : Toposort) (hG : G.Ready)
    (hX : IsPartition G.graph X) :
    ∃ s, scheduleStart G X = .ok s ∧ SchedInv eng T G X s ∧ s.joined = [] := by
  have hstart : (⟨G, X, [], []⟩ : SchedState R ε) = stateWith G X (pending X []) [] [] [] := by
    have hcounters : withCounters X (pending X []) = X := by
      refine Dag.ext (List.ext_getElem? fun i => ?_) rfl
      simp only [withCounters, Dag.nodes_mapIdxNodes, List.getElem?_mapIdx]
      cases hx : X.nodes[i]? with
      | none => rfl
      | some x => simp [pending_nil, ← hX.counter i x hx]
    simp only [stateWith, hcounters, List.flatMap_nil, graphAfter_nil hG]
  obtain ⟨taken, hrun, htaken⟩ := foldlM_primeNode hX (pending X []) (List.range X.nodeCount) []
    ([] : List (Task R ε)) List.nodup_range (fun i hi => List.mem_range.mp hi) (by simp)
  have hmem : ∀ i, i ∈ (List.range X.nodeCount).filter (pending X [] · = 0) ↔
      i < X.nodeCount ∧ ∀ j, Adj X.arcs j i → j ∈ ([] : List ℕ) := by
    intro i
    rw [List.mem_filter, List.mem_range, decide_eq_true_eq, pending_eq_zero]
  set s₀ := stateWith G X (pending X []) [] taken ([] ++
    ((List.range X.nodeCount).filter (pending X [] · = 0)).map (taskAt G X [])) with hs₀
  have hspawned : s₀.spawned.map Task.taskIndex =
      (List.range X.nodeCount).filter (pending X [] · = 0) := by
    simp only [SchedState.spawned, hs₀, stateWith, List.map_nil, List.append_nil,
      List.nil_append, List.map_map]
    exact List.map_id _
  refine ⟨s₀, by rw [scheduleStart, hstart]; exact hrun, ?_, rfl⟩
  refine
    { state := ⟨taken, rfl, fun c hc => ?_⟩
      nodup := hspawned ▸ List.nodup_range.filter _
      spawned_iff := fun i => hspawned ▸ hmem i
      running := fun t ht => ?_
      joined := fun pre e post h => by simp [hs₀, stateWith] at h
      results := by simp [hs₀, stateWith] }
  · rcases htaken c hc with hc | ⟨i, hi, hc⟩
    · simp at hc
    · obtain ⟨t, ht, rfl⟩ := List.mem_map.mp (hspawned ▸ hi)
      exact ⟨t, ht, hc⟩
  · simp only [hs₀, stateWith, List.nil_append, List.mem_map] at ht
    obtain ⟨i, hi, rfl⟩ := ht
    exact ⟨[], List.prefix_rfl, rfl, ((hmem i).mp hi).2, by simp⟩

theorem SchedInv.step (hG : G.Ready) (hX : IsPartition G.graph X) (hs : SchedInv eng T G X s)
    {s' : SchedState R ε} (h : Step eng T (shape G.graph) (shape X) s s') :
    SchedInv eng T G X s' ∧ ∃ t results, s'.joined = s.joined ++ [(t, results)] := by
  obtain ⟨hrunning, hresults, hok⟩ := h
  obtain ⟨s₁, h₁, hinv, hjoined⟩ := hs.join hG hX hrunning hresults
  rw [h₁] at hok
  cases hok
  exact ⟨hinv, _, _, hjoined⟩

/-- A strategy yields a partition of the graph. -/
theorem partitionWith_spec (T : Toposort) (strategy : PartitionStrategy)
    (G : DFComponentGraph R ε) :
    ∃ X, partitionWith T strategy G = .ok X ∧ IsPartition G.graph X := by
  cases strategy with
  | maxParallelism =>
    obtain ⟨X, hX, hpart, -⟩ := partitionPreservingParallelism_spec T G.graph
    exact ⟨X, hX, hpart⟩
  | maxLocality =>
    obtain ⟨X, hX, hpart, -⟩ := partitionComponents_spec T G.graph
    exact ⟨X, hX, hpart⟩

theorem Reachable.inv {strategy : PartitionStrategy} (hG : G.Ready)
    (h : Reachable eng T strategy G s) :
    ∃ X, partitionWith T strategy G = .ok X ∧ IsPartition G.graph X ∧ SchedInv eng T G X s := by
  obtain ⟨X, s₀, hX, hstart, hrun⟩ := h
  obtain ⟨X', hX', hpart⟩ := partitionWith_spec T strategy G
  have hsame : X' = X := Except.ok.inj (hX'.symm.trans hX)
  subst hsame
  obtain ⟨s₁, h₁, hinv, -⟩ := scheduleStart_inv eng T hG hpart
  have hsame : s₁ = s₀ := Except.ok.inj (h₁.symm.trans hstart)
  subst hsame
  refine ⟨X', hX', hpart, ?_⟩
  clear h₁ hstart
  induction hrun with
  | refl => exact hinv
  | tail _ hstep ih => exact (ih.step hG hpart hstep).1

/-- At the end every task was joined. -/
theorem SchedInv.final (hs : SchedInv eng T G X s) (hfinal : Final s) {i : ℕ}
    (hi : i < X.nodeCount) : i ∈ s.joinedIndices := by
  induction i using X.wellFounded.induction with
  | _ i ih =>
    have hspawned := (hs.spawned_iff i).mpr ⟨hi, fun j hj => ih j hj (Dag.adj_lt hj).1⟩
    simpa [SchedState.spawned, SchedState.joinedIndices, show s.running = [] from hfinal]
      using hspawned

theorem SchedInv.nodup_joined (hs : SchedInv eng T G X s) : s.joinedIndices.Nodup := by
  have hnd := hs.nodup
  rw [SchedState.spawned, List.map_append, List.map_map] at hnd
  exact (List.nodup_append.mp hnd).2.1

/-- A run takes at most one round for each task. -/
theorem SchedInv.length_joined_le (hs : SchedInv eng T G X s) :
    s.joined.length ≤ X.nodeCount := by
  have hsub : s.joinedIndices ⊆ List.range X.nodeCount := by
    intro i hi
    refine List.mem_range.mpr ((hs.spawned_iff i).mp ?_).1
    rw [SchedState.spawned, List.map_append, List.map_map]
    exact List.mem_append_right _ hi
  simpa [SchedState.joinedIndices] using hs.nodup_joined.length_le_of_subset hsub

end Preservation

end Fhevm.Scheduler
