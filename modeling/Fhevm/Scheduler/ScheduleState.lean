import Fhevm.Scheduler.Schedule

/-!
# The state of the scheduling loop

Between two joins the state is determined by the initial graph, the partition,
the results stored so far and the components taken so far. Every action of the
loop takes a state of this form to a state of this form.

## Main definitions

* `graphAfter` — the component graph after storing results and taking components.
* `taskAt` — the task that is spawned once given results are stored.
* `stateWith` — the state given by counters, joined tasks, taken components and running tasks.
-/

namespace Fhevm.Scheduler

open Foundation

variable {R S ε : Type}

/-! ## The component graph after storing results -/

/-- The latest ciphertext stored under a handle. -/
def lastOk (L : Inserts R ε) (h : Handle) : Option (TaskResult R) :=
  L.foldl (fun acc e => if e.1 = h then (okResult (some e.2)).or acc else acc) none

theorem lastOk_concat (L : Inserts R ε) (e : Handle × OpOutcome R ε) (h : Handle) :
    lastOk (L ++ [e]) h = if e.1 = h then (okResult (some e.2)).or (lastOk L h) else lastOk L h := by
  simp [lastOk, List.foldl_append]

/-- Some stored error is attributed to a component that `c` depends on. -/
def flagged (G : DFComponentGraph R ε) (L : Inserts R ε) (c : ℕ) : Bool :=
  L.any fun e =>
    match e.2, G.allowedMap.get? e.1 with
    | .error _, some p => decide (Reaches G.graph.arcs p c)
    | _, _ => false

theorem flagged_append (G : DFComponentGraph R ε) (L L' : Inserts R ε) (c : ℕ) :
    flagged G (L ++ L') c = (flagged G L c || flagged G L' c) := List.any_append

theorem flagged_iff {G : DFComponentGraph R ε} {L : Inserts R ε} {c : ℕ} :
    flagged G L c = true ↔ ∃ h e p, (h, .error e) ∈ L ∧ G.allowedMap.get? h = some p ∧
      Reaches G.graph.arcs p c := by
  simp only [flagged, List.any_eq_true, Prod.exists]
  constructor
  · rintro ⟨h, o, hmem, hif⟩
    cases o with
    | ok r => simp at hif
    | error e =>
      cases hp : G.allowedMap.get? h with
      | none => simp [hp] at hif
      | some p => exact ⟨h, e, p, hmem, hp, by simpa [hp] using hif⟩
  · rintro ⟨h, e, p, hmem, hp, hr⟩
    exact ⟨h, .error e, hmem, by simpa [hp] using hr⟩

/-- The outputs of the stored results. -/
def storedResults (G : DFComponentGraph R ε) (L : Inserts R ε) : List (DFGTxResult ε) :=
  L.flatMap fun e =>
    match (G.allowedMap.get? e.1).bind (G.graph.nodes[·]?) with
    | some tx => savedResults tx.transactionId e.1 e.2
    | none => []

/-- Component `c` after storing the results `L`. -/
def nodeAfter (G : DFComponentGraph R ε) (L : Inserts R ε) (taken : Bool) (c : ℕ)
    (n : ComponentNode R) : ComponentNode R where
  graph := if taken then DFGraph.empty else n.graph
  inputs := if taken then HashMap.empty else Delivers (lastOk L) n.inputs
  results := n.results
  transactionId := n.transactionId
  isUncomputable := flagged G L c
  componentId := n.componentId

/-- The graph after storing the results `L` and taking the components `taken`. -/
def graphAfter (G : DFComponentGraph R ε) (L : Inserts R ε) (taken : List ℕ) :
    DFComponentGraph R ε :=
  { G with
    graph := G.graph.mapIdxNodes (fun c => nodeAfter G L (decide (c ∈ taken)) c)
    results := storedResults G L }

theorem getElem?_graphAfter (G : DFComponentGraph R ε) (L : Inserts R ε) (taken : List ℕ) (c : ℕ) :
    (graphAfter G L taken).graph.nodes[c]? =
      G.graph.nodes[c]?.map (nodeAfter G L (decide (c ∈ taken)) c) := by
  simp [graphAfter]

theorem graphAfter_nil {G : DFComponentGraph R ε} (hG : G.Ready) : graphAfter G [] [] = G := by
  have hgraph : G.graph.mapIdxNodes (fun c => nodeAfter G [] (decide (c ∈ [])) c) = G.graph := by
    refine Dag.ext (List.ext_getElem? fun c => ?_) rfl
    rw [Dag.nodes_mapIdxNodes, List.getElem?_mapIdx]
    cases hc : G.graph.nodes[c]? with
    | none => rfl
    | some n =>
      have hfresh := hG.fresh n (List.mem_of_getElem? hc)
      have hnone : lastOk ([] : Inserts R ε) = fun _ => none := rfl
      simp [nodeAfter, hnone, delivers_none, flagged]
      rw [← hfresh]
  unfold graphAfter
  rw [hgraph]
  simp only [storedResults, List.flatMap_nil, ← hG.noResults]

/-- The recorded producer of an input is a predecessor. -/
theorem DFComponentGraph.Ready.adj_of_input {G : DFComponentGraph R ε} (hG : G.Ready) {c p : ℕ}
    {n : ComponentNode R} (hn : G.graph.nodes[c]? = some n) {h : Handle} (hk : h ∈ n.inputs.keys)
    (hp : G.allowedMap.get? h = some p) : Adj G.graph.arcs p c :=
  (hG.adj_iff p c).mpr ⟨n, hn, h, hk, hG.allowedMap_eq ▸ hp⟩

theorem DFComponentGraph.Ready.producer_lt {G : DFComponentGraph R ε} (hG : G.Ready) {h : Handle}
    {p : ℕ} (hp : G.allowedMap.get? h = some p) : p < G.graph.nodeCount :=
  allowedMapOf_lt (hG.allowedMap_eq ▸ hp)

/-- Storing one more result. -/
theorem addOutput_graphAfter {G : DFComponentGraph R ε} (hG : G.Ready) (L : Inserts R ε)
    (taken : List ℕ) {e : Handle × OpOutcome R ε} (hp : (G.allowedMap.get? e.1).isSome)
    (hc : Compressed e.2) :
    (graphAfter G L taken).addOutput (shape G.graph) e.1 e.2 =
      .ok (graphAfter G (L ++ [e]) taken) := by
  obtain ⟨p, hp⟩ := Option.isSome_iff_exists.mp hp
  obtain ⟨tx, htx⟩ : ∃ tx, G.graph.nodes[p]? = some tx :=
    ⟨_, List.getElem?_eq_getElem (hG.producer_lt hp)⟩
  have hcount : (shape G.graph).nodeCount = (graphAfter G L taken).graph.nodeCount := by
    simp [shape, graphAfter, Dag.nodeCount]
  have htx' : (graphAfter G L taken).graph.nodes[p]? =
      some (nodeAfter G L (decide (p ∈ taken)) p tx) := by
    rw [getElem?_graphAfter, htx]
    rfl
  rw [DFComponentGraph.addOutput_eq hcount (by exact hp) htx' hc]
  have hgraph : (graphAfter G L taken).graph.mapIdxNodes
      (receive (shape G.graph).arcs p e.1 e.2) = (graphAfter G (L ++ [e]) taken).graph := by
    simp only [graphAfter, Dag.mapIdxNodes_mapIdxNodes]
    refine Dag.ext (List.ext_getElem? fun c => ?_) rfl
    simp only [Dag.nodes_mapIdxNodes, List.getElem?_mapIdx]
    cases hn : G.graph.nodes[c]? with
    | none => rfl
    | some n =>
      obtain ⟨h, o⟩ := e
      simp only [Option.map_some, Option.some.injEq]
      cases o with
      | error err =>
        have hlast : lastOk (L ++ [(h, .error err)]) = lastOk L := by
          funext k
          rw [lastOk_concat]
          simp [okResult]
        have hflag : flagged G (L ++ [(h, .error err)]) c =
            (flagged G L c || decide (Reaches G.graph.arcs p c)) := by
          simp only [flagged_append]
          congr 1
          simp [flagged, hp]
        simp only [receive, nodeAfter, hlast, hflag]
        rfl
      | ok r =>
        have hflag : flagged G (L ++ [(h, .ok r)]) c = flagged G L c := by
          simp [flagged]
        have hother : ∀ k, k ≠ h → lastOk (L ++ [(h, .ok r)]) k = lastOk L k := by
          intro k hk
          rw [lastOk_concat, if_neg (Ne.symm hk)]
        have hself : lastOk (L ++ [(h, .ok r)]) h = some r := by
          rw [lastOk_concat, if_pos rfl]
          rfl
        simp only [receive, nodeAfter, hflag]
        have hadj : Adj (shape G.graph).arcs p c ↔ Adj G.graph.arcs p c := Iff.rfl
        by_cases hpc : Adj G.graph.arcs p c
        · rw [if_pos (hadj.mpr hpc)]
          congr 1
          split
          · rfl
          · refine HashMap.ext ?_
            simp only [Delivers, HashMap.modify, HashMap.entries_mapVals, List.map_map]
            refine List.map_congr_left fun x hx => ?_
            obtain ⟨k, v⟩ := x
            by_cases hk : k = h
            · subst hk
              have hv : v = none := hG.pending n (List.mem_of_getElem? hn) k p v hp
                (HashMap.get?_eq_some.mpr hx)
              subst hv
              simp [fillInput, hself]
            · cases v <;> simp [fillInput, hk, hother k hk]
        · rw [if_neg (fun h => hpc (hadj.mp h))]
          congr 1
          split
          · rfl
          · refine delivers_congr fun k hk => (hother k ?_).symm
            rintro rfl
            exact hpc (hG.adj_of_input hn (HashMap.get?_isSome.mp (by simp [hk])) hp)
  rw [hgraph]
  simp only [graphAfter, storedResults, List.flatMap_append, List.flatMap_singleton, hp,
    Option.bind_some, htx]
  rfl

theorem foldlM_addOutput_graphAfter {G : DFComponentGraph R ε} (hG : G.Ready) (L : Inserts R ε)
    (taken : List ℕ) (es : Inserts R ε)
    (hes : ∀ e ∈ es, (G.allowedMap.get? e.1).isSome ∧ Compressed e.2) :
    es.foldlM (fun g e => g.addOutput (shape G.graph) e.1 e.2) (graphAfter G L taken) =
      .ok (graphAfter G (L ++ es) taken) := by
  induction es generalizing L with
  | nil =>
    rw [List.append_nil]
    rfl
  | cons e es ih =>
    obtain ⟨hp, hc⟩ := hes e List.mem_cons_self
    rw [List.foldlM_cons, addOutput_graphAfter hG L taken hp hc]
    have := ih (L ++ [e]) (fun e' he' => hes e' (List.mem_cons_of_mem _ he'))
    rw [List.append_assoc] at this
    exact this

/-! ## Taking the components of a task -/

/-- What a task receives of component `c` once the results `L` are stored. -/
def argsAt (G : DFComponentGraph R ε) (L : Inserts R ε) (c : ℕ) : Option (ComponentArgs R) :=
  G.graph.nodes[c]?.map fun n => { n.toArgs with inputs := Delivers (lastOk L) n.inputs }

/-- The components of a block that are not skipped. -/
def membersAt (G : DFComponentGraph R ε) (X : Dag ExecNode Unit) (L : Inserts R ε) (i : ℕ) :
    List ℕ := (block X i).filter (fun c => !flagged G L c)

/-- The task of block `i`, spawned once the results `L` are stored. -/
def taskAt (G : DFComponentGraph R ε) (X : Dag ExecNode Unit) (L : Inserts R ε) (i : ℕ) :
    Task R ε :=
  ⟨i, (membersAt G X L i).filterMap (fun c => (argsAt G L c).map (c, ·)), L⟩

theorem foldlM_takeComponent {G : DFComponentGraph R ε} {L : Inserts R ε} {skip : Bool}
    (hskip : skip = false → ∀ c, flagged G L c = false) (ns taken : List ℕ)
    (acc : List (ℕ × ComponentArgs R)) (hnd : ns.Nodup)
    (hlt : ∀ c ∈ ns, c < G.graph.nodeCount) (hnot : ∀ c ∈ ns, c ∉ taken) :
    ns.foldlM (takeComponent skip) (graphAfter G L taken, acc) =
      .ok (graphAfter G L (taken ++ ns.filter (fun c => !flagged G L c)),
        acc ++ (ns.filter (fun c => !flagged G L c)).filterMap
          (fun c => (argsAt G L c).map (c, ·))) := by
  induction ns generalizing taken acc with
  | nil =>
    simp only [List.foldlM_nil, List.filter_nil, List.filterMap_nil, List.append_nil]
    rfl
  | cons c ns ih =>
    obtain ⟨hc, hnd⟩ := List.nodup_cons.mp hnd
    have hclt := hlt c List.mem_cons_self
    have hcnot := hnot c List.mem_cons_self
    obtain ⟨n, hn⟩ : ∃ n, G.graph.nodes[c]? = some n := ⟨_, List.getElem?_eq_getElem hclt⟩
    have hnode := getElem?_graphAfter G L taken c
    rw [hn, Option.map_some] at hnode
    rw [List.foldlM_cons]
    cases hf : flagged G L c with
    | true =>
      have hs : skip = true := by
        cases skip with
        | true => rfl
        | false => simp [hskip rfl c] at hf
      have hstep : takeComponent skip (graphAfter G L taken, acc) c =
          .ok (graphAfter G L taken, acc) := by
        simp only [takeComponent, hnode]
        rw [if_pos (by simp [hs, nodeAfter, hf])]
      rw [hstep, List.filter_cons_of_neg (by simp [hf])]
      exact ih taken acc hnd (fun d hd => hlt d (List.mem_cons_of_mem _ hd))
        (fun d hd => hnot d (List.mem_cons_of_mem _ hd))
    | false =>
      have hgraph : { graphAfter G L taken with
          graph := (graphAfter G L taken).graph.modifyNode c ComponentNode.taken } =
          graphAfter G L (taken ++ [c]) := by
        simp only [graphAfter, Dag.modifyNode_eq_mapIdxNodes, Dag.mapIdxNodes_mapIdxNodes]
        congr 2
        funext d m
        by_cases hd : d = c
        · simp [hd, nodeAfter, ComponentNode.taken]
        · simp [hd]
      have hstep : takeComponent skip (graphAfter G L taken, acc) c =
          .ok (graphAfter G L (taken ++ [c]),
            acc ++ [(c, { n.toArgs with inputs := Delivers (lastOk L) n.inputs })]) := by
        simp only [takeComponent, hnode, hgraph]
        rw [if_neg (by simp [nodeAfter, hf])]
        simp [nodeAfter, ComponentNode.toArgs, hcnot]
      rw [hstep, List.filter_cons_of_pos (by simp [hf])]
      have := ih (taken ++ [c])
        (acc ++ [(c, { n.toArgs with inputs := Delivers (lastOk L) n.inputs })]) hnd
        (fun d hd => hlt d (List.mem_cons_of_mem _ hd))
        (fun d hd => by
          rw [List.mem_append, List.mem_singleton, not_or]
          exact ⟨hnot d (List.mem_cons_of_mem _ hd), fun h => hc (h ▸ hd)⟩)
      simp only [bind, Except.bind]
      rw [this]
      simp [argsAt, hn]

/-! ## Spawning -/

/-- The execution graph with other counters. -/
def withCounters (X : Dag ExecNode Unit) (f : ℕ → ℕ) : Dag ExecNode Unit :=
  X.mapIdxNodes (fun i x => { x with dependenceCounter := f i })

/-- The state in which tasks were spawned and joined as given. -/
def stateWith (G : DFComponentGraph R ε) (X : Dag ExecNode Unit) (f : ℕ → ℕ)
    (joined : List (Task R ε × Inserts R ε)) (taken : List ℕ) (running : List (Task R ε)) :
    SchedState R ε :=
  ⟨graphAfter G (joined.flatMap Prod.snd) taken, withCounters X f, running, joined⟩

section Spawn

variable {G : DFComponentGraph R ε} {X : Dag ExecNode Unit}

theorem getElem?_withCounters {f : ℕ → ℕ} {i : ℕ} {x : ExecNode} (hx : X.nodes[i]? = some x) :
    (withCounters X f).nodes[i]? = some ⟨block X i, f i⟩ := by
  simp [withCounters, hx, block, blocks]

theorem spawnTask_stateWith (hX : IsPartition G.graph X) {f : ℕ → ℕ}
    {joined : List (Task R ε × Inserts R ε)} {taken : List ℕ} {running : List (Task R ε)}
    {skip : Bool} (hskip : skip = false → ∀ c, flagged G (joined.flatMap Prod.snd) c = false)
    {i k : ℕ} (hnot : ∀ c ∈ block X i, c ∉ taken) :
    spawnTask skip (stateWith G X f joined taken running) i ⟨block X i, k⟩ =
      .ok (stateWith G X f joined (taken ++ membersAt G X (joined.flatMap Prod.snd) i)
        (running ++ [taskAt G X (joined.flatMap Prod.snd) i])) := by
  have hmem : ∀ c ∈ block X i, c ∈ (blocks X).flatten :=
    fun c hc => mem_flatten_blocks.mpr ⟨i, hc⟩
  have hnd : (block X i).Nodup := by
    unfold block
    cases hb : (blocks X)[i]? with
    | none => simp
    | some b => exact (List.nodup_flatten.mp hX.topological.nodup).1 b (List.mem_of_getElem? hb)
  have htake := foldlM_takeComponent hskip (block X i) taken [] hnd
    (fun c hc => hX.topological.mem_iff.mp (hmem c hc)) hnot
  simp only [spawnTask, stateWith, htake, List.nil_append, membersAt, taskAt, SchedState.log]

/-- The tasks primed by the first loop. -/
theorem foldlM_primeNode (hX : IsPartition G.graph X) (f : ℕ → ℕ) (is taken : List ℕ)
    (running : List (Task R ε)) (hnd : is.Nodup) (hlt : ∀ i ∈ is, i < X.nodeCount)
    (hnot : ∀ i ∈ is, ∀ c ∈ block X i, c ∉ taken) :
    ∃ taken', is.foldlM primeNode (stateWith G X f [] taken running) =
        .ok (stateWith G X f [] taken' (running ++ (is.filter (f · = 0)).map (taskAt G X []))) ∧
      ∀ c ∈ taken', c ∈ taken ∨ ∃ i ∈ is.filter (f · = 0), c ∈ block X i := by
  induction is generalizing taken running with
  | nil => exact ⟨taken, by rw [List.filter_nil, List.map_nil, List.append_nil]; rfl,
      fun c hc => .inl hc⟩
  | cons i is ih =>
    obtain ⟨hi, hnd⟩ := List.nodup_cons.mp hnd
    obtain ⟨x, hx⟩ : ∃ x, X.nodes[i]? = some x :=
      ⟨_, List.getElem?_eq_getElem (hlt i List.mem_cons_self)⟩
    have hnode : (stateWith G X f [] taken running).executionGraph.nodes[i]? =
        some ⟨block X i, f i⟩ := getElem?_withCounters hx
    have hrest : ∀ j ∈ is, ∀ c ∈ block X j, c ∉ taken :=
      fun j hj => hnot j (List.mem_cons_of_mem _ hj)
    rw [List.foldlM_cons]
    by_cases hz : f i = 0
    · have hready : isReadyTask ⟨block X i, f i⟩ = true := by simp [isReadyTask, hz]
      simp only [primeNode, hnode, hready, if_true]
      rw [spawnTask_stateWith hX (fun _ _ => rfl) (hnot i List.mem_cons_self)]
      simp only [bind, Except.bind]
      obtain ⟨taken', hrun, htaken⟩ := ih (taken ++ membersAt G X [] i)
        (running ++ [taskAt G X [] i]) hnd (fun j hj => hlt j (List.mem_cons_of_mem _ hj))
        (fun j hj c hc hmem => by
          rcases List.mem_append.mp hmem with hmem | hmem
          · exact hrest j hj c hc hmem
          · have := block_unique hX.topological.nodup hc (List.mem_filter.mp hmem).1
            exact hi (this ▸ hj))
      rw [List.filter_cons_of_pos (by simpa using hz)]
      refine ⟨taken', ?_, fun c hc => ?_⟩
      · rw [List.map_cons]
        simpa using hrun
      · rcases htaken c hc with hc | ⟨j, hj, hc⟩
        · rcases List.mem_append.mp hc with hc | hc
          · exact .inl hc
          · exact .inr ⟨i, List.mem_cons_self, (List.mem_filter.mp hc).1⟩
        · exact .inr ⟨j, List.mem_cons_of_mem _ hj, hc⟩
    · have hready : isReadyTask ⟨block X i, f i⟩ = false := by simp [isReadyTask, hz]
      simp only [primeNode, hnode, hready, Bool.false_eq_true, if_false]
      rw [List.filter_cons_of_neg (by simpa using hz)]
      exact ih taken running hnd (fun j hj => hlt j (List.mem_cons_of_mem _ hj)) hrest

/-- Decrement the counter of one task. -/
def decrement (f : ℕ → ℕ) (i : ℕ) : ℕ → ℕ := fun j => if j = i then fetchSub (f j) else f j

theorem modifyNode_withCounters {f : ℕ → ℕ} {i : ℕ} :
    (withCounters X f).modifyNode i (fun _ => ⟨block X i, fetchSub (f i)⟩) =
      withCounters X (decrement f i) := by
  simp only [withCounters, Dag.modifyNode_eq_mapIdxNodes, Dag.mapIdxNodes_mapIdxNodes]
  refine Dag.ext (List.ext_getElem? fun j => ?_) rfl
  simp only [Dag.nodes_mapIdxNodes, List.getElem?_mapIdx]
  cases hx : X.nodes[j]? with
  | none => rfl
  | some x =>
    by_cases hj : j = i
    · subst hj
      simp [decrement, block, blocks, hx]
    · simp [decrement, hj]

/-- The tasks released by a join: each dependent is decremented once. -/
theorem foldlM_releaseDependent (hX : IsPartition G.graph X)
    (joined : List (Task R ε × Inserts R ε)) (es : List (Edge Unit)) (f : ℕ → ℕ)
    (taken : List ℕ) (running : List (Task R ε)) (hnd : (es.map Edge.target).Nodup)
    (hlt : ∀ e ∈ es, e.target < X.nodeCount)
    (hnot : ∀ e ∈ es, ∀ c ∈ block X e.target, c ∉ taken) :
    ∃ taken' running', es.foldlM releaseDependent (stateWith G X f joined taken running) =
        .ok (stateWith G X (fun i => if i ∈ es.map Edge.target then fetchSub (f i) else f i)
          joined taken' running') ∧
      running' = running ++ ((es.map Edge.target).filter (fun i => fetchSub (f i) = 0)).map
        (taskAt G X (joined.flatMap Prod.snd)) ∧
      ∀ c ∈ taken', c ∈ taken ∨
        ∃ i ∈ (es.map Edge.target).filter (fun i => fetchSub (f i) = 0), c ∈ block X i := by
  induction es generalizing f taken running with
  | nil => exact ⟨taken, running, rfl, by simp, fun c hc => .inl hc⟩
  | cons e es ih =>
    rw [List.map_cons] at hnd
    obtain ⟨hi, hnd⟩ := List.nodup_cons.mp hnd
    obtain ⟨x, hx⟩ : ∃ x, X.nodes[e.target]? = some x :=
      ⟨_, List.getElem?_eq_getElem (hlt e List.mem_cons_self)⟩
    have hnode : (stateWith G X f joined taken running).executionGraph.nodes[e.target]? =
        some ⟨block X e.target, f e.target⟩ := getElem?_withCounters hx
    -- later edges have other targets, so their counters are the old ones
    have hsame : ∀ i ∈ es.map Edge.target, decrement f e.target i = f i := by
      intro i hmem
      have hne : i ≠ e.target := fun h => hi (h ▸ hmem)
      simp [decrement, hne]
    have hcounters : (fun i => if i ∈ es.map Edge.target then
        fetchSub (decrement f e.target i) else decrement f e.target i) =
        fun i => if i ∈ (e :: es).map Edge.target then fetchSub (f i) else f i := by
      funext i
      by_cases hmem : i ∈ es.map Edge.target
      · simp only [hmem, if_true, hsame i hmem, List.map_cons, List.mem_cons, or_true]
      · by_cases heq : i = e.target
        · simp [heq, hi, decrement]
        · simp [hmem, heq, decrement]
    have hfilter : (es.map Edge.target).filter (fun i => fetchSub (decrement f e.target i) = 0) =
        (es.map Edge.target).filter (fun i => fetchSub (f i) = 0) :=
      List.filter_congr fun i hmem => by rw [hsame i hmem]
    have hrest : ∀ e' ∈ es, ∀ c ∈ block X e'.target, c ∉ taken :=
      fun e' he' => hnot e' (List.mem_cons_of_mem _ he')
    have hstate : { stateWith G X f joined taken running with
        executionGraph := (stateWith G X f joined taken running).executionGraph.modifyNode
          e.target (fun _ => ⟨block X e.target, fetchSub (f e.target)⟩) } =
        stateWith G X (decrement f e.target) joined taken running := by
      simp only [stateWith, modifyNode_withCounters]
    rw [List.foldlM_cons]
    by_cases hz : fetchSub (f e.target) = 0
    · have hready : isReadyTask ⟨block X e.target, fetchSub (f e.target)⟩ = true := by
        simp [isReadyTask, hz]
      simp only [releaseDependent, hnode, hready, hstate, if_true]
      rw [spawnTask_stateWith hX (fun h => by cases h) (hnot e List.mem_cons_self)]
      simp only [bind, Except.bind]
      obtain ⟨taken', running', hrun, hr, htaken⟩ := ih (decrement f e.target)
        (taken ++ membersAt G X (joined.flatMap Prod.snd) e.target)
        (running ++ [taskAt G X (joined.flatMap Prod.snd) e.target]) hnd
        (fun e' he' => hlt e' (List.mem_cons_of_mem _ he'))
        (fun e' he' c hc hmem => by
          rcases List.mem_append.mp hmem with hmem | hmem
          · exact hrest e' he' c hc hmem
          · have := block_unique hX.topological.nodup hc (List.mem_filter.mp hmem).1
            exact hi (this ▸ List.mem_map_of_mem he'))
      rw [hcounters] at hrun
      rw [hfilter] at hr htaken
      rw [List.map_cons, List.filter_cons_of_pos (by simpa using hz)]
      refine ⟨taken', running', hrun, ?_, fun c hc => ?_⟩
      · rw [hr]
        simp
      · rcases htaken c hc with hc | ⟨j, hj, hc⟩
        · rcases List.mem_append.mp hc with hc | hc
          · exact .inl hc
          · exact .inr ⟨e.target, List.mem_cons_self, (List.mem_filter.mp hc).1⟩
        · exact .inr ⟨j, List.mem_cons_of_mem _ hj, hc⟩
    · have hready : isReadyTask ⟨block X e.target, fetchSub (f e.target)⟩ = false := by
        simp [isReadyTask, hz]
      simp only [releaseDependent, hnode, hready, hstate, Bool.false_eq_true, if_false]
      simp only [bind, Except.bind]
      obtain ⟨taken', running', hrun, hr, htaken⟩ := ih (decrement f e.target) taken running hnd
        (fun e' he' => hlt e' (List.mem_cons_of_mem _ he')) hrest
      rw [hcounters] at hrun
      rw [hfilter] at hr htaken
      rw [List.map_cons, List.filter_cons_of_neg (by simpa using hz)]
      exact ⟨taken', running', hrun, hr, htaken⟩

end Spawn

end Fhevm.Scheduler
