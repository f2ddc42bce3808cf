import Fhevm.Scheduler.Component

/-!
# The graph of the components of a tenant

Components of all transactions of a tenant, with an edge from the component
that produces a handle to every component that needs it. One producer is
recorded for each handle. Results come back keyed by handle and are attributed
to the recorded producer.

## Main definitions

* `DFComponentGraph.build` — the graph of a list of components.
* `DFComponentGraph.addOutput` — store a result and pass it on to dependents.
* `DFComponentGraph.setUncomputable` — mark a component and all its dependents.
* `DFComponentGraph.getHandles` — the handles reported as completed.
-/

namespace Fhevm.Scheduler

open Foundation

variable {R ε : Type}

/-! ## The source -/

structure DFComponentGraph (R ε : Type) where
  graph : Dag (ComponentNode R) Unit
  neededMap : HashMap Handle (List ℕ)
  allowedMap : HashMap Handle ℕ
  results : List (DFGTxResult ε)

/-- The recorded producers: the last component that lists a handle. -/
def allowedMapOf (nodes : List (ComponentNode R)) : HashMap Handle ℕ :=
  HashMap.lastIndex ComponentNode.results nodes

/-- An edge for every input that has a recorded producer. -/
def componentDependences (nodes : List (ComponentNode R)) : List (Edge Unit) :=
  nodes.zipIdx.flatMap fun (tx, consumer) => tx.inputs.keys.filterMap fun i =>
    ((allowedMapOf nodes).get? i).map fun producer => ⟨producer, consumer, ()⟩

/-- The uses of the inputs that have no recorded producer. -/
def neededUses (nodes : List (ComponentNode R)) : List (Handle × ℕ) :=
  nodes.zipIdx.flatMap fun (tx, consumer) => tx.inputs.keys.filterMap fun i =>
    if ((allowedMapOf nodes).get? i).isSome then none else some (i, consumer)

def addUse (m : HashMap Handle (List ℕ)) (use : Handle × ℕ) : HashMap Handle (List ℕ) :=
  match m.get? use.1 with
  | some uses => m.insert use.1 (uses ++ [use.2])
  | none => m.insert use.1 [use.2]

namespace DFComponentGraph

/-- Build the graph; `nodes` is emptied from its end. -/
def build (nodes : List (ComponentNode R)) : Except SchedulerError (DFComponentGraph R ε) :=
  let txs := nodes.reverse
  match (Dag.empty.addNodes txs).addEdges (componentDependences txs) with
  | none => .error .cyclicDependence
  | some g => .ok
    { graph := g
      neededMap := (neededUses txs).foldl addUse HashMap.empty
      allowedMap := allowedMapOf txs
      results := [] }

/-- Change the weight of a node that must exist. -/
def updateNode (g : DFComponentGraph R ε) (n : ℕ) (f : ComponentNode R → ComponentNode R) :
    Except SchedulerError (DFComponentGraph R ε) :=
  if n < g.graph.nodeCount then .ok { g with graph := g.graph.modifyNode n f }
  else .error .dataflowGraphError

def addInput (g : DFComponentGraph R ε) (handle : Handle) (input : DFGTxInput R) :
    Except SchedulerError (DFComponentGraph R ε) :=
  match g.neededMap.get? handle with
  | some nodes => nodes.foldlM (fun g n => g.updateNode n (·.addInput handle input)) g
  | none => .ok g

/-- Set a node as uncomputable and recursively its dependents; `edges` is the
shape of the graph and `fuel` bounds the length of a path. -/
def setUncomputable (edges : Dag Unit Unit) :
    ℕ → DFComponentGraph R ε → ℕ → Except SchedulerError (DFComponentGraph R ε)
  | 0, g, _ => .ok g
  | fuel + 1, g, txNodeIndex =>
    match g.updateNode txNodeIndex ({ · with isUncomputable := true }) with
    | .error e => .error e
    | .ok g => (edges.outgoing txNodeIndex).foldlM
        (fun g e => setUncomputable edges fuel g e.target) g

/-- Pass a ciphertext on to one dependent. -/
def forwardOutput (handle : Handle) (r : TaskResult R) (g : DFComponentGraph R ε)
    (e : Edge Unit) : Except SchedulerError (DFComponentGraph R ε) :=
  g.updateNode e.target fun dependent =>
    { dependent with
      inputs := dependent.inputs.modify handle (fun _ => some (.value r.ct r.isAllowed)) }

/-- Add a result to the graph's outputs. -/
def saveResult (g : DFComponentGraph R ε) (producer : ℕ) (handle : Handle)
    (result : OpOutcome R ε) : Except SchedulerError (DFComponentGraph R ε) :=
  match g.graph.nodes[producer]? with
  | none => .error .dataflowGraphError
  | some producerTx =>
    match result with
    | .ok r =>
      match r.compressedCt with
      | none => .error .schedulerError
      | some cct => .ok { g with
          results := g.results ++ [⟨handle, producerTx.transactionId, .ok cct⟩] }
    | .error e => .ok { g with
        results := g.results ++ [⟨handle, producerTx.transactionId, .error e⟩] }

def addOutput (edges : Dag Unit Unit) (g : DFComponentGraph R ε) (handle : Handle)
    (result : OpOutcome R ε) : Except SchedulerError (DFComponentGraph R ε) :=
  match g.allowedMap.get? handle with
  | none => .ok g
  | some producer =>
    match result with
    | .ok r =>
      match (edges.outgoing producer).foldlM (forwardOutput handle r) g with
      | .error e => .error e
      | .ok g => if r.isAllowed then g.saveResult producer handle result else .ok g
    | .error _ =>
      -- the transaction and all its dependents are skipped by the scheduler
      match setUncomputable edges (edges.nodeCount + 1) g producer with
      | .error e => .error e
      | .ok g => g.saveResult producer handle result

def getResults (g : DFComponentGraph R ε) : List (DFGTxResult ε) × DFComponentGraph R ε :=
  (g.results, { g with results := [] })

/-- The handles of all components that are not marked, with their transactions. -/
def getHandles (g : DFComponentGraph R ε) : List (Handle × Handle) :=
  (g.graph.nodes.filter (fun tx => !tx.isUncomputable)).flatMap
    (fun tx => tx.results.map (·, tx.transactionId))

end DFComponentGraph

/-! ## Recorded producers and edges -/

theorem allowedMapOf_eq_some {nodes : List (ComponentNode R)} {h : Handle} {p : ℕ} :
    (allowedMapOf nodes).get? h = some p ↔
      (∃ n, nodes[p]? = some n ∧ h ∈ n.results) ∧
        ∀ q n, p < q → nodes[q]? = some n → h ∉ n.results :=
  HashMap.get?_lastIndex_eq_some

theorem allowedMapOf_isSome {nodes : List (ComponentNode R)} {h : Handle} :
    ((allowedMapOf nodes).get? h).isSome ↔ ∃ n ∈ nodes, h ∈ n.results :=
  HashMap.get?_lastIndex_isSome

theorem allowedMapOf_lt {nodes : List (ComponentNode R)} {h : Handle} {p : ℕ}
    (hp : (allowedMapOf nodes).get? h = some p) : p < nodes.length := by
  obtain ⟨⟨n, hn, -⟩, -⟩ := allowedMapOf_eq_some.mp hp
  exact (List.getElem?_eq_some_iff.mp hn).1

/-- Component `c` needs a handle for which `p` is the recorded producer. -/
def Needs (nodes : List (ComponentNode R)) (p c : ℕ) : Prop :=
  ∃ n, nodes[c]? = some n ∧ ∃ h ∈ n.inputs.keys, (allowedMapOf nodes).get? h = some p

theorem mem_componentDependences {nodes : List (ComponentNode R)} {p c : ℕ} :
    (⟨p, c, ()⟩ : Edge Unit) ∈ componentDependences nodes ↔ Needs nodes p c := by
  simp only [componentDependences, List.mem_flatMap, List.mem_filterMap, Prod.exists,
    List.mem_zipIdx_iff_getElem?, Option.map_eq_some_iff, Needs]
  constructor
  · rintro ⟨tx, consumer, hc, i, hi, producer, hp, heq⟩
    cases heq
    exact ⟨tx, hc, i, hi, hp⟩
  · rintro ⟨tx, hc, i, hi, hp⟩
    exact ⟨tx, c, hc, i, hi, p, hp, rfl⟩

theorem adj_componentDependences {nodes : List (ComponentNode R)} {p c : ℕ} :
    Adj ((componentDependences nodes).map Edge.arc) p c ↔ Needs nodes p c := by
  rw [← mem_componentDependences]
  simp only [Adj, List.mem_map, Edge.arc, Prod.mk.injEq]
  constructor
  · rintro ⟨⟨p', c', ⟨⟩⟩, he, rfl, rfl⟩
    exact he
  · intro he
    exact ⟨_, he, rfl, rfl⟩

theorem componentDependences_lt {nodes : List (ComponentNode R)} {e : Edge Unit}
    (he : e ∈ componentDependences nodes) :
    e.source < nodes.length ∧ e.target < nodes.length := by
  obtain ⟨p, c, ⟨⟩⟩ := e
  obtain ⟨n, hn, h, -, hp⟩ := mem_componentDependences.mp he
  exact ⟨allowedMapOf_lt hp, (List.getElem?_eq_some_iff.mp hn).1⟩

/-- `build` fails on a cycle of needs only. -/
theorem DFComponentGraph.build_isOk_iff {nodes : List (ComponentNode R)} :
    (∃ g : DFComponentGraph R ε, DFComponentGraph.build nodes = .ok g) ↔
      Acyclic (Needs nodes.reverse) := by
  have hiff := Dag.addEdges_isSome_iff (Dag.empty.addNodes nodes.reverse)
    (componentDependences nodes.reverse)
    (fun e he => by simpa [Dag.nodeCount] using componentDependences_lt he)
  have harcs : (Dag.empty.addNodes nodes.reverse : Dag (ComponentNode R) Unit).arcs = [] := by
    simp [Dag.arcs]
  have hneeds : Adj ((componentDependences nodes.reverse).map Edge.arc) = Needs nodes.reverse := by
    funext p c
    exact propext adj_componentDependences
  rw [harcs, List.nil_append, hneeds] at hiff
  rw [← hiff]
  unfold DFComponentGraph.build
  simp only
  split
  · rename_i hnone
    simp [hnone]
  · rename_i g hg
    simp [hg]

theorem DFComponentGraph.build_eq_error {nodes : List (ComponentNode R)} {e : SchedulerError}
    (h : (DFComponentGraph.build nodes : Except _ (DFComponentGraph R ε)) = .error e) :
    e = .cyclicDependence := by
  unfold DFComponentGraph.build at h
  simp only at h
  split at h <;> cases h
  rfl

/-! ## What `build` and `addInput` return -/

/-- A graph that is ready to be scheduled: its edges are the needs of its
components, and an input with a recorded producer has no value yet. -/
structure DFComponentGraph.Ready (g : DFComponentGraph R ε) : Prop where
  allowedMap_eq : g.allowedMap = allowedMapOf g.graph.nodes
  adj_iff : ∀ p c, Adj g.graph.arcs p c ↔ Needs g.graph.nodes p c
  built : ∀ n ∈ g.graph.nodes, ∃ operations : List (DFGOp R),
    n.graph.graph.nodes = operations.map DFGOp.toNode ∧
    n.graph.graph.edges = dependencePairs operations ∧
    n.results = operations.map DFGOp.outputHandle ∧
    ∀ h, h ∈ n.inputs.keys ↔ h ∈ exposedInputs operations
  pending : ∀ n ∈ g.graph.nodes, ∀ h p i, g.allowedMap.get? h = some p →
    n.inputs.get? h = some i → i = none
  needed : ∀ h uses, g.neededMap.get? h = some uses →
    g.allowedMap.get? h = none ∧ ∀ c ∈ uses, c < g.graph.nodeCount
  fresh : ∀ n ∈ g.graph.nodes, n.isUncomputable = false
  noResults : g.results = []

theorem mem_neededUses {nodes : List (ComponentNode R)} {h : Handle} {c : ℕ}
    (hmem : (h, c) ∈ neededUses nodes) : (allowedMapOf nodes).get? h = none ∧ c < nodes.length := by
  simp only [neededUses, List.mem_flatMap, List.mem_filterMap, Prod.exists,
    List.mem_zipIdx_iff_getElem?] at hmem
  obtain ⟨tx, consumer, hc, i, -, hif⟩ := hmem
  split at hif
  · cases hif
  · rename_i hnone
    cases hif
    exact ⟨by simpa using hnone, (List.getElem?_eq_some_iff.mp hc).1⟩

/-- Every use in the map was added to it, and no entry is empty. -/
theorem get?_foldl_addUse {uses : List (Handle × ℕ)} {m : HashMap Handle (List ℕ)}
    {P : Handle → ℕ → Prop} (hm : ∀ h us, m.get? h = some us → us ≠ [] ∧ ∀ c ∈ us, P h c)
    (hP : ∀ u ∈ uses, P u.1 u.2) :
    ∀ h us, (uses.foldl addUse m).get? h = some us → us ≠ [] ∧ ∀ c ∈ us, P h c := by
  induction uses generalizing m with
  | nil => exact hm
  | cons u uses ih =>
    refine ih (fun h us hus => ?_) (fun u' hu' => hP u' (List.mem_cons_of_mem _ hu'))
    have hu := hP u List.mem_cons_self
    unfold addUse at hus
    split at hus
    · rename_i old hold
      rw [HashMap.get?_insert] at hus
      split at hus
      · rename_i hh
        cases hus
        refine ⟨by simp, fun c hc => ?_⟩
        rcases List.mem_append.mp hc with hc | hc
        · exact hh ▸ (hm _ _ hold).2 c hc
        · rw [List.mem_singleton.mp hc, hh]
          exact hu
      · exact hm h us hus
    · rw [HashMap.get?_insert] at hus
      split at hus
      · rename_i hh
        cases hus
        refine ⟨by simp, fun c hc => ?_⟩
        rw [List.mem_singleton.mp hc, hh]
        exact hu
      · exact hm h us hus

theorem DFComponentGraph.build_ready {nodes : List (ComponentNode R)} {g : DFComponentGraph R ε}
    (hnodes : ∀ n ∈ nodes, ∃ operations, n.BuiltFrom operations)
    (h : DFComponentGraph.build nodes = .ok g) : g.Ready := by
  unfold DFComponentGraph.build at h
  simp only at h
  split at h
  · cases h
  · rename_i d hd
    cases h
    obtain ⟨hn, he⟩ := Dag.addEdges_eq_some hd
    rw [Dag.nodes_addNodes, Dag.nodes_empty, List.nil_append] at hn
    rw [Dag.edges_addNodes, Dag.edges_empty, List.nil_append] at he
    refine
      { allowedMap_eq := by simp [hn]
        adj_iff := fun p c => by simp only [Dag.arcs, he, hn, adj_componentDependences]
        built := fun n hmem => ?_
        pending := fun n hmem h p i _ hi => ?_
        needed := ?needed
        fresh := fun n hmem => ?_
        noResults := rfl }
    case needed =>
      intro h uses huses
      obtain ⟨hne, hall⟩ := get?_foldl_addUse
        (P := fun h c => (allowedMapOf nodes.reverse).get? h = none ∧ c < nodes.reverse.length)
        (by simp) (fun u hu => mem_neededUses hu) h uses huses
      obtain ⟨c, hc⟩ := List.exists_mem_of_ne_nil uses hne
      exact ⟨(hall c hc).1, fun c hc => by simpa [Dag.nodeCount, hn] using (hall c hc).2⟩
    all_goals
      simp only [hn, List.mem_reverse] at hmem
      obtain ⟨operations, hops⟩ := hnodes n hmem
    · exact ⟨operations, hops.nodes, hops.edges, hops.results, hops.keys⟩
    · exact hops.pending h i hi
    · exact hops.fresh

/-- The parts of the components that the edges depend on. -/
def needsShape (nodes : List (ComponentNode R)) : List (List Handle × List Handle) :=
  nodes.map (fun n => (n.results, n.inputs.keys))

theorem allowedMapOf_congr {nodes nodes' : List (ComponentNode R)}
    (h : needsShape nodes = needsShape nodes') : allowedMapOf nodes = allowedMapOf nodes' := by
  have hlast : ∀ l : List (ComponentNode R),
      HashMap.lastIndex Prod.fst (needsShape l) = allowedMapOf l :=
    fun l => HashMap.lastIndex_map _ _ _
  rw [← hlast, ← hlast, h]

theorem needs_congr {nodes nodes' : List (ComponentNode R)}
    (h : needsShape nodes = needsShape nodes') {p c : ℕ} : Needs nodes p c ↔ Needs nodes' p c := by
  have hkeys : ∀ {l : List (ComponentNode R)}, Needs l p c ↔
      ∃ e, (needsShape l)[c]? = some e ∧ ∃ k ∈ e.2, (allowedMapOf l).get? k = some p := by
    intro l
    simp [Needs, needsShape]
  rw [hkeys, hkeys, h, allowedMapOf_congr h]

theorem needsShape_modify (nodes : List (ComponentNode R)) (n : ℕ)
    (f : ComponentNode R → ComponentNode R)
    (hf : ∀ x, (f x).results = x.results ∧ (f x).inputs.keys = x.inputs.keys) :
    needsShape (nodes.modify n f) = needsShape nodes := by
  refine List.ext_getElem? fun i => ?_
  simp only [needsShape, List.getElem?_map, List.getElem?_modify]
  cases nodes[i]? with
  | none => rfl
  | some x => by_cases hi : n = i <;> simp [hi, hf]

namespace DFComponentGraph

theorem Ready.updateNode_addInput {g g' : DFComponentGraph R ε} (hg : g.Ready) {n : ℕ}
    {handle : Handle} {input : DFGTxInput R} (hnone : g.allowedMap.get? handle = none)
    (h : g.updateNode n (·.addInput handle input) = .ok g') :
    g'.Ready ∧ g'.allowedMap = g.allowedMap := by
  unfold updateNode at h
  split at h
  · cases h
    have hshape := needsShape_modify g.graph.nodes n (·.addInput handle input)
      (fun x => ⟨rfl, HashMap.keys_modify _ _ _⟩)
    have hmem : ∀ x ∈ g.graph.nodes.modify n (·.addInput handle input), ∃ y ∈ g.graph.nodes,
        x = y ∨ x = y.addInput handle input := by
      intro x hx
      obtain ⟨i, hi⟩ := List.mem_iff_getElem?.mp hx
      rw [List.getElem?_modify] at hi
      cases hy : g.graph.nodes[i]? with
      | none => simp [hy] at hi
      | some y =>
        simp only [hy, Option.map_eq_map, Option.map_some, Option.some.injEq] at hi
        refine ⟨y, List.mem_of_getElem? hy, ?_⟩
        by_cases hni : n = i <;> simp [hni] at hi <;> simp [hi]
    refine ⟨?_, rfl⟩
    refine
      { allowedMap_eq := hg.allowedMap_eq.trans (allowedMapOf_congr hshape.symm)
        adj_iff := fun p c => (hg.adj_iff p c).trans (needs_congr hshape.symm)
        built := fun x hx => ?_
        pending := fun x hx k p i hp hi => ?_
        needed := fun k uses hk => by simpa [Dag.nodeCount] using hg.needed k uses hk
        fresh := fun x hx => ?_
        noResults := hg.noResults }
    all_goals obtain ⟨y, hy, rfl | rfl⟩ := hmem x hx
    · exact hg.built _ hy
    · obtain ⟨operations, hn, he, hr, hk⟩ := hg.built _ hy
      exact ⟨operations, hn, he, hr, fun k => by
        rw [← hk]
        simp [ComponentNode.addInput]⟩
    · exact hg.pending _ hy k p i hp hi
    · have hne : k ≠ handle := by
        rintro rfl
        simp [hnone] at hp
      rw [ComponentNode.addInput, HashMap.get?_modify, if_neg hne] at hi
      exact hg.pending _ hy k p i hp hi
    · exact hg.fresh _ hy
    · exact hg.fresh y hy
  · cases h

theorem Ready.addInput {g g' : DFComponentGraph R ε} (hg : g.Ready) {handle : Handle}
    {input : DFGTxInput R} (h : g.addInput handle input = .ok g') : g'.Ready := by
  unfold DFComponentGraph.addInput at h
  split at h
  · rename_i nodes hnodes
    have hnone := (hg.needed handle nodes hnodes).1
    clear hnodes
    induction nodes generalizing g with
    | nil =>
      cases h
      exact hg
    | cons n nodes ih =>
      rw [List.foldlM_cons] at h
      cases hu : g.updateNode n (·.addInput handle input) with
      | error e =>
        rw [hu] at h
        cases h
      | ok g₁ =>
        rw [hu] at h
        obtain ⟨hg₁, ha⟩ := hg.updateNode_addInput hnone hu
        exact ih hg₁ h (ha ▸ hnone)
  · cases h
    exact hg

end DFComponentGraph

/-- The component graphs of the worker: built from components, then filled with
ciphertexts of the database. -/
inductive DFComponentGraph.Loaded : DFComponentGraph R ε → Prop
  | build {nodes : List (ComponentNode R)} {g : DFComponentGraph R ε}
      (hnodes : ∀ n ∈ nodes, ∃ operations tid cid,
        ComponentNode.build operations tid cid = .ok n)
      (h : DFComponentGraph.build nodes = .ok g) : Loaded g
  | addInput {g g' : DFComponentGraph R ε} {handle : Handle} {input : DFGTxInput R}
      (hg : Loaded g) (h : g.addInput handle input = .ok g') : Loaded g'

theorem DFComponentGraph.Loaded.ready {g : DFComponentGraph R ε} (h : g.Loaded) : g.Ready := by
  induction h with
  | build hnodes h =>
    refine DFComponentGraph.build_ready (fun n hn => ?_) h
    obtain ⟨operations, tid, cid, hb⟩ := hnodes n hn
    exact ⟨operations, (ComponentNode.build_eq_ok hb).1⟩
  | addInput _ h ih => exact ih.addInput h

end Fhevm.Scheduler
