import Fhevm.Foundation.Contract
import Fhevm.Scheduler.ComponentGraph
import Fhevm.Scheduler.Finalize
import Fhevm.Scheduler.Partition
import Mathlib.Data.List.Sort

/-!
# Splitting a transaction into components

The operations of a transaction are sorted by output handle, pruned, and split
along the chains of their dataflow graph into components that are executed
sequentially. The components of all transactions make the component graph.

## Main definitions

* `buildComponentNodes` — the components of one transaction.
* `buildBatch`, `buildBatchGraph` — the components of several transactions, and their graph.
* `Split` — what the components are in terms of the operations.
-/

namespace Fhevm.Scheduler

open Foundation

variable {R ε : Type}

/-! ## The source -/

/-- Sort by output handle, keeping the order of equal handles. -/
def sortByHandle (operations : List (DFGOp R)) : List (DFGOp R) :=
  operations.insertionSort (fun a b => a.outputHandle ≤ b.outputHandle)

/-- The dataflow graph of a transaction; a node is a flag, whether it is allowed,
and the index of its operation. -/
def operationGraph (operations : List (DFGOp R)) : Option (Dag (Bool × ℕ) ℕ) :=
  (Dag.empty.addNodes (operations.mapIdx (fun index op => (op.isAllowed, index)))).addEdges
    (dependencePairs operations)

/-- Take the operations of some nodes out of the list, leaving defaults behind. -/
def takeOperations (g : Dag (Bool × ℕ) ℕ) (operations : List (DFGOp R)) :
    List ℕ → Except SchedulerError (List (DFGOp R) × List (DFGOp R))
  | [] => .ok (operations, [])
  | i :: is =>
    match g.nodes[i]? with
    | none => .error .dataflowGraphError
    | some opNode =>
      match takeOperations g (operations.set opNode.2 default) is with
      | .error e => .error e
      | .ok (rest, componentOps) => .ok (rest, operations.getD opNode.2 default :: componentOps)

/-- Build the component of one node of the execution graph. -/
def buildComponent (g : Dag (Bool × ℕ) ℕ) (transactionId : Handle)
    (s : List (DFGOp R) × List (ComponentNode R)) (node : ExecNode × ℕ) :
    Except SchedulerError (List (DFGOp R) × List (ComponentNode R)) :=
  match takeOperations g s.1 node.1.dfNodes with
  | .error e => .error e
  | .ok (rest, componentOps) =>
    match ComponentNode.build componentOps transactionId node.2 with
    | .error e => .error e
    | .ok component => .ok (rest, s.2 ++ [component])

/-- The components of a transaction, and the handles that were pruned. -/
def buildComponentNodes (T : Toposort) (operations : List (DFGOp R)) (transactionId : Handle) :
    Except SchedulerError (List (ComponentNode R) × List (Handle × Handle)) :=
  let operations := sortByHandle operations
  match operationGraph operations with
  | none => .error .cyclicDependence
  | some graph =>
    let (unneeded, graph) := finalize graph
    let unneeded := unneeded.map
      (fun i => ((operations.getD i default).outputHandle, transactionId))
    match partitionPreservingParallelism T graph with
    | .error e => .error e
    | .ok executionGraph =>
      match executionGraph.nodes.zipIdx.foldlM (buildComponent graph transactionId)
          (operations, []) with
      | .error e => .error e
      | .ok (_, components) => .ok (components, unneeded)

/-- Add the components of one more transaction. -/
def addTransaction (T : Toposort) (s : List (ComponentNode R) × List (Handle × Handle))
    (tx : Handle × List (DFGOp R)) :
    Except SchedulerError (List (ComponentNode R) × List (Handle × Handle)) :=
  match buildComponentNodes T tx.2 tx.1 with
  | .error e => .error e
  | .ok (components, unneeded) => .ok (s.1 ++ components, s.2 ++ unneeded)

/-- The components of several transactions, one after the other. -/
def buildBatch (T : Toposort) (batch : List (Handle × List (DFGOp R))) :
    Except SchedulerError (List (ComponentNode R) × List (Handle × Handle)) :=
  batch.foldlM (addTransaction T) ([], [])

/-- The component graph of several transactions. -/
def buildBatchGraph (T : Toposort) (batch : List (Handle × List (DFGOp R))) :
    Except SchedulerError (DFComponentGraph R ε) :=
  match buildBatch T batch with
  | .error e => .error e
  | .ok (components, _) => DFComponentGraph.build components

/-! ## Components in terms of operations -/

/-- The dependences between needed operations. -/
def neededArcs (g : Dag (Bool × ℕ) ℕ) : List Arc :=
  g.arcs.filter (fun a => a.1 ∉ unneeded g ∧ a.2 ∉ unneeded g)

/-- The needed operations, split into chains that are listed in executable order. -/
structure Split (g : Dag (Bool × ℕ) ℕ) (bs : List (List ℕ)) : Prop where
  perm : bs.flatten.Perm ((List.range g.nodeCount).filter (· ∉ unneeded g))
  ordered : bs.flatten.Pairwise (fun u v => ¬ Adj (neededArcs g) v u)
  chain : ∀ b ∈ bs, b.IsChain (Chained (neededArcs g))
  linked : ∀ b ∈ bs, ∀ u v, Chained (neededArcs g) u v → u ∈ b → v ∈ b

theorem operationGraph_eq_some {operations : List (DFGOp R)} {g : Dag (Bool × ℕ) ℕ}
    (h : operationGraph operations = some g) :
    g.nodes = operations.mapIdx (fun index op => (op.isAllowed, index)) ∧
      g.edges = dependencePairs operations := by
  obtain ⟨hn, he⟩ := Dag.addEdges_eq_some h
  simp only [Dag.nodes_addNodes, Dag.nodes_empty, List.nil_append] at hn
  simp only [Dag.edges_addNodes, Dag.edges_empty, List.nil_append] at he
  exact ⟨hn, he⟩

/-- The graph of a transaction exists when its operations have no cycle. -/
theorem operationGraph_isSome_iff {operations : List (DFGOp R)} :
    (operationGraph operations).isSome ↔
      Acyclic (Adj ((dependencePairs operations).map Edge.arc)) := by
  have hiff := Dag.addEdges_isSome_iff
    (Dag.empty.addNodes (operations.mapIdx (fun index op => (op.isAllowed, index))))
    (dependencePairs operations)
    (fun e he => by simpa [Dag.nodeCount] using dependencePairs_lt he)
  have harcs : (Dag.empty.addNodes (operations.mapIdx
      (fun index op => (op.isAllowed, index))) : Dag (Bool × ℕ) ℕ).arcs = [] := by
    simp [Dag.arcs]
  rw [harcs, List.nil_append] at hiff
  exact hiff

namespace Split

variable {g : Dag (Bool × ℕ) ℕ} {bs : List (List ℕ)}

theorem nodup (h : Split g bs) : bs.flatten.Nodup :=
  h.perm.nodup_iff.mpr (List.nodup_range.filter _)

theorem lt (h : Split g bs) {b : List ℕ} (hb : b ∈ bs) {u : ℕ} (hu : u ∈ b) :
    u < g.nodeCount := by
  have := (h.perm.mem_iff.mp (List.mem_flatten_of_mem hb hu))
  exact List.mem_range.mp (List.mem_filter.mp this).1

/-- The dependences inside a block are its chain. -/
theorem chained_of_adj (h : Split g bs) {b : List ℕ} (hb : b ∈ bs) {u v : ℕ} (hu : u ∈ b)
    (hv : v ∈ b) (huv : Adj (neededArcs g) u v) : Chained (neededArcs g) u v :=
  chained_of_isChain (fun w hw => g.acyclic w (.single (List.mem_of_mem_filter hw)))
    (h.chain b hb) ((List.pairwise_flatten.mp h.ordered).1 b hb) hu hv huv

end Split

/-- The partition of the pruned graph, in terms of operations. -/
theorem split_of_partition (T : Toposort) {g g' : Dag (Bool × ℕ) ℕ}
    (hg : Pruned g g' (unneeded g)) :
    ∃ X, partitionPreservingParallelism T g' = .ok X ∧
      (∀ u ∈ (blocks X).flatten, ∃ n, g'.nodes[u]? = some n) ∧
      Split g ((blocks X).map (List.map (fun u => (g'.nodes[u]?.getD default).2))) := by
  obtain ⟨X, hX, hpart, hchain, hlinked⟩ := partitionPreservingParallelism_spec T g'
  let label : ℕ → ℕ := fun u => (g'.nodes[u]?.getD default).2
  have hlabel : ∀ {u}, u < g'.nodeCount → g'.nodes[u]?.map Prod.snd = some (label u) := by
    intro u hu
    have hu' : u < g'.nodes.length := hu
    simp [label, hu']
  have hlabels : g'.nodes.map Prod.snd = (List.range g'.nodeCount).map label := by
    refine List.ext_getElem? fun u => ?_
    rw [List.getElem?_map, List.getElem?_map]
    by_cases hu : u < g'.nodeCount
    · rw [hlabel hu, List.getElem?_range hu]
      rfl
    · have hu' : g'.nodes.length ≤ u := Nat.le_of_not_lt hu
      simp [hu', Dag.nodeCount]
  have hinj : ∀ {u v}, u < g'.nodeCount → v < g'.nodeCount → label u = label v → u = v := by
    intro u v hu hv huv
    have hnd : ((List.range g'.nodeCount).map label).Nodup :=
      hlabels ▸ hg.nodes.nodup_iff.mpr (List.nodup_range.filter _)
    exact List.inj_on_of_nodup_map hnd (List.mem_range.mpr hu) (List.mem_range.mpr hv) huv
  have harcs : g'.arcs.map (fun a => (label a.1, label a.2)) = neededArcs g := by
    have hsome : Function.Injective (fun a : Arc => (some a.1, some a.2)) := by
      rintro ⟨a, b⟩ ⟨c, d⟩ h
      simpa using h
    refine hsome.list_map ?_
    have harcs := hg.arcs
    rw [neededArcs, ← harcs, Dag.labelArcs, List.map_map, Dag.arcs, List.map_map]
    refine List.map_congr_left fun e he => ?_
    obtain ⟨hs, ht⟩ := g'.bounded e he
    simp only [Function.comp_apply, Edge.arc, hlabel hs, hlabel ht]
  have hfst : ∀ {u}, u < g'.nodeCount → ∀ a ∈ g'.arcs, label a.1 = label u → a.1 = u :=
    fun hu a ha h => hinj (g'.arcs_bounded a ha).1 hu h
  have hsnd : ∀ {u}, u < g'.nodeCount → ∀ a ∈ g'.arcs, label a.2 = label u → a.2 = u :=
    fun hu a ha h => hinj (g'.arcs_bounded a ha).2 hu h
  have hblock : ∀ b ∈ blocks X, ∃ i, b = block X i := by
    intro b hb
    obtain ⟨i, hi⟩ := List.mem_iff_getElem?.mp hb
    exact ⟨i, by simp [block, hi]⟩
  have hlt : ∀ {b u}, b ∈ blocks X → u ∈ b → u < g'.nodeCount := fun hb hu =>
    hpart.topological.mem_iff.mp (List.mem_flatten_of_mem hb hu)
  refine ⟨X, hX, fun u hu => ?_, ?_⟩
  · exact ⟨_, List.getElem?_eq_getElem (hpart.topological.mem_iff.mp hu)⟩
  refine
    { perm := ?_
      ordered := ?_
      chain := fun b' hb' => ?_
      linked := fun b' hb' u v huv hu => ?_ }
  · rw [← List.map_flatten]
    exact (hpart.topological.perm.map label).trans (hlabels ▸ hg.nodes)
  · rw [← List.map_flatten, List.pairwise_map, ← harcs]
    refine hpart.topological.ordered.imp_of_mem fun {u v} hu hv huv hadj => huv ?_
    have hu := hpart.topological.mem_iff.mp hu
    have hv := hpart.topological.mem_iff.mp hv
    exact (adj_map (hfst hv) (hsnd hu)).mp hadj
  · obtain ⟨b, hb, rfl⟩ := List.mem_map.mp hb'
    obtain ⟨i, rfl⟩ := hblock b hb
    rw [List.isChain_map, ← harcs]
    refine List.IsChain.imp_of_mem_imp (fun u v hu hv huv => ?_) (hchain i)
    exact (chained_map (hfst (hlt hb hu)) (hsnd (hlt hb hv))).mpr huv
  · obtain ⟨b, hb, rfl⟩ := List.mem_map.mp hb'
    obtain ⟨i, rfl⟩ := hblock b hb
    obtain ⟨u₀, hu₀, rfl⟩ := List.mem_map.mp hu
    rw [← harcs] at huv
    obtain ⟨a, ha, -, hav⟩ : ∃ a ∈ g'.arcs, label a.1 = label u₀ ∧ label a.2 = v := by
      simpa [Adj] using huv.2.2
    subst hav
    have hb₁ := (g'.arcs_bounded a ha).2
    have hchained := (chained_map (hfst (hlt hb hu₀)) (hsnd hb₁)).mp huv
    exact List.mem_map_of_mem (hlinked i u₀ a.2 hchained hu₀)

/-! ## What `buildComponentNodes` returns -/

/-- The operation with a given index. -/
def operationAt (operations : List (DFGOp R)) (i : ℕ) : DFGOp R := operations.getD i default

/-- The operation a node of a pruned graph stands for. -/
def nodeLabel (g : Dag (Bool × ℕ) ℕ) (u : ℕ) : ℕ := (g.nodes[u]?.getD default).2

/-- The components are built from the operations of the blocks, in their order. -/
def ComponentsOf (operations : List (DFGOp R)) (transactionId : Handle)
    (bs : List (List ℕ × ℕ)) (components : List (ComponentNode R)) : Prop :=
  List.Forall₂ (fun b c => c.BuiltFrom (b.1.map (operationAt operations)) ∧
    c.transactionId = transactionId ∧ c.componentId = b.2) bs components

/-- Operations that were not taken before are taken unchanged. -/
theorem takeOperations_eq {g : Dag (Bool × ℕ) ℕ} {ops : List (DFGOp R)} (is : List ℕ)
    (operations : List (DFGOp R)) (hnodes : ∀ i ∈ is, ∃ n, g.nodes[i]? = some n)
    (hnd : (is.map (nodeLabel g)).Nodup)
    (hsame : ∀ i ∈ is, operations[nodeLabel g i]? = ops[nodeLabel g i]?) :
    ∃ rest, takeOperations g operations is =
        .ok (rest, (is.map (nodeLabel g)).map (operationAt ops)) ∧
      ∀ j, j ∉ is.map (nodeLabel g) → rest[j]? = operations[j]? := by
  induction is generalizing operations with
  | nil => exact ⟨operations, rfl, fun _ _ => rfl⟩
  | cons i is ih =>
    obtain ⟨n, hn⟩ := hnodes i List.mem_cons_self
    rw [List.map_cons] at hnd
    obtain ⟨hi, hnd⟩ := List.nodup_cons.mp hnd
    have hlabel : nodeLabel g i = n.2 := by simp [nodeLabel, hn]
    obtain ⟨rest, hrest, hkeep⟩ := ih (operations.set n.2 default)
      (fun j hj => hnodes j (List.mem_cons_of_mem _ hj)) hnd (fun j hj => by
        have hne : n.2 ≠ nodeLabel g j := fun h => hi (by
          rw [hlabel, h]
          exact List.mem_map_of_mem hj)
        rw [List.getElem?_set_ne hne]
        exact hsame j (List.mem_cons_of_mem _ hj))
    have hop : operations.getD n.2 default = operationAt ops (nodeLabel g i) := by
      have := hsame i List.mem_cons_self
      rw [hlabel] at this ⊢
      rw [operationAt, List.getD_eq_getElem?_getD, List.getD_eq_getElem?_getD, this]
    refine ⟨rest, ?_, fun j hj => ?_⟩
    · simp only [takeOperations, hn, hrest, hop, List.map_cons]
    · rw [List.map_cons, List.mem_cons, not_or] at hj
      rw [hkeep j hj.2, List.getElem?_set_ne (fun h => hj.1 (by rw [hlabel, h]))]

theorem foldlM_buildComponent {g : Dag (Bool × ℕ) ℕ} (ops : List (DFGOp R)) (tid : Handle)
    (xs : List (ExecNode × ℕ)) (operations : List (DFGOp R)) (done : List (ComponentNode R))
    (hnodes : ∀ x ∈ xs, ∀ i ∈ x.1.dfNodes, ∃ n, g.nodes[i]? = some n)
    (hnd : (xs.flatMap (fun x => x.1.dfNodes.map (nodeLabel g))).Nodup)
    (hsame : ∀ x ∈ xs, ∀ i ∈ x.1.dfNodes, operations[nodeLabel g i]? = ops[nodeLabel g i]?)
    (hac : ∀ x ∈ xs, Acyclic (Adj ((dependencePairs
      ((x.1.dfNodes.map (nodeLabel g)).map (operationAt ops))).map Edge.arc))) :
    ∃ rest components, xs.foldlM (buildComponent g tid) (operations, done) =
        .ok (rest, done ++ components) ∧
      ComponentsOf ops tid (xs.map (fun x => (x.1.dfNodes.map (nodeLabel g), x.2))) components := by
  induction xs generalizing operations done with
  | nil => exact ⟨operations, [], by rw [List.append_nil]; rfl, .nil⟩
  | cons x xs ih =>
    rw [List.flatMap_cons, List.nodup_append] at hnd
    obtain ⟨hx, hxs, hdisjoint⟩ := hnd
    obtain ⟨rest, htake, hkeep⟩ := takeOperations_eq x.1.dfNodes operations
      (hnodes x List.mem_cons_self) hx (hsame x List.mem_cons_self)
    obtain ⟨c, hc⟩ := (ComponentNode.build_isOk_iff tid x.2).mpr
      (hac x List.mem_cons_self)
    obtain ⟨rest', components, hrun, hcomps⟩ := ih rest (done ++ [c])
      (fun y hy => hnodes y (List.mem_cons_of_mem _ hy)) hxs
      (fun y hy i hi => by
        rw [hkeep _ fun hmem => ?_]
        · exact hsame y (List.mem_cons_of_mem _ hy) i hi
        · exact hdisjoint _ hmem _ (List.mem_flatMap.mpr ⟨y, hy, List.mem_map_of_mem hi⟩) rfl)
      (fun y hy => hac y (List.mem_cons_of_mem _ hy))
    have hstep : buildComponent g tid (operations, done) x = .ok (rest, done ++ [c]) := by
      simp only [buildComponent, htake, hc]
    refine ⟨rest', c :: components, ?_, .cons (ComponentNode.build_eq_ok hc) hcomps⟩
    rw [List.foldlM_cons, hstep]
    simp only [bind, Except.bind]
    rw [hrun, List.append_assoc]
    rfl

theorem sortByHandle_perm (operations : List (DFGOp R)) :
    (sortByHandle operations).Perm operations := List.perm_insertionSort _ _

/-- When output handles differ, the last operation that produces one is the only one. -/
theorem producedHandles_eq_some {operations : List (DFGOp R)}
    (hnd : (operations.map DFGOp.outputHandle).Nodup) {h : Handle} {i : ℕ} :
    (producedHandles operations).get? h = some i ↔
      ∃ op, operations[i]? = some op ∧ op.outputHandle = h := by
  refine ⟨getElem?_producedHandles, ?_⟩
  rintro ⟨op, hop, rfl⟩
  obtain ⟨j, hj⟩ := Option.isSome_iff_exists.mp (producedHandles_isSome.mpr
    (List.mem_map_of_mem (List.mem_of_getElem? hop) :
      op.outputHandle ∈ operations.map DFGOp.outputHandle))
  obtain ⟨op', hop', hh⟩ := getElem?_producedHandles hj
  have hi : i < (operations.map DFGOp.outputHandle).length := by
    simpa using (List.getElem?_eq_some_iff.mp hop).1
  have hij : i = j := (List.getElem?_inj hi hnd).mp (by
    rw [List.getElem?_map, List.getElem?_map, hop, hop', Option.map_some, Option.map_some, hh])
  rw [hj, hij]

/-- The dependences of a sublist of operations are dependences of the whole. -/
theorem adj_dependencePairs_map {operations : List (DFGOp R)}
    (hnd : (operations.map DFGOp.outputHandle).Nodup) {b : List ℕ}
    (hb : ∀ i ∈ b, i < operations.length) {p c : ℕ}
    (h : Adj ((dependencePairs (b.map (operationAt operations))).map Edge.arc) p c) :
    ∃ u v, b[p]? = some u ∧ b[c]? = some v ∧
      Adj ((dependencePairs operations).map Edge.arc) u v := by
  obtain ⟨e, he, hec⟩ := List.mem_map.mp h
  obtain ⟨op, dh, pos, hop, hi, hp, -⟩ := mem_dependencePairs.mp he
  cases e
  cases hec
  obtain ⟨op', hop', hh⟩ := getElem?_producedHandles hp
  simp only [List.getElem?_map, Option.map_eq_some_iff] at hop hop'
  obtain ⟨v, hv, rfl⟩ := hop
  obtain ⟨u, hu, rfl⟩ := hop'
  have hat : ∀ w ∈ b, operations[w]? = some (operationAt operations w) := fun w hw => by
    simp [operationAt, List.getD_eq_getElem?_getD, List.getElem?_eq_getElem (hb w hw)]
  refine ⟨u, v, hu, hv, List.mem_map.mpr ⟨⟨u, v, pos % 256⟩, ?_, rfl⟩⟩
  refine mem_dependencePairs.mpr ⟨_, dh, pos, hat v (List.mem_of_getElem? hv), hi, ?_, rfl⟩
  exact (producedHandles_eq_some hnd).mpr ⟨_, hat u (List.mem_of_getElem? hu), hh⟩

theorem buildComponentNodes_eq_error {T : Toposort} {operations : List (DFGOp R)} {tid : Handle}
    (hg : operationGraph (sortByHandle operations) = none) :
    buildComponentNodes T operations tid = .error .cyclicDependence := by
  simp only [buildComponentNodes, hg]

/-- The components of a transaction are built from the chains of its needed operations. -/
theorem buildComponentNodes_eq_ok (T : Toposort) {operations : List (DFGOp R)} (tid : Handle)
    (hnd : (operations.map DFGOp.outputHandle).Nodup) {g : Dag (Bool × ℕ) ℕ}
    (hg : operationGraph (sortByHandle operations) = some g) :
    ∃ bs components, Split g bs ∧
      ComponentsOf (sortByHandle operations) tid bs.zipIdx components ∧
      buildComponentNodes T operations tid = .ok (components, (unneeded g).map
        (fun i => ((operationAt (sortByHandle operations) i).outputHandle, tid))) := by
  obtain ⟨hgn, hge⟩ := operationGraph_eq_some hg
  have hnd' : ((sortByHandle operations).map DFGOp.outputHandle).Nodup :=
    ((sortByHandle_perm operations).map _).nodup_iff.mpr hnd
  have hlabels : ∀ (i : ℕ) (n : Bool × ℕ), g.nodes[i]? = some n → n.2 = i := by
    intro i n hn
    rw [hgn, List.getElem?_mapIdx] at hn
    obtain ⟨op, -, rfl⟩ := Option.map_eq_some_iff.mp hn
    rfl
  obtain ⟨hfst, hpruned⟩ := finalize_spec hlabels
  obtain ⟨X, hX, hnodes, hsplit⟩ := split_of_partition T hpruned
  have hcount : g.nodeCount = (sortByHandle operations).length := by simp [Dag.nodeCount, hgn]
  have hzip : X.nodes.zipIdx.map (fun x => (x.1.dfNodes.map (nodeLabel (finalize g).2), x.2)) =
      ((blocks X).map (List.map (nodeLabel (finalize g).2))).zipIdx := by
    rw [blocks, List.map_map, List.zipIdx_map]
    rfl
  have hdf : ∀ x ∈ X.nodes.zipIdx, x.1.dfNodes ∈ blocks X := by
    rintro ⟨x, k⟩ hx
    exact List.mem_map_of_mem (List.mem_of_getElem? (List.mem_zipIdx_iff_getElem?.mp hx))
  have hflat : X.nodes.zipIdx.flatMap (fun x => x.1.dfNodes.map (nodeLabel (finalize g).2)) =
      ((blocks X).map (List.map (nodeLabel (finalize g).2))).flatten := by
    rw [← List.flatMap_def, blocks, List.flatMap_map, ← List.zipIdx_map_fst 0 X.nodes]
    rw [List.flatMap_map, List.zipIdx_map_fst]
  have hac : ∀ x ∈ X.nodes.zipIdx, Acyclic (Adj ((dependencePairs
      ((x.1.dfNodes.map (nodeLabel (finalize g).2)).map
        (operationAt (sortByHandle operations)))).map Edge.arc)) := by
    intro x hx
    have hb : x.1.dfNodes.map (nodeLabel (finalize g).2) ∈
        (blocks X).map (List.map (nodeLabel (finalize g).2)) := List.mem_map_of_mem (hdf x hx)
    refine g.acyclic.of_map
      (fun p => (x.1.dfNodes.map (nodeLabel (finalize g).2)).getD p 0) fun p c hpc => ?_
    obtain ⟨u, v, hu, hv, huv⟩ := adj_dependencePairs_map hnd'
      (fun i hi => hcount ▸ hsplit.lt hb hi) hpc
    rw [← hge] at huv
    simpa [List.getD_eq_getElem?_getD, hu, hv] using huv
  obtain ⟨rest, components, hrun, hcomps⟩ := foldlM_buildComponent (g := (finalize g).2)
    (sortByHandle operations) tid X.nodes.zipIdx (sortByHandle operations) []
    (fun x hx i hi => hnodes i (List.mem_flatten_of_mem (hdf x hx) hi))
    (hflat ▸ hsplit.nodup) (fun _ _ _ _ => rfl) hac
  refine ⟨_, components, hsplit, hzip ▸ hcomps, ?_⟩
  rw [buildComponentNodes]
  simp only [hg, hX, hrun, hfst, List.nil_append]
  rfl

/-! ## The graph of a batch is ready to be scheduled -/

/-- A successful computation whose result passes a check. -/
theorem exists_ok_of_check {α e : Type} {x : Except e α} {P : α → Bool}
    (h : (x.map P).toOption = some true) : ∃ a, x = .ok a ∧ P a = true := by
  cases x with
  | error err => cases h
  | ok a => exact ⟨a, rfl, Option.some.inj h⟩

/-- The components that `ComponentNode.build` returns. -/
def IsBuilt (c : ComponentNode R) : Prop :=
  ∃ operations tid cid, ComponentNode.build operations tid cid = .ok c

theorem buildComponentNodes_built {T : Toposort} {operations : List (DFGOp R)} {tid : Handle}
    {cs : List (ComponentNode R)} {pruned : List (Handle × Handle)}
    (h : buildComponentNodes T operations tid = .ok (cs, pruned)) : ∀ c ∈ cs, IsBuilt c := by
  unfold buildComponentNodes at h
  simp only at h
  split at h
  · cases h
  split at h
  · cases h
  split at h
  · cases h
  rename_i hrun
  cases h
  refine foldlM_invariant (P := fun s => ∀ c ∈ s.2, IsBuilt c) (fun s x s' hs hstep => ?_)
    (by simp) hrun
  unfold buildComponent at hstep
  split at hstep
  · cases hstep
  split at hstep
  · cases hstep
  rename_i hbuild
  cases hstep
  intro c hc
  rcases List.mem_append.mp hc with hc | hc
  · exact hs c hc
  · rw [List.mem_singleton.mp hc]
    exact ⟨_, _, _, hbuild⟩

theorem buildBatch_built {T : Toposort} {batch : List (Handle × List (DFGOp R))}
    {cs : List (ComponentNode R)} {pruned : List (Handle × Handle)}
    (h : buildBatch T batch = .ok (cs, pruned)) : ∀ c ∈ cs, IsBuilt c := by
  refine foldlM_invariant (P := fun s => ∀ c ∈ s.1, IsBuilt c) (fun s tx s' hs hstep => ?_)
    (by simp) h
  unfold addTransaction at hstep
  split at hstep
  · cases hstep
  rename_i hbuild
  cases hstep
  intro c hc
  rcases List.mem_append.mp hc with hc | hc
  · exact hs c hc
  · exact buildComponentNodes_built hbuild c hc

/-- The component graph of a batch is one the scheduler can be given. -/
theorem buildBatchGraph_loaded {T : Toposort} {batch : List (Handle × List (DFGOp R))}
    {g : DFComponentGraph R ε} (h : buildBatchGraph T batch = .ok g) : g.Loaded := by
  unfold buildBatchGraph at h
  split at h
  · cases h
  rename_i hbuild
  exact .build (buildBatch_built hbuild) h

end Fhevm.Scheduler
