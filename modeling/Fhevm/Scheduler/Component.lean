import Fhevm.Foundation.Dag
import Fhevm.Scheduler.Rerandomise

/-!
# Components of a transaction

A component is a dataflow graph of operations. Operands that one of its own
operations produces become edges, the others become inputs of the component.

## Main definitions

* `DFGraph` — operations, and edges that name an operand position of their target.
* `dependencePairs` — the edges of a list of operations.
* `ComponentNode.build` — the component of a list of operations.
-/

namespace Fhevm.Scheduler

open Foundation

variable {R : Type}

/-! ## The source -/

structure OpNode (R : Type) where
  opcode : ℤ
  resultHandle : Handle
  inputs : List (DFGTaskInput R)
  isAllowed : Bool
deriving DecidableEq, Repr

/-- A dataflow graph; the weight of an edge is an operand position of its target. -/
structure DFGraph (R : Type) where
  graph : Dag (OpNode R) ℕ
  inBounds : ∀ e ∈ graph.edges, ∀ n, graph.nodes[e.target]? = some n → e.weight < n.inputs.length

/-- The default graph. -/
def DFGraph.empty : DFGraph R := ⟨Dag.empty, by simp⟩

/-- The node that an operation becomes. -/
def DFGOp.toNode (op : DFGOp R) : OpNode R :=
  ⟨op.fheOp.toInt, op.outputHandle, op.inputs, op.isAllowed⟩

/-- The position of the last operation that produces a handle. -/
def producedHandles (operations : List (DFGOp R)) : HashMap Handle ℕ :=
  HashMap.lastIndex (fun o => [o.outputHandle]) operations

/-- The edges into one operation; positions are stored in a byte. -/
def opDependences (produced : HashMap Handle ℕ) (index : ℕ) (op : DFGOp R) : List (Edge ℕ) :=
  op.inputs.zipIdx.filterMap fun (i, pos) =>
    match i with
    | .dependence dh => (produced.get? dh).map (fun producer => ⟨producer, index, pos % 256⟩)
    | .value _ | .compressed _ _ => none

/-- The edges between the operations of a list. -/
def dependencePairs (operations : List (DFGOp R)) : List (Edge ℕ) :=
  operations.zipIdx.flatMap fun (op, index) =>
    opDependences (producedHandles operations) index op

/-- The operands that no operation of the list produces. -/
def exposedInputs (operations : List (DFGOp R)) : List Handle :=
  operations.flatMap fun op => op.inputs.filterMap fun i =>
    match i with
    | .dependence dh => if ((producedHandles operations).get? dh).isSome then none else some dh
    | .value _ | .compressed _ _ => none

structure ComponentNode (R : Type) where
  graph : DFGraph R
  inputs : TxInputs R
  results : List Handle
  transactionId : Handle
  isUncomputable : Bool
  componentId : ℕ

theorem mem_dependencePairs {operations : List (DFGOp R)} {e : Edge ℕ} :
    e ∈ dependencePairs operations ↔ ∃ op dh pos, operations[e.target]? = some op ∧
      op.inputs[pos]? = some (.dependence dh) ∧
      (producedHandles operations).get? dh = some e.source ∧ e.weight = pos % 256 := by
  simp only [dependencePairs, opDependences, List.mem_flatMap, List.mem_filterMap, Prod.exists,
    List.mem_zipIdx_iff_getElem?]
  constructor
  · rintro ⟨op, index, hop, i, pos, hi, he⟩
    cases i with
    | value | compressed => simp at he
    | dependence dh =>
      obtain ⟨producer, hp, rfl⟩ := Option.map_eq_some_iff.mp he
      exact ⟨op, dh, pos, hop, hi, hp, rfl⟩
  · rintro ⟨op, dh, pos, hop, hi, hp, hw⟩
    obtain ⟨source, target, weight⟩ := e
    exact ⟨op, target, hop, .dependence dh, pos, hi, by simp_all⟩

theorem getElem?_producedHandles {operations : List (DFGOp R)} {h : Handle} {i : ℕ}
    (hi : (producedHandles operations).get? h = some i) :
    ∃ op, operations[i]? = some op ∧ op.outputHandle = h := by
  obtain ⟨⟨op, hop, hh⟩, -⟩ := HashMap.get?_lastIndex_eq_some.mp hi
  exact ⟨op, hop, (List.mem_singleton.mp hh).symm⟩

theorem producedHandles_isSome {operations : List (DFGOp R)} {h : Handle} :
    ((producedHandles operations).get? h).isSome ↔ h ∈ operations.map DFGOp.outputHandle := by
  rw [producedHandles, HashMap.get?_lastIndex_isSome]
  simp [eq_comm]

theorem dependencePairs_lt {operations : List (DFGOp R)} {e : Edge ℕ}
    (he : e ∈ dependencePairs operations) :
    e.source < operations.length ∧ e.target < operations.length := by
  obtain ⟨op, dh, pos, hop, -, hp, -⟩ := mem_dependencePairs.mp he
  obtain ⟨op', hop', -⟩ := getElem?_producedHandles hp
  exact ⟨(List.getElem?_eq_some_iff.mp hop').1, (List.getElem?_eq_some_iff.mp hop).1⟩

theorem dependencePairs_inBounds {operations : List (DFGOp R)} {g : Dag (OpNode R) ℕ}
    (h : (Dag.empty.addNodes (operations.map DFGOp.toNode)).addEdges
      (dependencePairs operations) = some g) :
    ∀ e ∈ g.edges, ∀ n, g.nodes[e.target]? = some n → e.weight < n.inputs.length := by
  obtain ⟨hn, he⟩ := Dag.addEdges_eq_some h
  intro e hmem n hnode
  rw [he, Dag.edges_addNodes, Dag.edges_empty, List.nil_append] at hmem
  rw [hn, Dag.nodes_addNodes, Dag.nodes_empty, List.nil_append, List.getElem?_map] at hnode
  obtain ⟨op, dh, pos, hop, hi, -, hw⟩ := mem_dependencePairs.mp hmem
  rw [hop, Option.map_some, Option.some_inj] at hnode
  have hpos := (List.getElem?_eq_some_iff.mp hi).1
  rw [← hnode, hw]
  exact lt_of_le_of_lt (Nat.mod_le _ _) hpos

/-- Build the component of `operations`; a cycle is refused. -/
def ComponentNode.build (operations : List (DFGOp R)) (transactionId : Handle)
    (componentId : ℕ) : Except SchedulerError (ComponentNode R) :=
  match h : (Dag.empty.addNodes (operations.map DFGOp.toNode)).addEdges
      (dependencePairs operations) with
  | none => .error .cyclicDependence
  | some g => .ok
    { graph := ⟨g, dependencePairs_inBounds h⟩
      inputs := (exposedInputs operations).foldl (fun m dh => m.orInsert dh none) HashMap.empty
      results := operations.map DFGOp.outputHandle
      transactionId := transactionId
      isUncomputable := false
      componentId := componentId }

/-- Fill in an input that the component waits for. -/
def ComponentNode.addInput (n : ComponentNode R) (handle : Handle) (cct : DFGTxInput R) :
    ComponentNode R :=
  { n with inputs := n.inputs.modify handle (fun _ => some cct) }

/-! ## What `build` returns -/

/-- A component as `build` makes it from `operations`. -/
structure ComponentNode.BuiltFrom (n : ComponentNode R) (operations : List (DFGOp R)) : Prop where
  nodes : n.graph.graph.nodes = operations.map DFGOp.toNode
  edges : n.graph.graph.edges = dependencePairs operations
  results : n.results = operations.map DFGOp.outputHandle
  keys : ∀ h, h ∈ n.inputs.keys ↔ h ∈ exposedInputs operations
  pending : ∀ h i, n.inputs.get? h = some i → i = none
  fresh : n.isUncomputable = false

theorem mem_exposedInputs {operations : List (DFGOp R)} {h : Handle} :
    h ∈ exposedInputs operations ↔ (∃ op ∈ operations, .dependence h ∈ op.inputs) ∧
      h ∉ operations.map DFGOp.outputHandle := by
  simp only [exposedInputs, List.mem_flatMap, List.mem_filterMap, ← producedHandles_isSome]
  constructor
  · rintro ⟨op, hop, i, hi, hif⟩
    cases i with
    | value | compressed => simp at hif
    | dependence dh =>
      simp only at hif
      split at hif
      · cases hif
      · rename_i hnone
        cases hif
        exact ⟨⟨op, hop, hi⟩, hnone⟩
  · rintro ⟨⟨op, hop, hi⟩, hnone⟩
    exact ⟨op, hop, .dependence h, hi, by simp [hnone]⟩

/-- The inputs `build` registers: each exposed handle once, without a value. -/
theorem foldl_orInsert_none (hs : List Handle) (m : TxInputs R)
    (hm : ∀ h i, m.get? h = some i → i = none) :
    (∀ h, h ∈ (hs.foldl (fun m dh => m.orInsert dh none) m).keys ↔ h ∈ hs ∨ h ∈ m.keys) ∧
      ∀ h i, (hs.foldl (fun m dh => m.orInsert dh none) m).get? h = some i → i = none := by
  induction hs generalizing m with
  | nil => simpa using hm
  | cons h hs ih =>
    have hm' : ∀ h' i, (m.orInsert h none).get? h' = some i → i = none := by
      intro h' i hi
      rw [HashMap.get?_orInsert] at hi
      split at hi
      · cases hget : m.get? h with
        | none => simp_all
        | some w =>
          rw [hget, Option.getD_some, Option.some_inj] at hi
          rw [← hi]
          exact hm h w hget
      · exact hm h' i hi
    obtain ⟨hkeys, hpend⟩ := ih (m.orInsert h none) hm'
    refine ⟨fun h' => ?_, hpend⟩
    rw [List.foldl_cons, hkeys, HashMap.mem_keys_orInsert, List.mem_cons]
    tauto

theorem ComponentNode.build_eq_ok {operations : List (DFGOp R)} {tid : Handle} {cid : ℕ}
    {n : ComponentNode R} (h : ComponentNode.build operations tid cid = .ok n) :
    n.BuiltFrom operations ∧ n.transactionId = tid ∧ n.componentId = cid := by
  unfold ComponentNode.build at h
  split at h
  · cases h
  · rename_i g hg
    cases h
    obtain ⟨hn, he⟩ := Dag.addEdges_eq_some hg
    obtain ⟨hkeys, hpend⟩ := foldl_orInsert_none (R := R) (exposedInputs operations) HashMap.empty
      (by simp)
    have hbuilt : ∀ h, h ∈ ((exposedInputs operations).foldl
        (fun m dh => m.orInsert dh none) HashMap.empty : TxInputs R).keys ↔
        h ∈ exposedInputs operations := by
      intro h
      rw [hkeys]
      simp [HashMap.keys]
    refine ⟨?_, rfl, rfl⟩
    refine
      { nodes := by simp [hn]
        edges := by simp [he]
        results := rfl
        keys := hbuilt
        pending := hpend
        fresh := rfl }

/-- `build` fails on cyclic operations only. -/
theorem ComponentNode.build_isOk_iff {operations : List (DFGOp R)} (tid : Handle) (cid : ℕ) :
    (∃ n, ComponentNode.build operations tid cid = .ok n) ↔
      Acyclic (Adj ((dependencePairs operations).map Edge.arc)) := by
  have hiff := Dag.addEdges_isSome_iff
    (Dag.empty.addNodes (operations.map DFGOp.toNode)) (dependencePairs operations)
    (fun e he => by simpa [Dag.nodeCount] using dependencePairs_lt he)
  have harcs : (Dag.empty.addNodes (operations.map DFGOp.toNode) : Dag (OpNode R) ℕ).arcs = [] := by
    simp [Dag.arcs]
  rw [harcs, List.nil_append] at hiff
  rw [← hiff]
  unfold ComponentNode.build
  split
  · rename_i hnone
    simp [hnone]
  · rename_i g hg
    simp [hg]

theorem ComponentNode.build_eq_error {operations : List (DFGOp R)} {tid : Handle} {cid : ℕ}
    {e : SchedulerError} (h : ComponentNode.build operations tid cid = .error e) :
    e = .cyclicDependence := by
  unfold ComponentNode.build at h
  split at h <;> cases h
  rfl

end Fhevm.Scheduler
