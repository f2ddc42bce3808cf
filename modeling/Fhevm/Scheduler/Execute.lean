import Fhevm.Foundation.Toposort
import Fhevm.Scheduler.Component

/-!
# Executing a task

A task is a list of components in an executable order. A component whose inputs
are not all available, or cannot be re-randomised, is skipped with an error for
each of its allowed operations; otherwise its operations run in topological
order and every result, allowed or not, is kept under its handle.

## Main definitions

* `executeTransaction` — the results of one component, in the order they are kept.
* `executePartition` — the results of a task by handle; a later one wins.
* `Delivers` — which inputs are filled from which results.
-/

namespace Fhevm.Scheduler

open Foundation

variable {R S ε : Type}

/-! ## The source -/

/-- What a task receives of a component. -/
structure ComponentArgs (R : Type) where
  graph : DFGraph R
  inputs : TxInputs R
  transactionId : Handle
  componentId : ℕ

/-- The results kept for the handles of a component, in order. -/
abbrev Inserts (R ε : Type) := List (Handle × OpOutcome R ε)

/-- Replace operands by the inputs they name, up to the first that has no plain
value; the flag tells whether all could be replaced. -/
def checkReadyInputs (ctMap : TxInputs R) :
    List (DFGTaskInput R) → List (DFGTaskInput R) × Bool
  | [] => ([], true)
  | .value v :: is =>
    let (is, ready) := checkReadyInputs ctMap is
    (.value v :: is, ready)
  | .compressed t c :: is => (.compressed t c :: is, false)
  | .dependence d :: is =>
    match ctMap.get? d with
    | some (some (.value val _)) =>
      let (is, ready) := checkReadyInputs ctMap is
      (.value val :: is, ready)
    | _ => (.dependence d :: is, false)

/-- The value of an operand that has one. -/
def DFGTaskInput.value? : DFGTaskInput R → Option (SupportedFheCiphertexts R)
  | .value v => some v
  | .compressed _ _ | .dependence _ => none

def runComputation (eng : FheEngine R S ε) (operation : ℤ)
    (inputs : List (SupportedFheCiphertexts R)) (isAllowed : Bool) :
    Except (TaskError ε) (SupportedFheCiphertexts R × Option (ℤ × List UInt8)) :=
  match SupportedFheOperations.tryFrom operation with
  | some .fheGetInputCiphertext =>
    match inputs with
    | ct :: _ => .ok (ct, some (eng.compress ct))
    -- the source indexes the empty list here; operand validation never lets it through
    | [] => .error (.scheduler .schedulerError)
  | some _ =>
    match eng.performFheOperation operation inputs with
    | .ok result => .ok (result, if isAllowed then some (eng.compress result) else none)
    | .error e => .error (.other e)
  | none => .error (.other (eng.unknownEnumValue operation))

/-- Run a node whose inputs are ready; `none` when they are not. The node that
is returned has the operands it could replace, or gave them away. -/
def tryExecuteNode (eng : FheEngine R S ε) (txInputs : TxInputs R) (node : OpNode R) :
    OpNode R ×
      Option (Except (TaskError ε) (SupportedFheCiphertexts R × Option (ℤ × List UInt8))) :=
  match checkReadyInputs txInputs node.inputs with
  | (is, false) => ({ node with inputs := is }, none)
  | (is, true) =>
    ({ node with inputs := [] },
      (is.mapM DFGTaskInput.value?).map (runComputation eng node.opcode · node.isAllowed))

/-- The result that is kept for a node. -/
def OpNode.taskResult (node : OpNode R)
    (v : SupportedFheCiphertexts R × Option (ℤ × List UInt8)) : TaskResult R :=
  ⟨v.1, if node.isAllowed then v.2 else none, node.isAllowed⟩

/-- Replace an operand of a consumer. -/
def updateConsumer (ct : SupportedFheCiphertexts R) (nodes : List (OpNode R)) (e : Edge ℕ) :
    List (OpNode R) :=
  nodes.modify e.target fun n => { n with inputs := n.inputs.set e.weight (.value ct) }

/-- Run one node and hand its ciphertext to its consumers. -/
def executeNode (eng : FheEngine R S ε) (edges : Dag (OpNode R) ℕ) (txInputs : TxInputs R)
    (s : List (OpNode R) × Inserts R ε) (nidx : ℕ) : List (OpNode R) × Inserts R ε :=
  match s.1[nidx]? with
  | none => s
  | some node =>
    match tryExecuteNode eng txInputs node with
    | (node', none) => (s.1.set nidx node', s.2)
    | (node', some (.error e)) => (s.1.set nidx node', s.2 ++ [(node.resultHandle, .error e)])
    | (node', some (.ok v)) =>
      ((edges.outgoing nidx).foldl (updateConsumer v.1) (s.1.set nidx node'),
        s.2 ++ [(node.resultHandle, .ok (node.taskResult v))])

/-- Skip a component: an error for each allowed operation. -/
def failAllowed (dfg : DFGraph R) (e : SchedulerError) : Inserts R ε :=
  (dfg.graph.nodes.filter OpNode.isAllowed).map (fun n => (n.resultHandle, .error (.scheduler e)))

/-- The ciphertext of a successful result. -/
def okResult : Option (OpOutcome R ε) → Option (TaskResult R)
  | some (.ok r) => some r
  | _ => none

/-- Fill a missing input from the results available. -/
def fillInput (available : Handle → Option (TaskResult R)) (h : Handle) :
    Option (DFGTxInput R) → Option (DFGTxInput R)
  | some v => some v
  | none => (available h).map (fun r => .value r.ct r.isAllowed)

/-- The inputs with what is available filled in. -/
def Delivers (available : Handle → Option (TaskResult R)) (inputs : TxInputs R) : TxInputs R :=
  inputs.mapVals (fillInput available)

/-- Fill the missing inputs of a component; `none` when one stays missing. -/
def fillInputs (res : HashMap Handle (OpOutcome R ε)) (inputs : TxInputs R) :
    Option (TxInputs R) :=
  let filled := Delivers (fun h => okResult (res.get? h)) inputs
  if filled.entries.all (·.2.isSome) then some filled else none

/-- The operations of a component whose inputs are re-randomised. -/
def executeOperations (eng : FheEngine R S ε) (T : Toposort) (dfg : DFGraph R)
    (txInputs : TxInputs R) : Inserts R ε :=
  match dfg.graph.toposort T with
  | none => failAllowed dfg .cyclicDependence
  | some ts => (ts.foldl (executeNode eng dfg.graph txInputs) (dfg.graph.nodes, [])).2

/-- One component of a task, given the results of the components before it. -/
def executeTransaction (eng : FheEngine R S ε) (T : Toposort)
    (res : HashMap Handle (OpOutcome R ε)) (a : ComponentArgs R) : Inserts R ε :=
  match fillInputs res a.inputs with
  | none => failAllowed a.graph .missingInputs
  | some inputs =>
    match reRandomiseTransactionInputs eng inputs a.transactionId a.componentId with
    | .error _ => failAllowed a.graph .reRandomisationError
    | .ok inputs => executeOperations eng T a.graph inputs

def executePartition (eng : FheEngine R S ε) (T : Toposort) (transactions : List (ComponentArgs R)) :
    HashMap Handle (OpOutcome R ε) :=
  transactions.foldl (fun res a => res.insertAll (executeTransaction eng T res a)) HashMap.empty

/-! ## Filling inputs -/

@[simp] theorem keys_delivers (available : Handle → Option (TaskResult R)) (m : TxInputs R) :
    (Delivers available m).keys = m.keys := HashMap.keys_mapVals _ _

theorem get?_delivers (available : Handle → Option (TaskResult R)) (m : TxInputs R) (h : Handle) :
    (Delivers available m).get? h = (m.get? h).map (fillInput available h) :=
  HashMap.get?_mapVals _ _ _

theorem delivers_none (m : TxInputs R) : Delivers (fun _ => none) m = m := by
  refine HashMap.ext ?_
  simp only [Delivers, HashMap.entries_mapVals]
  refine (List.map_congr_left fun e _ => ?_).trans (List.map_id _)
  obtain ⟨h, v⟩ := e
  cases v <;> rfl

/-- What was delivered first stays. -/
theorem delivers_delivers (first second : Handle → Option (TaskResult R)) (m : TxInputs R) :
    Delivers second (Delivers first m) = Delivers (fun h => (first h).or (second h)) m := by
  refine HashMap.ext ?_
  simp only [Delivers, HashMap.entries_mapVals, List.map_map]
  refine List.map_congr_left fun e _ => ?_
  obtain ⟨h, v⟩ := e
  cases v with
  | some v => rfl
  | none => cases hf : first h <;> simp [fillInput, hf]

/-- Only what is available for pending inputs matters. -/
theorem delivers_congr {first second : Handle → Option (TaskResult R)} {m : TxInputs R}
    (h : ∀ k, m.get? k = some none → first k = second k) :
    Delivers first m = Delivers second m := by
  refine HashMap.ext ?_
  simp only [Delivers, HashMap.entries_mapVals]
  refine List.map_congr_left fun e he => ?_
  obtain ⟨k, v⟩ := e
  cases v with
  | some v => rfl
  | none => simp [fillInput, h k (HashMap.get?_eq_some.mpr he)]

/-- The results of a component in terms of what is available to it. -/
def executeWith (eng : FheEngine R S ε) (T : Toposort)
    (available : Handle → Option (TaskResult R)) (a : ComponentArgs R) : Inserts R ε :=
  if (Delivers available a.inputs).entries.all (·.2.isSome) then
    match reRandomiseTransactionInputs eng (Delivers available a.inputs)
        a.transactionId a.componentId with
    | .error _ => failAllowed a.graph .reRandomisationError
    | .ok inputs => executeOperations eng T a.graph inputs
  else failAllowed a.graph .missingInputs

theorem executeTransaction_eq (eng : FheEngine R S ε) (T : Toposort)
    (res : HashMap Handle (OpOutcome R ε)) (a : ComponentArgs R) :
    executeTransaction eng T res a = executeWith eng T (fun h => okResult (res.get? h)) a := by
  by_cases h : (Delivers (fun h => okResult (res.get? h)) a.inputs).entries.all (·.2.isSome) = true
  · simp only [executeTransaction, executeWith, fillInputs, h, if_true]
  · simp only [executeTransaction, executeWith, fillInputs, h]
    rfl

theorem executeWith_congr {eng : FheEngine R S ε} {T : Toposort}
    {first second : Handle → Option (TaskResult R)} {a : ComponentArgs R}
    (h : ∀ k, a.inputs.get? k = some none → first k = second k) :
    executeWith eng T first a = executeWith eng T second a := by
  rw [executeWith, executeWith, delivers_congr h]

/-- Delivering part of the inputs beforehand makes no difference. -/
theorem executeWith_delivers (eng : FheEngine R S ε) (T : Toposort)
    (first second : Handle → Option (TaskResult R)) (a : ComponentArgs R) :
    executeWith eng T second { a with inputs := Delivers first a.inputs } =
      executeWith eng T (fun h => (first h).or (second h)) a := by
  simp only [executeWith, delivers_delivers]

/-! ## Running the operations -/

/-- What a node leaves in the results, when its inputs are ready. -/
def nodeOutcome (eng : FheEngine R S ε) (txInputs : TxInputs R) (node : OpNode R) :
    Option (OpOutcome R ε) :=
  (tryExecuteNode eng txInputs node).2.map (·.map node.taskResult)

theorem executeNode_snd {eng : FheEngine R S ε} {edges : Dag (OpNode R) ℕ} {txInputs : TxInputs R}
    {s : List (OpNode R) × Inserts R ε} {nidx : ℕ} {node : OpNode R}
    (h : s.1[nidx]? = some node) :
    (executeNode eng edges txInputs s nidx).2 =
      s.2 ++ (nodeOutcome eng txInputs node).toList.map (node.resultHandle, ·) := by
  unfold executeNode nodeOutcome
  rw [h]
  simp only
  split <;> rename_i htry <;> simp [htry, Except.map]

/-- The parts of a node that running never changes. -/
def OpNode.label (n : OpNode R) : ℤ × Handle × Bool := (n.opcode, n.resultHandle, n.isAllowed)

theorem tryExecuteNode_label (eng : FheEngine R S ε) (txInputs : TxInputs R) (node : OpNode R) :
    (tryExecuteNode eng txInputs node).1.label = node.label := by
  unfold tryExecuteNode
  split <;> rfl

theorem map_label_updateConsumer (ct : SupportedFheCiphertexts R) (nodes : List (OpNode R))
    (e : Edge ℕ) : (updateConsumer ct nodes e).map OpNode.label = nodes.map OpNode.label := by
  refine List.ext_getElem? fun i => ?_
  simp only [updateConsumer, List.getElem?_map, List.getElem?_modify]
  cases nodes[i]? with
  | none => rfl
  | some n =>
    by_cases hi : e.target = i <;> simp [hi, OpNode.label]

theorem map_label_foldl_updateConsumer (ct : SupportedFheCiphertexts R) (es : List (Edge ℕ))
    (nodes : List (OpNode R)) :
    (es.foldl (updateConsumer ct) nodes).map OpNode.label = nodes.map OpNode.label := by
  induction es generalizing nodes with
  | nil => rfl
  | cons e es ih => rw [List.foldl_cons, ih, map_label_updateConsumer]

theorem map_label_set {nodes : List (OpNode R)} {nidx : ℕ} {node node' : OpNode R}
    (h : nodes[nidx]? = some node) (hl : node'.label = node.label) :
    (nodes.set nidx node').map OpNode.label = nodes.map OpNode.label := by
  refine List.ext_getElem? fun i => ?_
  rw [List.map_set, List.getElem?_set]
  split
  · rename_i hi
    subst hi
    obtain ⟨hlt, rfl⟩ := List.getElem?_eq_some_iff.mp h
    simp [hl, hlt]
  · rfl

theorem executeNode_fst_label (eng : FheEngine R S ε) (edges : Dag (OpNode R) ℕ)
    (txInputs : TxInputs R) (s : List (OpNode R) × Inserts R ε) (nidx : ℕ) :
    (executeNode eng edges txInputs s nidx).1.map OpNode.label = s.1.map OpNode.label := by
  unfold executeNode
  cases h : s.1[nidx]? with
  | none => rfl
  | some node =>
    have hl := tryExecuteNode_label eng txInputs node
    simp only
    split <;> rename_i htry <;> rw [htry] at hl <;>
      simp only [map_label_foldl_updateConsumer] <;> exact map_label_set h hl

/-- A result kept in a run was left by some state of one of the nodes. -/
theorem mem_foldl_executeNode {eng : FheEngine R S ε} {edges : Dag (OpNode R) ℕ}
    {txInputs : TxInputs R} {ts : List ℕ} {s : List (OpNode R) × Inserts R ε}
    {h : Handle} {o : OpOutcome R ε}
    (hmem : (h, o) ∈ (ts.foldl (executeNode eng edges txInputs) s).2) :
    (h, o) ∈ s.2 ∨ ∃ node : OpNode R, node.label ∈ s.1.map OpNode.label ∧
      node.resultHandle = h ∧ nodeOutcome eng txInputs node = some o := by
  induction ts generalizing s with
  | nil => exact .inl hmem
  | cons nidx ts ih =>
    rw [List.foldl_cons] at hmem
    rcases ih hmem with hmem | ⟨node, hnode, hh, ho⟩
    · cases hn : s.1[nidx]? with
      | none =>
        rw [executeNode, hn] at hmem
        exact .inl hmem
      | some node =>
        rw [executeNode_snd hn, List.mem_append] at hmem
        rcases hmem with hmem | hmem
        · exact .inl hmem
        · obtain ⟨o', ho', heq⟩ := List.mem_map.mp hmem
          cases heq
          exact .inr ⟨node, List.mem_map_of_mem (List.mem_of_getElem? hn), rfl,
            Option.mem_toList.mp ho'⟩
    · rw [executeNode_fst_label] at hnode
      exact .inr ⟨node, hnode, hh, ho⟩

theorem runComputation_compressed {eng : FheEngine R S ε} {operation : ℤ}
    {inputs : List (SupportedFheCiphertexts R)}
    {v : SupportedFheCiphertexts R × Option (ℤ × List UInt8)}
    (h : runComputation eng operation inputs true = .ok v) : v.2.isSome := by
  unfold runComputation at h
  split at h
  · split at h <;> cases h
    rfl
  · split at h <;> cases h
    rfl
  · cases h

theorem nodeOutcome_compressed {eng : FheEngine R S ε} {txInputs : TxInputs R} {node : OpNode R}
    {r : TaskResult R} (h : nodeOutcome eng txInputs node = some (.ok r))
    (hr : r.isAllowed = true) : r.compressedCt.isSome := by
  unfold nodeOutcome tryExecuteNode at h
  split at h
  · cases h
  · rename_i is _
    simp only at h
    cases hm : is.mapM DFGTaskInput.value? with
    | none => simp [hm] at h
    | some cts =>
      simp only [hm, Option.map_some, Option.some.injEq] at h
      cases hrun : runComputation eng node.opcode cts node.isAllowed with
      | error e => simp [hrun, Except.map] at h
      | ok v =>
        simp only [hrun, Except.map, Except.ok.injEq] at h
        subst h
        have hallowed : node.isAllowed = true := hr
        rw [hallowed] at hrun
        simpa [OpNode.taskResult, hallowed] using runComputation_compressed hrun

theorem mem_failAllowed {dfg : DFGraph R} {e : SchedulerError} {h : Handle} {o : OpOutcome R ε}
    (hmem : (h, o) ∈ failAllowed dfg e) :
    (∃ n ∈ dfg.graph.nodes, n.isAllowed = true ∧ n.resultHandle = h) ∧
      o = .error (.scheduler e) := by
  simp only [failAllowed, List.mem_map, List.mem_filter, Prod.mk.injEq] at hmem
  obtain ⟨n, ⟨hn, ha⟩, hh, ho⟩ := hmem
  exact ⟨⟨n, hn, ha, hh⟩, ho.symm⟩

/-- Every result is kept under the handle of an operation of the component, and
an allowed ciphertext comes compressed. -/
theorem mem_executeWith {eng : FheEngine R S ε} {T : Toposort}
    {available : Handle → Option (TaskResult R)} {a : ComponentArgs R} {h : Handle}
    {o : OpOutcome R ε} (hmem : (h, o) ∈ executeWith eng T available a) :
    (∃ n ∈ a.graph.graph.nodes, n.resultHandle = h) ∧
      ∀ r, o = .ok r → r.isAllowed = true → r.compressedCt.isSome := by
  have hfail : ∀ e : SchedulerError, (h, o) ∈ failAllowed a.graph e →
      (∃ n ∈ a.graph.graph.nodes, n.resultHandle = h) ∧
        ∀ r, o = .ok r → r.isAllowed = true → r.compressedCt.isSome := by
    intro e hf
    obtain ⟨⟨n, hn, -, hh⟩, rfl⟩ := mem_failAllowed hf
    exact ⟨⟨n, hn, hh⟩, by rintro r ⟨⟩⟩
  unfold executeWith at hmem
  split at hmem
  · split at hmem
    · exact hfail _ hmem
    · unfold executeOperations at hmem
      split at hmem
      · exact hfail _ hmem
      · rcases mem_foldl_executeNode hmem with hmem | ⟨node, hnode, hh, ho⟩
        · simp at hmem
        · obtain ⟨n, hn, hlabel⟩ := List.mem_map.mp hnode
          refine ⟨⟨n, hn, ?_⟩, fun r hr => ?_⟩
          · rw [← hh]
            exact congrArg (·.2.1) hlabel
          · subst hr
            exact nodeOutcome_compressed ho
  · exact hfail _ hmem

end Fhevm.Scheduler
