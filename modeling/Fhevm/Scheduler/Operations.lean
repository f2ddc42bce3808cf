import Fhevm.Scheduler.Execute

/-!
# The operations of a component

The nodes of a component run in topological order, each of them handing its
ciphertext to its consumers. When the inputs of the component are plain values
and no operation fails, every operation is executed.

## Main definitions

* `PlainOperands` — operands as the worker builds them.
* `RunInv` — what holds when some of the nodes have run.
* `executeOperations_executed` — without an error every operation has a result.
-/

namespace Fhevm.Scheduler

open Foundation

variable {R S ε : Type}

/-- No operand is compressed, and every operand position fits into a byte. -/
structure PlainOperands (inputs : List (DFGTaskInput R)) : Prop where
  count : inputs.length ≤ 256
  notCompressed : ∀ t c, .compressed t c ∉ inputs

/-! ## One node -/

/-- An operand that can be replaced by a plain value. -/
def ReadyInput (txInputs : TxInputs R) : DFGTaskInput R → Prop
  | .value _ => True
  | .compressed _ _ => False
  | .dependence d => ∃ v a, txInputs.get? d = some (some (.value v a))

theorem checkReadyInputs_ready {txInputs : TxInputs R} {is : List (DFGTaskInput R)}
    (h : ∀ i ∈ is, ReadyInput txInputs i) :
    ∃ vs : List (SupportedFheCiphertexts R), checkReadyInputs txInputs is = (vs.map .value, true) := by
  induction is with
  | nil => exact ⟨[], rfl⟩
  | cons i is ih =>
    obtain ⟨vs, hvs⟩ := ih (fun j hj => h j (List.mem_cons_of_mem _ hj))
    have hi := h i List.mem_cons_self
    cases i with
    | value v => exact ⟨v :: vs, by simp [checkReadyInputs, hvs]⟩
    | compressed t c => exact hi.elim
    | dependence d =>
      obtain ⟨v, a, hget⟩ := hi
      exact ⟨v :: vs, by simp [checkReadyInputs, hget, hvs]⟩

theorem mapM_value? (vs : List (SupportedFheCiphertexts R)) :
    (vs.map DFGTaskInput.value).mapM DFGTaskInput.value? = some vs := by
  induction vs with
  | nil => rfl
  | cons v vs ih => simp [List.mapM_cons, DFGTaskInput.value?, ih]

/-- A node whose operands are ready runs. -/
theorem nodeOutcome_ready (eng : FheEngine R S ε) {txInputs : TxInputs R} {node : OpNode R}
    (h : ∀ i ∈ node.inputs, ReadyInput txInputs i) :
    ∃ o, nodeOutcome eng txInputs node = some o := by
  obtain ⟨vs, hvs⟩ := checkReadyInputs_ready h
  simp only [nodeOutcome, tryExecuteNode, hvs, mapM_value?, Option.map_some, Option.some.injEq,
    exists_eq']

theorem executeNode_ok {eng : FheEngine R S ε} {edges : Dag (OpNode R) ℕ} {txInputs : TxInputs R}
    {s : List (OpNode R) × Inserts R ε} {nidx : ℕ} {node : OpNode R} {r : TaskResult R}
    (hn : s.1[nidx]? = some node) (ho : nodeOutcome eng txInputs node = some (.ok r)) :
    executeNode eng edges txInputs s nidx =
      ((edges.outgoing nidx).foldl (updateConsumer r.ct)
        (s.1.set nidx (tryExecuteNode eng txInputs node).1),
        s.2 ++ [(node.resultHandle, .ok r)]) := by
  unfold nodeOutcome at ho
  unfold executeNode
  rw [hn]
  simp only
  split <;> rename_i htry <;> rw [htry] at ho <;> simp only [Option.map_some, Option.map_none] at ho
  · cases ho
  · simp [Except.map] at ho
  · simp only [Except.map, Option.some.injEq, Except.ok.injEq] at ho
    rw [← ho, htry]
    rfl

theorem executeNode_keeps (eng : FheEngine R S ε) (edges : Dag (OpNode R) ℕ)
    (txInputs : TxInputs R) (s : List (OpNode R) × Inserts R ε) (nidx : ℕ) :
    s.2 <+: (executeNode eng edges txInputs s nidx).2 := by
  cases hn : s.1[nidx]? with
  | none =>
    rw [executeNode, hn]
  | some node =>
    rw [executeNode_snd hn]
    exact List.prefix_append _ _

/-- What the consumers of a node receive. -/
theorem getElem?_foldl_updateConsumer (ct : SupportedFheCiphertexts R) (es : List (Edge ℕ))
    (nodes : List (OpNode R)) (i : ℕ) : (es.foldl (updateConsumer ct) nodes)[i]? =
      nodes[i]?.map (fun n => { n with inputs := n.inputs.mapIdx (fun pos x =>
        if es.any (fun e => e.target == i && e.weight == pos) then .value ct else x) }) := by
  induction es generalizing nodes with
  | nil =>
    simp only [List.foldl_nil, List.any_nil, Bool.false_eq_true, if_false]
    cases nodes[i]? with
    | none => rfl
    | some n => simp [List.mapIdx_eq_zipIdx_map]
  | cons e es ih =>
    rw [List.foldl_cons, ih, updateConsumer, List.getElem?_modify, Option.map_eq_map,
      Option.map_map]
    congr 1
    funext n
    by_cases htarget : e.target = i
    · simp only [Function.comp, htarget, if_true, OpNode.mk.injEq, true_and, and_true]
      refine List.ext_getElem? fun pos => ?_
      simp only [List.getElem?_mapIdx, List.getElem?_set, List.any_cons, htarget, BEq.rfl,
        Bool.true_and]
      by_cases hw : e.weight = pos
      · subst hw
        by_cases hlt : e.weight < n.inputs.length
        · simp [hlt]
        · simp [hlt]
      · simp [hw]
    · have htarget' : (e.target == i) = false := by simpa using htarget
      simp [Function.comp, htarget, htarget']

/-! ## All nodes -/

/-- The nodes of `done` have run: each of them left a result, and an operand of
another node is a value unless its producer has not run. -/
structure RunInv (operations : List (DFGOp R)) (done : List ℕ)
    (s : List (OpNode R) × Inserts R ε) : Prop where
  executed : ∀ i ∈ done, ∀ op, operations[i]? = some op → ∃ r, (op.outputHandle, .ok r) ∈ s.2
  waiting : ∀ i op, operations[i]? = some op → i ∉ done → ∃ node, s.1[i]? = some node ∧
    node.resultHandle = op.outputHandle ∧ ∀ (pos : ℕ) (x : DFGTaskInput R),
      node.inputs[pos]? = some x → (∃ v, x = .value v) ∨
        ∃ dh, x = .dependence dh ∧ op.inputs[pos]? = some (.dependence dh) ∧
          ∀ p, (producedHandles operations).get? dh = some p → p ∉ done

section Run

variable {operations : List (DFGOp R)} {eng : FheEngine R S ε} {txInputs : TxInputs R}
  {edges : Dag (OpNode R) ℕ}

theorem runInv_start (hplain : ∀ op ∈ operations, PlainOperands op.inputs) :
    RunInv operations [] (operations.map DFGOp.toNode, ([] : Inserts R ε)) where
  executed i hi := by simp at hi
  waiting i op hop _ := by
    refine ⟨op.toNode, by simp [hop], rfl, fun pos x hx => ?_⟩
    cases x with
    | value v => exact .inl ⟨v, rfl⟩
    | compressed t c =>
      exact absurd (List.mem_of_getElem? hx)
        ((hplain op (List.mem_of_getElem? hop)).notCompressed t c)
    | dependence dh => exact .inr ⟨dh, rfl, hx, by simp⟩

/-- An operand that waits for a producer is named by an edge. -/
theorem exists_edge (hedges : edges.edges = dependencePairs operations)
    (hplain : ∀ op ∈ operations, PlainOperands op.inputs) {i pos p : ℕ} {op : DFGOp R} {dh : Handle}
    (hop : operations[i]? = some op) (hpos : op.inputs[pos]? = some (.dependence dh))
    (hp : (producedHandles operations).get? dh = some p) :
    ∃ e ∈ edges.outgoing p, e.target = i ∧ e.weight = pos := by
  have hcount := (hplain op (List.mem_of_getElem? hop)).count
  have hlt := (List.getElem?_eq_some_iff.mp hpos).1
  refine ⟨⟨p, i, pos⟩, Dag.mem_outgoing.mpr ⟨hedges ▸ ?_, rfl⟩, rfl, rfl⟩
  exact mem_dependencePairs.mpr ⟨op, dh, pos, hop, hpos, hp,
    (Nat.mod_eq_of_lt (lt_of_lt_of_le hlt hcount)).symm⟩

/-- Running a node whose predecessors have run. -/
theorem RunInv.step {done : List ℕ} {s : List (OpNode R) × Inserts R ε} {nidx : ℕ}
    (hs : RunInv operations done s) (hedges : edges.edges = dependencePairs operations)
    (hplain : ∀ op ∈ operations, PlainOperands op.inputs)
    (htx : ∀ h ∈ exposedInputs operations, ∃ v a, txInputs.get? h = some (some (.value v a)))
    (hlt : nidx < operations.length) (hnew : nidx ∉ done)
    (hpreds : ∀ p, Adj edges.arcs p nidx → p ∈ done)
    (hok : ∀ h err, (h, .error err) ∉ (executeNode eng edges txInputs s nidx).2) :
    RunInv operations (done ++ [nidx]) (executeNode eng edges txInputs s nidx) := by
  have hop := List.getElem?_eq_getElem hlt
  set op := operations[nidx] with hopdef
  obtain ⟨node, hnode, hhandle, hinputs⟩ := hs.waiting nidx op hop hnew
  -- the producers of its operands have run, so its operands are ready
  have hready : ∀ i ∈ node.inputs, ReadyInput txInputs i := by
    intro x hx
    obtain ⟨pos, hpos⟩ := List.getElem?_of_mem hx
    rcases hinputs pos x hpos with ⟨v, rfl⟩ | ⟨dh, rfl, hdh, hnot⟩
    · trivial
    · refine htx dh (mem_exposedInputs.mpr ⟨⟨op, List.mem_of_getElem? hop,
        List.mem_of_getElem? hdh⟩, fun hmem => ?_⟩)
      obtain ⟨p, hp⟩ := Option.isSome_iff_exists.mp (producedHandles_isSome.mpr hmem)
      obtain ⟨e, he, htarget, -⟩ := exists_edge hedges hplain hop hdh hp
      obtain ⟨hmem, hsource⟩ := Dag.mem_outgoing.mp he
      exact hnot p hp (hpreds p (Dag.adj_iff.mpr ⟨e, hmem, hsource, htarget⟩))
  obtain ⟨o, ho⟩ := nodeOutcome_ready eng hready
  cases o with
  | error err =>
    refine absurd ?_ (hok node.resultHandle err)
    rw [executeNode_snd hnode, ho]
    simp
  | ok r =>
    rw [executeNode_ok hnode ho]
    refine ⟨fun i hi op' hop' => ?_, fun i op' hop' hi => ?_⟩
    · rcases List.mem_append.mp hi with hi | hi
      · obtain ⟨r', hr'⟩ := hs.executed i hi op' hop'
        exact ⟨r', List.mem_append_left _ hr'⟩
      · rw [List.mem_singleton.mp hi, hop] at hop'
        cases hop'
        exact ⟨r, List.mem_append_right _ (by simp [hhandle])⟩
    · have hne : nidx ≠ i := fun h => hi (by simp [h])
      obtain ⟨node', hnode', hhandle', hinputs'⟩ :=
        hs.waiting i op' hop' (fun h => hi (List.mem_append_left _ h))
      have hupdated := getElem?_foldl_updateConsumer r.ct (edges.outgoing nidx)
        (s.1.set nidx (tryExecuteNode eng txInputs node).1) i
      rw [List.getElem?_set_ne hne, hnode', Option.map_some] at hupdated
      refine ⟨_, hupdated, hhandle', fun pos x hx => ?_⟩
      simp only [List.getElem?_mapIdx, Option.map_eq_some_iff] at hx
      obtain ⟨y, hy, rfl⟩ := hx
      split
      · exact .inl ⟨r.ct, rfl⟩
      · rename_i hno
        rcases hinputs' pos y hy with hv | ⟨dh, rfl, hdh, hnot⟩
        · exact .inl hv
        · refine .inr ⟨dh, rfl, hdh, fun p hp hmem => ?_⟩
          rcases List.mem_append.mp hmem with hmem | hmem
          · exact hnot p hp hmem
          · rw [List.mem_singleton.mp hmem] at hp
            obtain ⟨e, he, htarget, hw⟩ := exists_edge hedges hplain hop' hdh hp
            exact hno (List.any_eq_true.mpr ⟨e, he, by simp [htarget, hw]⟩)

/-- Running a topological order of the nodes, up to any point, without an error. -/
theorem runInv_foldl (hnodes : edges.nodes.length = operations.length)
    (hedges : edges.edges = dependencePairs operations)
    (hplain : ∀ op ∈ operations, PlainOperands op.inputs)
    (htx : ∀ h ∈ exposedInputs operations, ∃ v a, txInputs.get? h = some (some (.value v a)))
    {ts : List ℕ} (hts : IsTopological edges.nodeCount edges.arcs ts) {pre : List ℕ}
    (hpre : pre <+: ts)
    (hok : ∀ h err, (h, .error err) ∉
      (pre.foldl (executeNode eng edges txInputs) (operations.map DFGOp.toNode, [])).2) :
    RunInv operations pre
      (pre.foldl (executeNode eng edges txInputs) (operations.map DFGOp.toNode, [])) := by
  induction pre using List.reverseRecOn with
  | nil => exact runInv_start hplain
  | append_singleton pre nidx ih =>
    rw [List.foldl_append, List.foldl_cons, List.foldl_nil] at hok ⊢
    have hinv := ih ((List.prefix_append _ _).trans hpre) (fun h err hmem =>
      hok h err ((executeNode_keeps eng edges txInputs _ nidx).subset hmem))
    obtain ⟨post, hpost⟩ := hpre
    have hsplit : ts = pre ++ nidx :: post := by simp [← hpost]
    have hmem : nidx ∈ ts := by simp [hsplit]
    have hnd := hts.nodup
    rw [hsplit, List.nodup_append] at hnd
    refine hinv.step hedges hplain htx (hnodes ▸ hts.mem_iff.mp hmem)
      (fun h => hnd.2.2 _ h _ List.mem_cons_self rfl) (fun p hp => ?_) hok
    exact hts.mem_prefix hsplit hp (Dag.adj_lt hp).1

/-- When the inputs are plain values and no operation fails, all are executed. -/
theorem executeOperations_executed (T : Toposort) {dfg : DFGraph R}
    (hnodes : dfg.graph.nodes = operations.map DFGOp.toNode)
    (hedges : dfg.graph.edges = dependencePairs operations)
    (hplain : ∀ op ∈ operations, PlainOperands op.inputs)
    (htx : ∀ h ∈ exposedInputs operations, ∃ v a, txInputs.get? h = some (some (.value v a)))
    (hok : ∀ h err, (h, .error err) ∉ executeOperations eng T dfg txInputs) :
    ∀ op ∈ operations, ∃ r, (op.outputHandle, .ok r) ∈ executeOperations eng T dfg txInputs := by
  obtain ⟨ts, hts⟩ := Option.isSome_iff_exists.mp (Dag.toposort_isSome T dfg.graph)
  have hlen : dfg.graph.nodes.length = operations.length := by simp [hnodes]
  have htop := Dag.toposort_sound hts
  simp only [executeOperations, hts, hnodes] at hok ⊢
  have hinv := runInv_foldl hlen hedges hplain htx htop List.prefix_rfl hok
  intro op hop
  obtain ⟨i, hi⟩ := List.getElem?_of_mem hop
  refine hinv.executed i (htop.mem_iff.mpr ?_) op hi
  rw [Dag.nodeCount, hlen]
  exact (List.getElem?_eq_some_iff.mp hi).1

end Run

/-! ## Re-randomised inputs -/

/-- What re-randomisation returns are plain values under the same handles. -/
theorem reRandomise_plain {eng : FheEngine R S ε} {m m' : TxInputs R} {tid : Handle} {cid : ℕ}
    (h : reRandomiseTransactionInputs eng m tid cid = .ok m') :
    m'.keys = m.keys ∧ ∀ e ∈ m'.entries, ∃ v a, e.2 = some (.value v a) := by
  unfold reRandomiseTransactionInputs at h
  split at h
  · cases h
  rename_i context m₁ h₁
  split at h
  · cases h
  rename_i k m₂ h₂
  cases h
  rw [HashMap.traverse_eq_ok] at h₁ h₂
  refine ⟨(HashMap.keys_traverseEntries h₂).trans (HashMap.keys_traverseEntries h₁), ?_⟩
  refine HashMap.forall_traverseEntries (P := fun i => ∃ v a, i = some (.value v a))
    (fun s v s' v' hv => ?_) h₂
  match v with
  | none => cases hv
  | some (.compressed _ _ _) => cases hv
  | some (.value val false) =>
    simp only [reRandomiseInput, Except.ok.injEq, Prod.mk.injEq] at hv
    exact ⟨val, false, hv.2.symm⟩
  | some (.value val true) =>
    simp only [reRandomiseInput] at hv
    split at hv
    · cases hv
    split at hv
    · cases hv
    · rename_i val' _
      cases hv
      exact ⟨val', true, rfl⟩

end Fhevm.Scheduler
