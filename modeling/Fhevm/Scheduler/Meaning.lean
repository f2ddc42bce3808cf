import Fhevm.Foundation.Contract
import Fhevm.Scheduler.Operations
import Fhevm.Scheduler.Schedule

/-!
# Schedules keep meanings

A handle means some ciphertexts, for example those that decrypt to its value. If
every operation takes ciphertexts that its operands mean to one that its result means, and
compression and re-randomisation keep meanings, then whatever the schedule is every result
that is stored means its handle.

## Main definitions

* `SoundOp` — an operation that takes meant operands to a meant result.
* `KeepsMeaning` — compression and re-randomisation keep meanings.
* `GraphMeans` — what holds of a component graph in every state of the scheduler.
* `Reachable.graphMeans` — every reachable state keeps it.
-/

namespace Fhevm.Scheduler

open Foundation

variable {R S ε : Type} {eng : FheEngine R S ε}
  {means : Handle → SupportedFheCiphertexts R → Prop}

/-! ## Meanings -/

/-- The ciphertext that an operand stands for. -/
def Supplies (means : Handle → SupportedFheCiphertexts R → Prop) :
    DFGTaskInput R → SupportedFheCiphertexts R → Prop
  | .value v, ct => ct = v
  | .compressed _ _, _ => False
  | .dependence dh, ct => means dh ct

/-- The stored bytes are a ciphertext that the handle means. -/
def StoredMeans (eng : FheEngine R S ε) (means : Handle → SupportedFheCiphertexts R → Prop)
    (handle : Handle) (cct : ℤ × List UInt8) : Prop :=
  ∃ ct, eng.decompress cct.1 cct.2 = .ok ct ∧ means handle ct

structure KeepsMeaning (eng : FheEngine R S ε)
    (means : Handle → SupportedFheCiphertexts R → Prop) : Prop where
  compress {handle : Handle} {ct : SupportedFheCiphertexts R} (h : means handle ct) :
    StoredMeans eng means handle (eng.compress ct)
  reRandomise {handle : Handle} {ct ct' : SupportedFheCiphertexts R} {seed : S}
    (h : means handle ct) : reRandomise eng seed ct = .ok ct' → means handle ct'

/-- An operation whose result is meant if its operands are. Operand positions fit into a byte. -/
structure SoundOp (eng : FheEngine R S ε) (means : Handle → SupportedFheCiphertexts R → Prop)
    (op : DFGOp R) : Prop where
  count : op.inputs.length ≤ 256
  evaluated : op.fheOp ≠ .fheGetInputCiphertext
  sound : ∀ cts ct, List.Forall₂ (Supplies means) op.inputs cts →
    eng.performFheOperation op.fheOp.toInt cts = .ok ct → means op.outputHandle ct

/-- A result that is meant, as it is and compressed. -/
def OutcomeMeans (eng : FheEngine R S ε) (means : Handle → SupportedFheCiphertexts R → Prop)
    (handle : Handle) (o : OpOutcome R ε) : Prop :=
  ∀ r, o = .ok r → means handle r.ct ∧
    ∀ cct, r.compressedCt = some cct → StoredMeans eng means handle cct

/-- An input that is meant, or that is still missing. -/
def InputMeans (eng : FheEngine R S ε) (means : Handle → SupportedFheCiphertexts R → Prop)
    (handle : Handle) : Option (DFGTxInput R) → Prop
  | some (.value ct _) => means handle ct
  | some (.compressed t c _) => StoredMeans eng means handle (t, c)
  | none => True

/-! ## One node -/

/-- An operand that is as it was built, or the ciphertext of its producer. -/
def Received (means : Handle → SupportedFheCiphertexts R → Prop) (x y : DFGTaskInput R) : Prop :=
  y = x ∨ ∃ dh ct, x = .dependence dh ∧ y = .value ct ∧ means dh ct

/-- A node that has not run yet. -/
structure Waits (means : Handle → SupportedFheCiphertexts R → Prop) (op : DFGOp R)
    (node : OpNode R) : Prop where
  opcode : node.opcode = op.fheOp.toInt
  resultHandle : node.resultHandle = op.outputHandle
  received : List.Forall₂ (Received means) op.inputs node.inputs

theorem waits_toNode (op : DFGOp R) : Waits means op op.toNode :=
  ⟨rfl, rfl, List.forall₂_same.mpr fun _ _ => .inl rfl⟩

/-- The operands of a node that is ready are what they stand for. -/
theorem supplies_of_ready {txInputs : TxInputs R} (htx : txInputs.All (InputMeans eng means))
    {xs ys is : List (DFGTaskInput R)} {cts : List (SupportedFheCiphertexts R)}
    (hreceived : List.Forall₂ (Received means) xs ys)
    (hready : checkReadyInputs txInputs ys = (is, true))
    (hvalues : is.mapM DFGTaskInput.value? = some cts) : List.Forall₂ (Supplies means) xs cts := by
  induction hreceived generalizing is cts with
  | nil =>
    simp only [checkReadyInputs, Prod.mk.injEq, and_true] at hready
    subst hready
    simp_all
  | @cons x y xs ys hxy _ ih =>
    -- the first operand has a value, and so do the others
    have hsplit : ∃ v is' cts', checkReadyInputs txInputs ys = (is', true) ∧
        is'.mapM DFGTaskInput.value? = some cts' ∧ cts = v :: cts' ∧
        (y = .value v ∨
          ∃ dh a, y = .dependence dh ∧ txInputs.get? dh = some (some (.value v a))) := by
      cases y with
      | value v =>
        simp only [checkReadyInputs, Prod.mk.injEq] at hready
        obtain ⟨rfl, htrue⟩ := hready
        simp only [List.mapM_cons, DFGTaskInput.value?, Option.pure_def, Option.bind_eq_bind,
          Option.bind_some, Option.bind_eq_some_iff, Option.some.injEq] at hvalues
        obtain ⟨cts', hcts', rfl⟩ := hvalues
        exact ⟨v, _, cts', Prod.ext rfl htrue, hcts', rfl, .inl rfl⟩
      | compressed t c => simp [checkReadyInputs] at hready
      | dependence dh =>
        simp only [checkReadyInputs] at hready
        split at hready
        · rename_i v a hget
          simp only [Prod.mk.injEq] at hready
          obtain ⟨rfl, htrue⟩ := hready
          simp only [List.mapM_cons, DFGTaskInput.value?, Option.pure_def, Option.bind_eq_bind,
            Option.bind_some, Option.bind_eq_some_iff, Option.some.injEq] at hvalues
          obtain ⟨cts', hcts', rfl⟩ := hvalues
          exact ⟨v, _, cts', Prod.ext rfl htrue, hcts', rfl, .inr ⟨dh, a, rfl, hget⟩⟩
        · simp at hready
    obtain ⟨v, is', cts', hready', hvalues', rfl, hv⟩ := hsplit
    refine .cons ?_ (ih hready' hvalues')
    rcases hxy with rfl | ⟨dh, ct, rfl, rfl, hmeans⟩
    · rcases hv with rfl | ⟨dh, a, rfl, hget⟩
      · rfl
      · exact htx.get? hget
    · rcases hv with hv | ⟨_, _, hv, -⟩
      · cases hv
        exact hmeans
      · cases hv

theorem runComputation_evaluated {op : SupportedFheOperations} (hop : op ≠ .fheGetInputCiphertext)
    {cts : List (SupportedFheCiphertexts R)} {isAllowed : Bool}
    {v : SupportedFheCiphertexts R × Option (ℤ × List UInt8)}
    (h : runComputation eng op.toInt cts isAllowed = .ok v) :
    eng.performFheOperation op.toInt cts = .ok v.1 ∧
      ∀ cct, v.2 = some cct → cct = eng.compress v.1 := by
  unfold runComputation at h
  rw [SupportedFheOperations.tryFrom_toInt] at h
  split at h
  · rename_i heq
    exact absurd (Option.some.inj heq) hop
  · split at h
    · rename_i result hresult
      cases h
      refine ⟨hresult, fun cct hcct => ?_⟩
      dsimp only at hcct
      split at hcct
      · exact (Option.some.inj hcct).symm
      · cases hcct
    · cases h
  · cases h

/-- What a node leaves is meant. -/
theorem nodeOutcome_means (hkeeps : KeepsMeaning eng means) {txInputs : TxInputs R}
    (htx : txInputs.All (InputMeans eng means)) {op : DFGOp R} (hop : SoundOp eng means op)
    {node : OpNode R} (hnode : Waits means op node) {o : OpOutcome R ε}
    (ho : nodeOutcome eng txInputs node = some o) : OutcomeMeans eng means node.resultHandle o := by
  rintro r rfl
  unfold nodeOutcome tryExecuteNode at ho
  split at ho
  · cases ho
  · rename_i is hready
    simp only [Option.map_map, Option.map_eq_some_iff] at ho
    obtain ⟨cts, hcts, hrun⟩ := ho
    simp only [Function.comp_apply, hnode.opcode] at hrun
    cases hv : runComputation eng op.fheOp.toInt cts node.isAllowed with
    | error e => simp [hv, Except.map] at hrun
    | ok v =>
      simp only [hv, Except.map, Except.ok.injEq] at hrun
      subst hrun
      obtain ⟨hperform, hcompressed⟩ := runComputation_evaluated hop.evaluated hv
      have hmeans : means node.resultHandle v.1 := hnode.resultHandle ▸
        hop.sound cts v.1 (supplies_of_ready htx hnode.received hready hcts) hperform
      refine ⟨hmeans, fun cct hcct => ?_⟩
      simp only [OpNode.taskResult] at hcct
      split at hcct
      · rw [hcompressed cct hcct]
        exact hkeeps.compress hmeans
      · cases hcct

/-! ## The operations of a component -/

/-- Some nodes have run. The others wait, and all results are meant. -/
structure RunMeans (eng : FheEngine R S ε) (means : Handle → SupportedFheCiphertexts R → Prop)
    (operations : List (DFGOp R)) (done : List ℕ) (s : List (OpNode R) × Inserts R ε) : Prop where
  waiting : ∀ i op, operations[i]? = some op → i ∉ done →
    ∃ node, s.1[i]? = some node ∧ Waits means op node
  results : ∀ e ∈ s.2, OutcomeMeans eng means e.1 e.2

section Run

variable {operations : List (DFGOp R)} {edges : Dag (OpNode R) ℕ} {txInputs : TxInputs R}

/-- What a consumer receives is what it waits for. -/
theorem Waits.update (hedges : edges.edges = dependencePairs operations)
    (hcount : ∀ op ∈ operations, op.inputs.length ≤ 256) {producer : DFGOp R} {nidx : ℕ}
    (hproducer : operations[nidx]? = some producer) {ct : SupportedFheCiphertexts R}
    (hct : means producer.outputHandle ct) {i : ℕ} {op : DFGOp R} (hop : operations[i]? = some op)
    {node : OpNode R} (h : Waits means op node) :
    Waits means op { node with inputs := node.inputs.mapIdx fun pos x =>
      if (edges.outgoing nidx).any (fun e => e.target == i && e.weight == pos) then .value ct
      else x } where
  opcode := h.opcode
  resultHandle := h.resultHandle
  received := by
    rw [List.forall₂_iff_get]
    refine ⟨by simpa using h.received.length_eq, fun pos hpos hpos' => ?_⟩
    have hold := (List.forall₂_iff_get.mp h.received).2 pos hpos (by simpa using hpos')
    simp only [List.get_eq_getElem, List.getElem_mapIdx] at hold ⊢
    split
    · rename_i hany
      obtain ⟨e, he, htarget⟩ := List.any_eq_true.mp hany
      simp only [Bool.and_eq_true, beq_iff_eq] at htarget
      obtain ⟨rfl, rfl⟩ := htarget
      obtain ⟨hmem, rfl⟩ := Dag.mem_outgoing.mp he
      obtain ⟨op', dh, pos', hop', hdh, hproduced, hweight⟩ :=
        mem_dependencePairs.mp (hedges ▸ hmem)
      obtain rfl : op' = op := Option.some.inj (hop'.symm.trans hop)
      have hlt := (List.getElem?_eq_some_iff.mp hdh).1
      have hpos' : e.weight = pos' := hweight.trans
        (Nat.mod_eq_of_lt (hlt.trans_le (hcount op' (List.mem_of_getElem? hop))))
      obtain ⟨p, hp, rfl⟩ := getElem?_producedHandles hproduced
      obtain rfl : p = producer := Option.some.inj (hp.symm.trans hproducer)
      refine .inr ⟨_, ct, ?_, rfl, hct⟩
      subst hpos'
      exact (List.getElem?_eq_some_iff.mp hdh).2
    · exact hold

/-- Running one node. -/
theorem RunMeans.step (hkeeps : KeepsMeaning eng means)
    (htx : txInputs.All (InputMeans eng means)) (hedges : edges.edges = dependencePairs operations)
    (hops : ∀ op ∈ operations, SoundOp eng means op) {done : List ℕ}
    {s : List (OpNode R) × Inserts R ε} (hs : RunMeans eng means operations done s) {nidx : ℕ}
    (hlt : nidx < operations.length) (hnew : nidx ∉ done) :
    RunMeans eng means operations (done ++ [nidx]) (executeNode eng edges txInputs s nidx) := by
  have hop := List.getElem?_eq_getElem hlt
  obtain ⟨node, hnode, hwaits⟩ := hs.waiting nidx _ hop hnew
  have hsound := hops _ (List.mem_of_getElem? hop)
  refine ⟨fun i op' hop' hi => ?_, ?_⟩
  · rw [List.mem_append, not_or, List.mem_singleton] at hi
    obtain ⟨node', hnode', hwaits'⟩ := hs.waiting i op' hop' hi.1
    have hset : ∀ n : OpNode R, (s.1.set nidx n)[i]? = some node' := fun n => by
      rw [List.getElem?_set_ne (Ne.symm hi.2), hnode']
    unfold executeNode
    rw [hnode]
    dsimp only
    split
    · exact ⟨node', hset _, hwaits'⟩
    · exact ⟨node', hset _, hwaits'⟩
    · rename_i v htry
      have hout : nodeOutcome eng txInputs node = some (.ok (node.taskResult v)) := by
        rw [nodeOutcome, htry]
        rfl
      have hct := (nodeOutcome_means hkeeps htx hsound hwaits hout _ rfl).1
      rw [hwaits.resultHandle] at hct
      refine ⟨_, ?_, hwaits'.update hedges (fun op h => (hops op h).count) hop hct hop'⟩
      rw [getElem?_foldl_updateConsumer, hset]
      rfl
  · intro e he
    rw [executeNode_snd hnode, List.mem_append] at he
    rcases he with he | he
    · exact hs.results e he
    · obtain ⟨o, ho, rfl⟩ := List.mem_map.mp he
      exact nodeOutcome_means hkeeps htx hsound hwaits (Option.mem_toList.mp ho)

/-- Running a topological order of the nodes, up to any point. -/
theorem runMeans_foldl (hkeeps : KeepsMeaning eng means)
    (htx : txInputs.All (InputMeans eng means)) (hedges : edges.edges = dependencePairs operations)
    (hops : ∀ op ∈ operations, SoundOp eng means op) {ts : List ℕ} (hnodup : ts.Nodup)
    (hlt : ∀ i ∈ ts, i < operations.length) {pre : List ℕ} (hpre : pre <+: ts) :
    RunMeans eng means operations pre
      (pre.foldl (executeNode eng edges txInputs) (operations.map DFGOp.toNode, [])) := by
  induction pre using List.reverseRecOn with
  | nil =>
    refine ⟨fun i op hop _ => ⟨op.toNode, ?_, waits_toNode op⟩, by simp⟩
    rw [List.foldl_nil, List.getElem?_map, hop, Option.map_some]
  | append_singleton pre nidx ih =>
    rw [List.foldl_append, List.foldl_cons, List.foldl_nil]
    obtain ⟨post, rfl⟩ := hpre
    have hpast := ih ((List.prefix_append _ _).trans (List.prefix_append _ _))
    refine hpast.step hkeeps htx hedges hops (hlt nidx (by simp)) fun hmem => ?_
    rw [List.append_assoc, List.nodup_append] at hnodup
    exact hnodup.2.2 nidx hmem nidx (by simp) rfl

end Run

/-! ## Components and tasks -/

/-- The graph is made of sound operations. -/
def OperationsSound (eng : FheEngine R S ε) (means : Handle → SupportedFheCiphertexts R → Prop)
    (dfg : DFGraph R) : Prop :=
  ∃ operations : List (DFGOp R), dfg.graph.nodes = operations.map DFGOp.toNode ∧
    dfg.graph.edges = dependencePairs operations ∧ ∀ op ∈ operations, SoundOp eng means op

theorem operationsSound_empty : OperationsSound eng means (DFGraph.empty : DFGraph R) :=
  ⟨[], rfl, rfl, by simp⟩

theorem outcomeMeans_error {handle : Handle} {e : TaskError ε} :
    OutcomeMeans eng means handle (.error e) := nofun

theorem failAllowed_means {dfg : DFGraph R} {e : SchedulerError} :
    ∀ x ∈ (failAllowed dfg e : Inserts R ε), OutcomeMeans eng means x.1 x.2 := by
  rintro ⟨h, o⟩ hmem
  obtain ⟨-, rfl⟩ := mem_failAllowed hmem
  exact outcomeMeans_error

theorem executeOperations_means (hkeeps : KeepsMeaning eng means) (T : Toposort) {dfg : DFGraph R}
    (hdfg : OperationsSound eng means dfg) {txInputs : TxInputs R}
    (htx : txInputs.All (InputMeans eng means)) :
    ∀ x ∈ executeOperations eng T dfg txInputs, OutcomeMeans eng means x.1 x.2 := by
  obtain ⟨operations, hnodes, hedges, hops⟩ := hdfg
  unfold executeOperations
  split
  · exact failAllowed_means
  · rename_i ts hts
    have htop := Dag.toposort_sound hts
    rw [hnodes]
    refine (runMeans_foldl hkeeps htx hedges hops htop.nodup (fun i hi => ?_)
      List.prefix_rfl).results
    have hlt := htop.mem_iff.mp hi
    rwa [Dag.nodeCount, hnodes, List.length_map] at hlt

/-- Re-randomised inputs are meant. -/
theorem reRandomise_means (hkeeps : KeepsMeaning eng means) {m m' : TxInputs R}
    (hm : m.All (InputMeans eng means)) {tid : Handle} {cid : ℕ}
    (h : reRandomiseTransactionInputs eng m tid cid = .ok m') :
    m'.All (InputMeans eng means) := by
  unfold reRandomiseTransactionInputs at h
  split at h
  · cases h
  rename_i context m₁ h₁
  split at h
  · cases h
  rename_i k m₂ h₂
  cases h
  have hopened : m₁.All (InputMeans eng means) := by
    refine hm.traverse (fun handle s i s' i' hi hok => ?_) h₁
    obtain _ | ⟨val, _ | _⟩ | ⟨t, c, allowed⟩ := i
    · cases hok
    · cases hok
      exact hi
    · cases hok
      exact hi
    · obtain ⟨ct, hct, hmeans⟩ := hi
      simp only [decompressInput, hct] at hok
      cases hok
      exact hmeans
  refine hopened.traverse (fun handle s i s' i' hi hok => ?_) h₂
  obtain _ | ⟨val, _ | _⟩ | ⟨t, c, allowed⟩ := i
  · cases hok
  · cases hok
    exact hi
  · simp only [reRandomiseInput] at hok
    split at hok
    · cases hok
    split at hok
    · cases hok
    · rename_i hval
      cases hok
      exact hkeeps.reRandomise hi hval
  · cases hok

/-- The arguments of a component. -/
def ArgsMean (eng : FheEngine R S ε) (means : Handle → SupportedFheCiphertexts R → Prop)
    (a : ComponentArgs R) : Prop :=
  OperationsSound eng means a.graph ∧ a.inputs.All (InputMeans eng means)

theorem executeTransaction_means (hkeeps : KeepsMeaning eng means) (T : Toposort)
    {res : HashMap Handle (OpOutcome R ε)} (hres : res.All (OutcomeMeans eng means))
    {a : ComponentArgs R} (ha : ArgsMean eng means a) :
    ∀ x ∈ executeTransaction eng T res a, OutcomeMeans eng means x.1 x.2 := by
  unfold executeTransaction fillInputs
  dsimp only
  split
  · exact failAllowed_means
  rename_i filled hfilled
  split at hfilled
  · cases hfilled
    have hinputs : (Delivers (fun h => okResult (res.get? h)) a.inputs).All
        (InputMeans eng means) := by
      refine ha.2.mapVals fun handle i hi => ?_
      cases i with
      | some i => exact hi
      | none =>
        rw [fillInput]
        cases hget : res.get? handle with
        | none => trivial
        | some o =>
          cases o with
          | error e => trivial
          | ok r => exact (hres.get? hget r rfl).1
    split
    · exact failAllowed_means
    · rename_i hrandomised
      exact executeOperations_means hkeeps T ha.1 (reRandomise_means hkeeps hinputs hrandomised)
  · cases hfilled

/-- The results of a task, whatever its components are. -/
theorem executePartition_means (hkeeps : KeepsMeaning eng means) (T : Toposort)
    {transactions : List (ComponentArgs R)} (h : ∀ a ∈ transactions, ArgsMean eng means a) :
    (executePartition eng T transactions).All (OutcomeMeans eng means) := by
  unfold executePartition
  suffices hall : ∀ res : HashMap Handle (OpOutcome R ε), res.All (OutcomeMeans eng means) →
      (transactions.foldl (fun res a => res.insertAll (executeTransaction eng T res a)) res).All
        (OutcomeMeans eng means) from hall _ HashMap.all_empty
  induction transactions with
  | nil => exact fun res hres => hres
  | cons a transactions ih =>
    rw [List.forall_mem_cons] at h
    exact fun res hres => ih h.2 _ (hres.insertAll (executeTransaction_means hkeeps T hres h.1))

/-! ## The component graph -/

def ComponentMeans (eng : FheEngine R S ε) (means : Handle → SupportedFheCiphertexts R → Prop)
    (n : ComponentNode R) : Prop := ArgsMean eng means n.toArgs

/-- All components are sound, and all stored results are meant. -/
structure GraphMeans (eng : FheEngine R S ε) (means : Handle → SupportedFheCiphertexts R → Prop)
    (g : DFComponentGraph R ε) : Prop where
  components : ∀ n ∈ g.graph.nodes, ComponentMeans eng means n
  results : ∀ r ∈ g.results, ∀ cct, r.compressedCt = .ok cct →
    StoredMeans eng means r.handle cct

section Graph

variable {g g' : DFComponentGraph R ε}

/-- A change of one component that keeps it sound. -/
theorem GraphMeans.modifyNode (h : GraphMeans eng means g) (i : ℕ)
    {f : ComponentNode R → ComponentNode R}
    (hf : ∀ n, ComponentMeans eng means n → ComponentMeans eng means (f n)) :
    GraphMeans eng means { g with graph := g.graph.modifyNode i f } := by
  refine ⟨fun n hn => ?_, h.results⟩
  obtain ⟨j, hj⟩ := List.getElem?_of_mem hn
  rw [Dag.nodes_modifyNode, List.getElem?_modify, Option.map_eq_map,
    Option.map_eq_some_iff] at hj
  obtain ⟨n', hn', rfl⟩ := hj
  have hold := h.components n' (List.mem_of_getElem? hn')
  split
  · exact hf n' hold
  · exact hold

theorem GraphMeans.updateNode (h : GraphMeans eng means g) {i : ℕ}
    {f : ComponentNode R → ComponentNode R}
    (hf : ∀ n, ComponentMeans eng means n → ComponentMeans eng means (f n))
    (hok : g.updateNode i f = .ok g') : GraphMeans eng means g' := by
  unfold DFComponentGraph.updateNode at hok
  split at hok
  · cases hok
    exact h.modifyNode i hf
  · cases hok

/-- An input that is meant. -/
theorem GraphMeans.addInput (h : GraphMeans eng means g) {handle : Handle} {input : DFGTxInput R}
    (hinput : InputMeans eng means handle (some input)) (hok : g.addInput handle input = .ok g') :
    GraphMeans eng means g' := by
  unfold DFComponentGraph.addInput at hok
  split at hok
  · refine foldlM_invariant (fun g i g' hg hstep => ?_) h hok
    refine hg.updateNode ?_ hstep
    exact fun n hn => ⟨hn.1, hn.2.modify fun _ _ => hinput⟩
  · cases hok
    exact h

theorem GraphMeans.setUncomputable {edges : Dag Unit Unit} {fuel i : ℕ}
    (h : GraphMeans eng means g)
    (hok : DFComponentGraph.setUncomputable edges fuel g i = .ok g') :
    GraphMeans eng means g' := by
  induction fuel generalizing g g' i with
  | zero =>
    cases hok
    exact h
  | succ fuel ih =>
    unfold DFComponentGraph.setUncomputable at hok
    split at hok
    · cases hok
    · rename_i marked hupdate
      have hmarked : GraphMeans eng means marked := by
        refine h.updateNode ?_ hupdate
        exact fun n hn => hn
      exact foldlM_invariant (fun g e g' hg hstep => ih hg hstep) hmarked hok

theorem GraphMeans.saveResult (h : GraphMeans eng means g) {producer : ℕ} {handle : Handle}
    {o : OpOutcome R ε} (ho : OutcomeMeans eng means handle o)
    (hok : g.saveResult producer handle o = .ok g') : GraphMeans eng means g' := by
  -- the results are the old ones and the new one
  have hnew : ∀ r : DFGTxResult ε, (∀ cct, r.compressedCt = .ok cct →
      StoredMeans eng means r.handle cct) →
      GraphMeans eng means { g with results := g.results ++ [r] } := by
    intro r hr
    refine ⟨h.components, fun r' hr' => ?_⟩
    rcases List.mem_append.mp hr' with hr' | hr'
    · exact h.results r' hr'
    · rw [List.mem_singleton.mp hr']
      exact hr
  unfold DFComponentGraph.saveResult at hok
  split at hok
  · cases hok
  cases o with
  | error e =>
    cases hok
    exact hnew _ nofun
  | ok r =>
    dsimp only at hok
    split at hok
    · cases hok
    · rename_i cct hcct
      cases hok
      refine hnew _ fun cct' hcct' => ?_
      cases hcct'
      exact (ho r rfl).2 cct hcct

theorem GraphMeans.addOutput {edges : Dag Unit Unit} (h : GraphMeans eng means g) {handle : Handle}
    {o : OpOutcome R ε} (ho : OutcomeMeans eng means handle o)
    (hok : DFComponentGraph.addOutput edges g handle o = .ok g') : GraphMeans eng means g' := by
  unfold DFComponentGraph.addOutput at hok
  split at hok
  · cases hok
    exact h
  cases o with
  | error e =>
    dsimp only at hok
    split at hok
    · cases hok
    · rename_i hmark
      exact (h.setUncomputable hmark).saveResult ho hok
  | ok r =>
    dsimp only at hok
    split at hok
    · cases hok
    · rename_i forwarded hforward
      have hg : GraphMeans eng means forwarded := by
        refine foldlM_invariant (fun g e g' hg hstep => ?_) h hforward
        refine GraphMeans.updateNode hg ?_ hstep
        exact fun n hn => ⟨hn.1, hn.2.modify fun _ _ => (ho r rfl).1⟩
      split at hok
      · exact hg.saveResult ho hok
      · cases hok
        exact hg

end Graph

/-! ## The scheduler -/

/-- The component graph and the running tasks are sound. -/
structure StateMeans (eng : FheEngine R S ε) (means : Handle → SupportedFheCiphertexts R → Prop)
    (s : SchedState R ε) : Prop where
  graph : GraphMeans eng means s.graph
  running : ∀ t ∈ s.running, ∀ a ∈ t.args, ArgsMean eng means a

section Schedule

variable {s s' : SchedState R ε}

theorem StateMeans.spawnTask (h : StateMeans eng means s) {skip : Bool} {index : ℕ}
    {node : ExecNode} (hok : spawnTask skip s index node = .ok s') : StateMeans eng means s' := by
  unfold Scheduler.spawnTask at hok
  split at hok
  · cases hok
  rename_i graph components htake
  cases hok
  have htaken : GraphMeans eng means graph ∧ ∀ c ∈ components, ArgsMean eng means c.2 := by
    refine foldlM_invariant (P := fun x : DFComponentGraph R ε × List (ℕ × ComponentArgs R) =>
      GraphMeans eng means x.1 ∧ ∀ c ∈ x.2, ArgsMean eng means c.2) (fun x nidx x' hx hstep => ?_)
      ⟨h.graph, by simp⟩ htake
    unfold takeComponent at hstep
    split at hstep
    · cases hstep
    rename_i tx htx
    split at hstep
    · cases hstep
      exact hx
    · cases hstep
      refine ⟨hx.1.modifyNode nidx fun _ _ => ⟨operationsSound_empty, HashMap.all_empty⟩,
        fun c hc => ?_⟩
      rcases List.mem_append.mp hc with hc | hc
      · exact hx.2 c hc
      · rw [List.mem_singleton.mp hc]
        exact hx.1.components tx (List.mem_of_getElem? htx)
  refine ⟨htaken.1, fun t ht => ?_⟩
  rcases List.mem_append.mp ht with ht | ht
  · exact h.running t ht
  · rw [List.mem_singleton.mp ht]
    intro a ha
    obtain ⟨c, hc, rfl⟩ := List.mem_map.mp ha
    exact htaken.2 c hc

theorem StateMeans.completeTask (h : StateMeans eng means s) {edges taskDependences : Dag Unit Unit}
    {t : Task R ε} {rest : List (Task R ε)} (hrest : ∀ t' ∈ rest, t' ∈ s.running)
    {results : Inserts R ε} (hresults : ∀ x ∈ results, OutcomeMeans eng means x.1 x.2)
    (hok : completeTask edges taskDependences s t rest results = .ok s') :
    StateMeans eng means s' := by
  unfold Scheduler.completeTask at hok
  split at hok
  · cases hok
  rename_i graph hstore
  have hgraph : GraphMeans eng means graph :=
    foldlM_invariant_mem (fun _ x hx _ hg hadd => hg.addOutput (hresults x hx) hadd) h.graph hstore
  refine foldlM_invariant (fun s e s' hs hstep => ?_)
    (⟨hgraph, fun t' ht' => h.running t' (hrest t' ht')⟩ : StateMeans eng means
      ⟨graph, s.executionGraph, rest, s.joined ++ [(t, results)]⟩) hok
  unfold releaseDependent at hstep
  split at hstep
  · cases hstep
  dsimp only at hstep
  split at hstep
  · exact StateMeans.spawnTask (by exact ⟨hs.graph, hs.running⟩) hstep
  · cases hstep
    exact ⟨hs.graph, hs.running⟩

/-- Whichever task is joined next, and in whatever order its results come. -/
theorem Step.stateMeans (hkeeps : KeepsMeaning eng means) {T : Toposort}
    {edges taskDependences : Dag Unit Unit} (h : StateMeans eng means s)
    (hstep : Step eng T edges taskDependences s s') : StateMeans eng means s' := by
  obtain ⟨hrunning, hresults, hok⟩ := hstep
  rename_i before after t results
  have ht : t ∈ s.running := by simp [hrunning]
  have hall := executePartition_means hkeeps T (h.running t ht)
  refine h.completeTask (fun t' ht' => ?_) (fun x hx => hall x (hresults.mem_iff.mp hx)) hok
  rw [hrunning]
  rcases List.mem_append.mp ht' with ht' | ht'
  · exact List.mem_append_left _ ht'
  · exact List.mem_append_right _ (List.mem_cons_of_mem _ ht')

/-- All results that any run of the scheduler stores are meant. -/
theorem Reachable.graphMeans (hkeeps : KeepsMeaning eng means) {T : Toposort}
    {strategy : PartitionStrategy} {g : DFComponentGraph R ε} (hg : GraphMeans eng means g)
    (h : Reachable eng T strategy g s) : GraphMeans eng means s.graph := by
  obtain ⟨executionGraph, s₀, -, hstart, hsteps⟩ := h
  have hstate : StateMeans eng means s₀ := by
    refine foldlM_invariant (fun s idx s' hs hstep => ?_)
      (⟨hg, by simp⟩ : StateMeans eng means ⟨g, executionGraph, [], []⟩) hstart
    unfold primeNode at hstep
    split at hstep
    · cases hstep
    split at hstep
    · exact hs.spawnTask hstep
    · cases hstep
      exact hs
  have hfinal : StateMeans eng means s := by
    induction hsteps with
    | refl => exact hstate
    | tail _ hstep ih => exact hstep.stateMeans hkeeps ih
  exact hfinal.graph

end Schedule

end Fhevm.Scheduler
