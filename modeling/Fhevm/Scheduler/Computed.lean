import Fhevm.Scheduler.BuildComponents
import Fhevm.Scheduler.Strategies

/-!
# Which component computed a result

A task hands its results back by handle only, and a result is attributed to the
recorded producer of its handle. The components of a task with what each of them
kept are its computation; a result belongs to the last component of the task
that kept something under its handle.

## Main definitions

* `Computed`, `computed` — the components that a task ran.
* `Recorded` — the errors and allowed results of a task are recorded to the
  components that computed them.
* `Attributed` — every stored result, mark and transaction is the right one.
* `attributed_of_recorded` — runs whose tasks are all recorded.
-/

namespace Fhevm.Scheduler

open Foundation

variable {R S ε : Type}

/-! ## The computation of a task -/

/-- A component run by a task: what was kept before it, and what it keeps. -/
structure Computed (R ε : Type) where
  index : ℕ
  args : ComponentArgs R
  before : Kept R ε
  inserts : Inserts R ε

/-- What the component keeps under a handle. -/
def Computed.own (x : Computed R ε) (h : Handle) : Option (OpOutcome R ε) :=
  (HashMap.empty.insertAll x.inserts).get? h

def computedFrom (eng : FheEngine R S ε) (T : Toposort) (res : Kept R ε) :
    List (ℕ × ComponentArgs R) → List (Computed R ε)
  | [] => []
  | (c, a) :: as =>
    let inserts := executeTransaction eng T res a
    ⟨c, a, res, inserts⟩ :: computedFrom eng T (res.insertAll inserts) as

/-- The components that a task runs, in their order. -/
def computed (eng : FheEngine R S ε) (T : Toposort) (t : Task R ε) : List (Computed R ε) :=
  computedFrom eng T HashMap.empty t.components

section Computation

variable {eng : FheEngine R S ε} {T : Toposort}

theorem foldl_computedFrom (cs : List (ℕ × ComponentArgs R)) (res : Kept R ε) :
    (cs.map Prod.snd).foldl (fun res a => res.insertAll (executeTransaction eng T res a)) res =
      ((computedFrom eng T res cs).map Computed.inserts).foldl HashMap.insertAll res := by
  induction cs generalizing res with
  | nil => rfl
  | cons c cs ih => exact ih _

theorem executePartition_eq (t : Task R ε) : executePartition eng T t.args =
    ((computed eng T t).map Computed.inserts).foldl HashMap.insertAll HashMap.empty :=
  foldl_computedFrom t.components HashMap.empty

/-- A component of a computation ran after those before it. -/
theorem computedFrom_split {cs : List (ℕ × ComponentArgs R)} {res : Kept R ε}
    {pre post : List (Computed R ε)} {x : Computed R ε}
    (h : computedFrom eng T res cs = pre ++ x :: post) :
    x.before = (pre.map Computed.inserts).foldl HashMap.insertAll res ∧
      x.inserts = executeTransaction eng T x.before x.args ∧ (x.index, x.args) ∈ cs := by
  induction cs generalizing res pre with
  | nil => cases pre <;> cases h
  | cons c cs ih =>
    cases pre with
    | nil =>
      simp only [computedFrom, List.nil_append, List.cons.injEq] at h
      rw [← h.1]
      exact ⟨rfl, rfl, List.mem_cons_self⟩
    | cons y pre =>
      simp only [computedFrom, List.cons_append, List.cons.injEq] at h
      obtain ⟨rfl, h⟩ := h
      obtain ⟨hbefore, hins, hmem⟩ := ih h
      exact ⟨hbefore, hins, List.mem_cons_of_mem _ hmem⟩

theorem map_computedFrom (eng : FheEngine R S ε) (T : Toposort)
    (cs : List (ℕ × ComponentArgs R)) (res : Kept R ε) :
    (computedFrom eng T res cs).map (fun x => (x.index, x.args)) = cs := by
  induction cs generalizing res with
  | nil => rfl
  | cons c cs ih => exact congrArg (c :: ·) (ih _)

/-- A result of a task is that of the last component that kept one under its handle. -/
theorem mem_executePartition_iff {t : Task R ε} {h : Handle} {o : OpOutcome R ε} :
    (h, o) ∈ (executePartition eng T t.args).entries ↔
      ∃ pre x post, computed eng T t = pre ++ x :: post ∧ x.own h = some o ∧
        ∀ y ∈ post, h ∉ y.inserts.map Prod.fst := by
  rw [← HashMap.get?_eq_some, executePartition_eq, HashMap.get?_foldl_insertAll]
  constructor
  · rintro (⟨pre, es, post, hsplit, hget, hpost⟩ | ⟨hget, -⟩)
    · obtain ⟨l₁, l₂, hl, rfl, hl₂⟩ := List.map_eq_append_iff.mp hsplit
      obtain ⟨x, l₃, rfl, rfl, rfl⟩ := List.map_eq_cons_iff.mp hl₂
      exact ⟨l₁, x, l₃, hl, hget, fun y hy => hpost _ (List.mem_map_of_mem hy)⟩
    · simp at hget
  · rintro ⟨pre, x, post, hsplit, hget, hpost⟩
    refine .inl ⟨pre.map Computed.inserts, x.inserts, post.map Computed.inserts, by simp [hsplit],
      hget, fun es hes => ?_⟩
    obtain ⟨y, hy, rfl⟩ := List.mem_map.mp hes
    exact hpost y hy

end Computation

/-! ## Attribution -/

/-- A kept result that is stored: an error, or an allowed ciphertext. -/
def isStored : OpOutcome R ε → Bool
  | .ok r => r.isAllowed
  | .error _ => true

/-- Everything a component of the task keeps for storing is recorded to that
component, and no later component of the task keeps something under the same handle. -/
def Recorded (eng : FheEngine R S ε) (T : Toposort) (G : DFComponentGraph R ε) (t : Task R ε) :
    Prop :=
  ∀ pre x post, computed eng T t = pre ++ x :: post → ∀ h o, x.own h = some o → isStored o = true →
    G.allowedMap.get? h = some x.index ∧ ∀ y ∈ post, h ∉ y.inserts.map Prod.fst

/-- The results and marks of a state are those of the components that computed them. -/
structure Attributed (eng : FheEngine R S ε) (T : Toposort) (G : DFComponentGraph R ε)
    (s : SchedState R ε) : Prop where
  /-- A stored result carries the transaction of a component that computed it. -/
  results_own : ∀ r ∈ s.graph.results, ∃ e ∈ s.joined, ∃ x ∈ computed eng T e.1,
    ∃ o, x.own r.handle = some o ∧ r ∈ savedResults x.args.transactionId r.handle o
  /-- A marked component depends on one that computed an error. -/
  marked_by_producer : ∀ (c : ℕ) (n : ComponentNode R), s.graph.graph.nodes[c]? = some n →
    n.isUncomputable = true → ∃ e ∈ s.joined, ∃ x ∈ computed eng T e.1,
      ∃ h err, x.own h = some (.error err) ∧ Reaches G.graph.arcs x.index c
  /-- Every component finds its own results stored under its transaction. -/
  every_producer : ∀ e ∈ s.joined, ∀ x ∈ computed eng T e.1, ∀ h o, x.own h = some o →
    ∀ r ∈ savedResults x.args.transactionId h o, r ∈ s.graph.results

theorem isStored_of_mem {tid h : Handle} {o : OpOutcome R ε} {r : DFGTxResult ε}
    (hr : r ∈ savedResults tid h o) : isStored o = true := by
  cases o with
  | error e => rfl
  | ok t =>
    simp only [savedResults] at hr
    split at hr
    · assumption
    · simp at hr

section Attribution

variable {eng : FheEngine R S ε} {T : Toposort} {G : DFComponentGraph R ε} {X : Dag ExecNode Unit}
  {s : SchedState R ε}

/-- What a computed component is: a component of the graph, with its transaction. -/
theorem SchedInv.mem_computed (hs : SchedInv eng T G X s) {e : Task R ε × Inserts R ε}
    (he : e ∈ s.joined) {x : Computed R ε} (hx : x ∈ computed eng T e.1) :
    ∃ n, G.graph.nodes[x.index]? = some n ∧ x.args.transactionId = n.transactionId ∧
      x.args.graph = n.graph ∧ x.args.inputs.keys = n.inputs.keys := by
  obtain ⟨pre, post, hsplit⟩ := List.append_of_mem he
  obtain ⟨past, -, hafter⟩ := hs.joined pre e post hsplit
  have hmem : (x.index, x.args) ∈ e.1.components := by
    rw [← map_computedFrom eng T e.1.components HashMap.empty]
    exact List.mem_map_of_mem hx
  rw [hafter.eq_taskAt] at hmem
  simp only [taskAt, List.mem_filterMap, argsAt, Option.map_eq_some_iff, Prod.mk.injEq] at hmem
  obtain ⟨c, -, _, ⟨n, hn, rfl⟩, rfl, hargs⟩ := hmem
  refine ⟨n, hn, by rw [← hargs]; rfl, by rw [← hargs]; rfl, ?_⟩
  rw [← hargs]
  exact keys_delivers _ _

theorem SchedInv.mem_log (hs : SchedInv eng T G X s) {h : Handle} {o : OpOutcome R ε} :
    (h, o) ∈ s.log ↔ ∃ e ∈ s.joined, ∃ pre x post, computed eng T e.1 = pre ++ x :: post ∧
      x.own h = some o ∧ ∀ y ∈ post, h ∉ y.inserts.map Prod.fst := by
  simp only [SchedState.log, List.mem_flatMap]
  constructor
  · rintro ⟨e, he, hmem⟩
    exact ⟨e, he, mem_executePartition_iff.mp ((hs.results e he).mem_iff.mp hmem)⟩
  · rintro ⟨e, he, hx⟩
    exact ⟨e, he, (hs.results e he).mem_iff.mpr (mem_executePartition_iff.mpr hx)⟩

theorem SchedInv.attributed (hs : SchedInv eng T G X s)
    (hrec : ∀ e ∈ s.joined, Recorded eng T G e.1) : Attributed eng T G s where
  results_own r hr := by
    rw [hs.graph_eq.1] at hr
    obtain ⟨h, o, p, tx, hmem, hp, htx, hr⟩ := mem_storedResults.mp hr
    obtain ⟨rfl, -⟩ := handle_of_mem_savedResults hr
    obtain ⟨e, he, pre, x, post, hsplit, hown, -⟩ := hs.mem_log.mp hmem
    have hx : x ∈ computed eng T e.1 := by simp [hsplit]
    obtain ⟨hpx, -⟩ := hrec e he pre x post hsplit _ o hown (isStored_of_mem hr)
    obtain ⟨n, hn, htid, -⟩ := hs.mem_computed he hx
    rw [hp] at hpx
    cases hpx
    rw [htx] at hn
    cases hn
    exact ⟨e, he, x, hx, o, hown, htid ▸ hr⟩
  marked_by_producer c n hn hmark := by
    have hflag : flagged G s.log c = true := by
      have hmarks := congrArg (·[c]?) hs.graph_eq.2
      simp only [List.getElem?_map, hn, Option.map_some, hmark] at hmarks
      obtain ⟨i, hi, hf⟩ := Option.map_eq_some_iff.mp hmarks.symm
      obtain ⟨hlt, rfl⟩ := List.getElem?_eq_some_iff.mp hi
      simpa using hf
    obtain ⟨h, err, p, hmem, hp, hreach⟩ := flagged_iff.mp hflag
    obtain ⟨e, he, pre, x, post, hsplit, hown, -⟩ := hs.mem_log.mp hmem
    obtain ⟨hpx, -⟩ := hrec e he pre x post hsplit h _ hown rfl
    rw [hp] at hpx
    cases hpx
    exact ⟨e, he, x, by simp [hsplit], h, err, hown, hreach⟩
  every_producer e he x hx h o hown r hr := by
    obtain ⟨pre, post, hsplit⟩ := List.append_of_mem hx
    obtain ⟨hp, hpost⟩ := hrec e he pre x post hsplit h o hown (isStored_of_mem hr)
    obtain ⟨n, hn, htid, -⟩ := hs.mem_computed he hx
    rw [hs.graph_eq.1]
    exact mem_storedResults.mpr ⟨h, o, x.index, n,
      hs.mem_log.mpr ⟨e, he, pre, x, post, hsplit, hown, hpost⟩, hp, hn, htid ▸ hr⟩

end Attribution

/-- In a run all of whose joined tasks are recorded, every stored result, every
mark and every transaction is that of the component that computed it. -/
theorem attributed_of_recorded (eng : FheEngine R S ε) (T : Toposort)
    (strategy : PartitionStrategy) {G : DFComponentGraph R ε} (hG : G.Loaded) {s : SchedState R ε}
    (hs : Reachable eng T strategy G s) (hrec : ∀ e ∈ s.joined, Recorded eng T G e.1) :
    Attributed eng T G s := by
  obtain ⟨X, -, -, hinv⟩ := hs.inv hG.ready
  exact hinv.attributed hrec

/-! ## Two transactions with the same handle -/

/-- A check of every element of a list against those after it. -/
def checkEach {α : Type} (p : α → List α → Bool) : List α → Bool
  | [] => true
  | x :: xs => p x xs && checkEach p xs

theorem of_checkEach {α : Type} {p : α → List α → Bool} {l pre post : List α} {x : α}
    (h : checkEach p l = true) (hsplit : l = pre ++ x :: post) : p x post = true := by
  subst hsplit
  induction pre with
  | nil => exact (Bool.and_eq_true_iff.mp h).1
  | cons y pre ih => exact ih (Bool.and_eq_true_iff.mp h).2

/-- A component of a task and those after it, as `Recorded` wants them. -/
def recordedCheck (G : DFComponentGraph R ε) (x : Computed R ε) (post : List (Computed R ε)) :
    Bool :=
  x.inserts.all fun e => !(x.own e.1).any isStored ||
    (decide (G.allowedMap.get? e.1 = some x.index) &&
      post.all (fun y => !(y.inserts.map Prod.fst).contains e.1))

theorem Computed.mem_inserts {x : Computed R ε} {h : Handle} {o : OpOutcome R ε}
    (hown : x.own h = some o) : (h, o) ∈ x.inserts := by
  rcases HashMap.mem_of_get?_insertAll hown with hmem | hmem
  · simp at hmem
  · exact hmem

theorem recorded_of_check {eng : FheEngine R S ε} {T : Toposort} {G : DFComponentGraph R ε}
    {t : Task R ε} (hcheck : checkEach (recordedCheck G) (computed eng T t) = true) :
    Recorded eng T G t := by
  intro pre x post hsplit h o hown hstored
  have hx := of_checkEach hcheck hsplit
  simp only [recordedCheck, List.all_eq_true] at hx
  simpa [hown, hstored] using hx _ (Computed.mem_inserts hown)

/-- A batch, run to its end under the parallel strategy. -/
def runBatch (batch : List (Handle × List (DFGOp Term))) :
    Except SchedulerError (DFComponentGraph Term FhevmError × SchedState Term FhevmError) :=
  match buildBatchGraph Toposort.kahn batch with
  | .error e => .error e
  | .ok G =>
    match runInOrder symbolicEngine Toposort.kahn .maxParallelism G with
    | .error e => .error e
    | .ok s => .ok (G, s)

theorem runBatch_reachable {batch : List (Handle × List (DFGOp Term))}
    {G : DFComponentGraph Term FhevmError} {s : SchedState Term FhevmError}
    (h : runBatch batch = .ok (G, s)) :
    G.Loaded ∧ Reachable symbolicEngine Toposort.kahn .maxParallelism G s := by
  unfold runBatch at h
  split at h
  · cases h
  rename_i G' hG
  split at h
  · cases h
  rename_i s' hs
  cases h
  exact ⟨buildBatchGraph_loaded hG, runInOrder_reachable hs⟩

/-- Two transactions that compute the same handle; the first one only passes it on. -/
def passedOnBatch : List (Handle × List (DFGOp Term)) :=
  [([10], [⟨[1], .fheTrivialEncrypt, [.value (.scalar [5]), .value (.scalar [2])], true⟩]),
    ([11], [⟨[1], .fheTrivialEncrypt, [.value (.scalar [5]), .value (.scalar [2])], false⟩,
      ⟨[2], .fheNeg, [.dependence [1]], true⟩])]

theorem attributed_of_recorded_passed_on : ∃ (G : DFComponentGraph Term FhevmError)
    (s : SchedState Term FhevmError), Final s ∧ s.graph.results.map DFGTxResult.handle ≠ [] ∧
      ¬ SingleProducer G ∧ Attributed symbolicEngine Toposort.kahn G s := by
  obtain ⟨⟨G, s⟩, hrun, hcheck⟩ := exists_ok_of_check (x := runBatch passedOnBatch)
    (P := fun r => r.2.running.isEmpty && decide (r.2.graph.results.map DFGTxResult.handle ≠ []) &&
      (r.1.graph.nodes.map (fun n => n.results.contains [1]) == [true, true]) &&
      r.2.joined.all (fun e => checkEach (recordedCheck r.1)
        (computed symbolicEngine Toposort.kahn e.1)))
    (by decide)
  simp only [Bool.and_eq_true, List.isEmpty_iff, decide_eq_true_eq, beq_iff_eq,
    List.all_eq_true] at hcheck
  obtain ⟨⟨⟨hfinal, hresults⟩, hshared⟩, hall⟩ := hcheck
  obtain ⟨hG, hs⟩ := runBatch_reachable hrun
  refine ⟨G, s, hfinal, hresults, fun hsingle => ?_,
    attributed_of_recorded symbolicEngine Toposort.kahn .maxParallelism hG hs
      (fun e he => recorded_of_check (hall e he))⟩
  obtain ⟨n, l, hnodes, hn, hl⟩ := List.map_eq_cons_iff.mp hshared
  obtain ⟨m, l', hl', hm, -⟩ := List.map_eq_cons_iff.mp hl
  have hsame := hsingle 0 1 n m [1] (by rw [hnodes]; rfl) (by rw [hnodes, hl']; rfl)
    (by simpa using hn) (by simpa using hm)
  cases hsame

/-- Two transactions that compute and store the same handle. -/
def sharedBatch : List (Handle × List (DFGOp Term)) :=
  [([10], [⟨[1], .fheTrivialEncrypt, [.value (.scalar [5]), .value (.scalar [2])], true⟩]),
    ([11], [⟨[1], .fheTrivialEncrypt, [.value (.scalar [5]), .value (.scalar [2])], true⟩])]

/-- The component of the second transaction computed its result, which was stored
for the first one. -/
theorem shared_results_misattributed : ∃ (G : DFComponentGraph Term FhevmError)
    (s : SchedState Term FhevmError), G.Loaded ∧
      Reachable symbolicEngine Toposort.kahn .maxParallelism G s ∧ Final s ∧
      ¬ Attributed symbolicEngine Toposort.kahn G s := by
  obtain ⟨⟨G, s⟩, hrun, hcheck⟩ := exists_ok_of_check (x := runBatch sharedBatch)
    (P := fun r => r.2.running.isEmpty &&
      r.2.graph.results.all (fun x => x.transactionId == [10]) &&
      r.2.joined.any (fun e => (computed symbolicEngine Toposort.kahn e.1).any (fun x =>
        x.args.transactionId == [11] && (match x.own [1] with
          | some o => !(savedResults x.args.transactionId [1] o).isEmpty
          | none => false)))) (by decide)
  simp only [Bool.and_eq_true, List.isEmpty_iff, List.all_eq_true, List.any_eq_true,
    beq_iff_eq] at hcheck
  obtain ⟨⟨hfinal, hall⟩, e, he, x, hx, htid, hown⟩ := hcheck
  obtain ⟨hG, hs⟩ := runBatch_reachable hrun
  refine ⟨G, s, hG, hs, hfinal, fun hattr => ?_⟩
  split at hown
  · rename_i o ho
    have hne : savedResults x.args.transactionId [1] o ≠ [] := by simpa using hown
    obtain ⟨r, hr⟩ := List.exists_mem_of_ne_nil _ hne
    have hrtid : r.transactionId = [11] := by
      rw [← htid]
      exact (handle_of_mem_savedResults hr).2.1
    have := hall r (hattr.every_producer e he x hx [1] o ho r hr)
    rw [hrtid] at this
    cases this
  · cases hown

end Fhevm.Scheduler
