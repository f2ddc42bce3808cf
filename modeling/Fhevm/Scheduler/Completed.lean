import Fhevm.Scheduler.Computed
import Fhevm.Scheduler.Operations

/-!
# Which handles are reported as completed

All handles of a component that is not marked are reported as completed. A
component is marked when an error is stored for it or for a component it depends
on, so what matters is whether every component that could not run leaves an error.

## Main definitions

* `Reported` — the failures of a task leave errors of the components that failed.
* `Executed` — a handle has a result of the component that computes it.
* `completed_of_reported` — runs whose tasks are all reported.
-/

namespace Fhevm.Scheduler

open Foundation

variable {R S ε : Type}

/-- The component cannot run, for a reason that is not an error of another one: an
input without recorded producer is missing, or its inputs cannot be re-randomised. -/
def Blocked (eng : FheEngine R S ε) (G : DFComponentGraph R ε) (x : Computed R ε) : Prop :=
  (∃ h, x.args.inputs.get? h = some none ∧ G.allowedMap.get? h = none) ∨
    ∃ inputs err, fillInputs x.before x.args.inputs = some inputs ∧
      reRandomiseTransactionInputs eng inputs x.args.transactionId x.args.componentId = .error err

/-- Every failure of the task leaves an error that is stored for the component that failed. -/
structure Reported (eng : FheEngine R S ε) (T : Toposort) (G : DFComponentGraph R ε)
    (t : Task R ε) : Prop where
  /-- A component that cannot run has an allowed operation. -/
  blocked : ∀ x ∈ computed eng T t, Blocked eng G x → ∃ n ∈ x.args.graph.graph.nodes,
    n.isAllowed = true
  /-- An error is kept to the end of the task, and recorded to the component that computed it. -/
  errors : ∀ pre x post, computed eng T t = pre ++ x :: post → ∀ h err,
    (h, .error err) ∈ x.inserts → G.allowedMap.get? h = some x.index ∧
      (∃ err, x.own h = some (.error err)) ∧ ∀ y ∈ post, h ∉ y.inserts.map Prod.fst

/-- The operands of all operations are as the worker builds them. -/
def PlainGraph (G : DFComponentGraph R ε) : Prop :=
  ∀ n ∈ G.graph.nodes, ∀ node ∈ n.graph.graph.nodes, PlainOperands node.inputs

/-- In this run the operation was executed and succeeded, as one of the given transaction. -/
def Executed (eng : FheEngine R S ε) (T : Toposort) (s : SchedState R ε) (handle tid : Handle) :
    Prop :=
  ∃ e ∈ s.joined, ∃ x ∈ computed eng T e.1, x.args.transactionId = tid ∧
    ∃ r, x.own handle = some (.ok r)

/-! ## The components of a task -/

theorem Computed.own_isSome {x : Computed R ε} {h : Handle} :
    (x.own h).isSome ↔ h ∈ x.inserts.map Prod.fst := by
  rw [Computed.own, HashMap.get?_isSome, HashMap.mem_keys_insertAll]
  simp [HashMap.keys]

/-- The last component that keeps something under a handle. -/
theorem exists_last_insert {cs : List (Computed R ε)} {h : Handle} {x : Computed R ε}
    (hx : x ∈ cs) (hh : h ∈ x.inserts.map Prod.fst) :
    ∃ pre y post o, cs = pre ++ y :: post ∧ y.own h = some o ∧
      ∀ z ∈ post, h ∉ z.inserts.map Prod.fst := by
  induction cs generalizing x with
  | nil => simp at hx
  | cons y cs ih =>
    by_cases hlater : ∃ z ∈ cs, h ∈ z.inserts.map Prod.fst
    · obtain ⟨z, hz, hhz⟩ := hlater
      obtain ⟨pre, w, post, o, rfl, hown, hpost⟩ := ih hz hhz
      exact ⟨y :: pre, w, post, o, rfl, hown, hpost⟩
    · rcases List.mem_cons.mp hx with rfl | hx
      · obtain ⟨o, ho⟩ := Option.isSome_iff_exists.mp (Computed.own_isSome.mpr hh)
        exact ⟨[], x, cs, o, rfl, ho, fun z hz hhz => hlater ⟨z, hz, hhz⟩⟩
      · exact absurd ⟨x, hx, hh⟩ hlater

def isError : OpOutcome R ε → Bool
  | .ok _ => false
  | .error _ => true

section Completed

variable {eng : FheEngine R S ε} {T : Toposort} {G : DFComponentGraph R ε} {X : Dag ExecNode Unit}
  {s : SchedState R ε}

/-- A task runs the components of its block that are not skipped, in their order. -/
theorem index_computed (eng : FheEngine R S ε) (T : Toposort) (hX : IsPartition G.graph X)
    (L : Inserts R ε) (i : ℕ) :
    (computed eng T (taskAt G X L i)).map Computed.index = membersAt G X L i := by
  have hargs := congrArg (List.map Prod.fst)
    (map_computedFrom eng T (taskAt G X L i).components HashMap.empty)
  rw [List.map_map] at hargs
  refine hargs.trans ?_
  have hmember : ∀ c ∈ membersAt G X L i, ∃ a, argsAt G L c = some a := by
    intro c hc
    have hlt : c < G.graph.nodeCount :=
      hX.topological.mem_iff.mp (mem_flatten_blocks.mpr ⟨i, (List.mem_filter.mp hc).1⟩)
    exact ⟨_, by rw [argsAt, List.getElem?_eq_getElem hlt, Option.map_some]⟩
  rw [taskAt]
  generalize membersAt G X L i = cs at hmember ⊢
  induction cs with
  | nil => rfl
  | cons c cs ih =>
    obtain ⟨a, ha⟩ := hmember c List.mem_cons_self
    simp only [List.filterMap_cons, ha, Option.map_some, List.map_cons,
      ih (fun d hd => hmember d (List.mem_cons_of_mem _ hd))]

/-- Marks only grow. -/
theorem flagged_mono {past joined : List (Task R ε × Inserts R ε)} (h : past <+: joined)
    {c : ℕ} (hc : flagged G (joined.flatMap Prod.snd) c = false) :
    flagged G (past.flatMap Prod.snd) c = false := by
  obtain ⟨rest, rfl⟩ := h
  rw [List.flatMap_append, flagged_append, Bool.or_eq_false_iff] at hc
  exact hc.1

/-- A component that an unmarked one depends on is not marked. -/
theorem flagged_of_adj {L : Inserts R ε} {p c : ℕ} (hadj : Adj G.graph.arcs p c)
    (hc : flagged G L c = false) : flagged G L p = false := by
  by_contra hmark
  obtain ⟨h, err, q, hmem, hq, hreach⟩ := flagged_iff.mp (by simpa using hmark)
  rw [flagged_iff.mpr ⟨h, err, q, hmem, hq, hreach.tail hadj⟩] at hc
  cases hc

/-- A component of a joined task that is not marked was run. -/
theorem SchedInv.exists_computed (hX : IsPartition G.graph X) (hs : SchedInv eng T G X s)
    {e : Task R ε × Inserts R ε} (he : e ∈ s.joined) {c : ℕ} (hc : c ∈ block X e.1.taskIndex)
    (hflag : flagged G s.log c = false) : ∃ x ∈ computed eng T e.1, x.index = c := by
  obtain ⟨pre, post, hsplit⟩ := List.append_of_mem he
  obtain ⟨past, hpast, hafter⟩ := hs.joined pre e post hsplit
  have hinit : past <+: s.joined := hpast.trans ⟨_, hsplit.symm⟩
  have hmem : c ∈ membersAt G X (past.flatMap Prod.snd) e.1.taskIndex :=
    List.mem_filter.mpr ⟨hc, by simp [flagged_mono hinit hflag]⟩
  rw [← index_computed eng T hX, ← hafter.eq_taskAt] at hmem
  exact List.mem_map.mp hmem

/-- A component that computed an error is marked. -/
theorem SchedInv.flagged_of_error (hs : SchedInv eng T G X s)
    (hrep : ∀ e ∈ s.joined, Reported eng T G e.1) {e : Task R ε × Inserts R ε}
    (he : e ∈ s.joined) {x : Computed R ε} (hx : x ∈ computed eng T e.1) {h : Handle}
    {err : TaskError ε} (herr : (h, .error err) ∈ x.inserts) :
    G.allowedMap.get? h = some x.index ∧ flagged G s.log x.index = true := by
  obtain ⟨pre, post, hsplit⟩ := List.append_of_mem hx
  obtain ⟨hp, ⟨err', hown⟩, hpost⟩ := (hrep e he).errors pre x post hsplit h err herr
  exact ⟨hp, flagged_iff.mpr ⟨h, err', x.index,
    hs.mem_log.mpr ⟨e, he, pre, x, post, hsplit, hown, hpost⟩, hp, .refl⟩⟩

/-- What is kept under a handle whose producer is not marked is a result. -/
theorem SchedInv.own_ok (hs : SchedInv eng T G X s)
    (hrep : ∀ e ∈ s.joined, Reported eng T G e.1) {e : Task R ε × Inserts R ε}
    (he : e ∈ s.joined) {y : Computed R ε} (hy : y ∈ computed eng T e.1) {h : Handle}
    {o : OpOutcome R ε} (hown : y.own h = some o) {p : ℕ} (hp : G.allowedMap.get? h = some p)
    (hflag : flagged G s.log p = false) : ∃ r, o = .ok r := by
  cases o with
  | ok r => exact ⟨r, rfl⟩
  | error err =>
    obtain ⟨hp', hmark⟩ := hs.flagged_of_error hrep he hy (Computed.mem_inserts hown)
    rw [hp] at hp'
    cases hp'
    rw [hflag] at hmark
    cases hmark

/-- A result of another task is delivered with the results stored before. -/
theorem SchedInv.lastOk_isSome (hs : SchedInv eng T G X s)
    (hrep : ∀ e ∈ s.joined, Reported eng T G e.1) {past : List (Task R ε × Inserts R ε)}
    (hpast : past <+: s.joined) {e : Task R ε × Inserts R ε} (he : e ∈ past) {x : Computed R ε}
    (hx : x ∈ computed eng T e.1) {h : Handle} (hh : h ∈ x.inserts.map Prod.fst) {p : ℕ}
    (hp : G.allowedMap.get? h = some p) (hflag : flagged G s.log p = false) :
    (lastOk (past.flatMap Prod.snd) h).isSome := by
  have hmem := hpast.subset he
  obtain ⟨pre, y, post, o, hsplit, hown, hpost⟩ := exists_last_insert hx hh
  have hy : y ∈ computed eng T e.1 := by simp [hsplit]
  obtain ⟨r, rfl⟩ := hs.own_ok hrep hmem hy hown hp hflag
  have hentry := mem_executePartition_iff.mpr ⟨pre, y, post, hsplit, hown, hpost⟩
  exact Scheduler.lastOk_isSome
    (List.mem_flatMap.mpr ⟨e, he, (hs.results e hmem).mem_iff.mpr hentry⟩)

/-- A result of the same task is found among the results of the components before. -/
theorem SchedInv.before_isSome (hs : SchedInv eng T G X s)
    (hrep : ∀ e ∈ s.joined, Reported eng T G e.1) {e : Task R ε × Inserts R ε} (he : e ∈ s.joined)
    {pre post : List (Computed R ε)} {c x : Computed R ε}
    (hsplit : computed eng T e.1 = pre ++ c :: post) (hx : x ∈ pre) {h : Handle}
    (hh : h ∈ x.inserts.map Prod.fst) {p : ℕ} (hp : G.allowedMap.get? h = some p)
    (hflag : flagged G s.log p = false) : (okResult (c.before.get? h)).isSome := by
  obtain ⟨pre', y, post', o, rfl, hown, hpost⟩ := exists_last_insert hx hh
  have hy : y ∈ computed eng T e.1 := by simp [hsplit]
  obtain ⟨r, rfl⟩ := hs.own_ok hrep he hy hown hp hflag
  have hbefore : c.before.get? h = some (.ok r) := by
    rw [(computedFrom_split hsplit).1, HashMap.get?_foldl_insertAll]
    refine .inl ⟨pre'.map Computed.inserts, y.inserts, post'.map Computed.inserts, by simp,
      hown, fun es hes => ?_⟩
    obtain ⟨z, hz, rfl⟩ := List.mem_map.mp hes
    exact hpost z hz
  rw [hbefore]
  rfl

/-- The missing inputs of a component whose inputs cannot all be filled. -/
theorem fillInputs_eq_none {res : Kept R ε} {inputs : TxInputs R}
    (h : fillInputs res inputs = none) :
    ∃ k, inputs.get? k = some none ∧ okResult (res.get? k) = none := by
  simp only [fillInputs, ite_eq_right_iff, reduceCtorEq, imp_false, List.all_eq_true,
    not_forall] at h
  obtain ⟨⟨k, v⟩, hmem, hv⟩ := h
  have hget := HashMap.get?_eq_some.mpr hmem
  rw [get?_delivers] at hget
  obtain ⟨w, hw, hfill⟩ := Option.map_eq_some_iff.mp hget
  cases w with
  | some i => simp [← hfill, fillInput] at hv
  | none =>
    refine ⟨k, hw, ?_⟩
    cases hok : okResult (res.get? k) with
    | none => rfl
    | some r => simp [← hfill, fillInput, hok] at hv

/-- A component that is not marked waits for none of its predecessors, when their
results were computed. -/
theorem SchedInv.input_arrived (hX : IsPartition G.graph X)
    (hs : SchedInv eng T G X s) (hrep : ∀ e ∈ s.joined, Reported eng T G e.1)
    {e : Task R ε × Inserts R ε} (he : e ∈ s.joined) {x : Computed R ε}
    (hx : x ∈ computed eng T e.1) {h : Handle} {p : ℕ} (hp : G.allowedMap.get? h = some p)
    (hadj : Adj G.graph.arcs p x.index) (hpflag : flagged G s.log p = false)
    (hinput : x.args.inputs.get? h = some none)
    (hpred : ∀ e' ∈ s.joined, ∀ y ∈ computed eng T e'.1, y.index = p →
      h ∈ y.inserts.map Prod.fst) : (okResult (x.before.get? h)).isSome := by
  obtain ⟨pre, post, hsplit⟩ := List.append_of_mem he
  obtain ⟨past, hpast, hafter⟩ := hs.joined pre e post hsplit
  have hinit : past <+: s.joined := hpast.trans ⟨_, hsplit.symm⟩
  obtain ⟨cpre, cpost, hcsplit⟩ := List.append_of_mem hx
  -- the component as the task received it
  have hargs : (x.index, x.args) ∈ e.1.components := by
    rw [← map_computedFrom eng T e.1.components HashMap.empty]
    exact List.mem_map_of_mem hx
  rw [hafter.eq_taskAt] at hargs
  simp only [taskAt, List.mem_filterMap, argsAt, Option.map_eq_some_iff, Prod.mk.injEq] at hargs
  obtain ⟨c, -, _, ⟨n, hn, rfl⟩, rfl, hargs⟩ := hargs
  rw [← hargs] at hinput
  simp only [get?_delivers, Option.map_eq_some_iff] at hinput
  obtain ⟨w, hw, hfill⟩ := hinput
  have hindices := index_computed eng T hX (past.flatMap Prod.snd) e.1.taskIndex
  rw [← hafter.eq_taskAt, hcsplit, List.map_append, List.map_cons] at hindices
  have hblock : x.index ∈ block X e.1.taskIndex := by
    have : x.index ∈ membersAt G X (past.flatMap Prod.snd) e.1.taskIndex := by simp [← hindices]
    exact (List.mem_filter.mp this).1
  obtain ⟨j, hj⟩ := hX.mem_some_block (Dag.adj_lt hadj).1
  by_cases hji : j = e.1.taskIndex
  · -- the producer is a component of the same task, and lies before this one
    have hmem : p ∈ cpre.map Computed.index ++ x.index :: cpost.map Computed.index := by
      rw [hindices]
      exact List.mem_filter.mpr ⟨hji ▸ hj, by simp [flagged_mono hinit hpflag]⟩
    have hord := (hX.block_ordered e.1.taskIndex).sublist
      (List.filter_sublist (p := fun c => !flagged G (past.flatMap Prod.snd) c))
    rw [show (block X e.1.taskIndex).filter _ = _ from hindices.symm, List.pairwise_append,
      List.pairwise_cons] at hord
    rcases List.mem_append.mp hmem with hmem | hmem
    · obtain ⟨y, hy, rfl⟩ := List.mem_map.mp hmem
      exact hs.before_isSome hrep he hcsplit hy
        (hpred e he y (by simp [hcsplit, hy]) rfl) hp hpflag
    · rcases List.mem_cons.mp hmem with rfl | hmem
      · exact absurd hadj (hX.topological.irrefl _)
      · exact absurd hadj (hord.2.1.1 p hmem)
  · -- the producer is a component of a task that was joined before
    have hstored : (lastOk (past.flatMap Prod.snd) h).isSome := by
      obtain ⟨e', he', hindex⟩ := List.mem_map.mp
        (hafter.preds j ((hX.adj_iff j _).mpr ⟨hji, p, hj, x.index, hblock, hadj⟩))
      obtain ⟨y, hy, hyp⟩ :=
        hs.exists_computed hX (hinit.subset he') (hindex ▸ hj) hpflag
      exact hs.lastOk_isSome hrep hinit he' hy (hpred e' (hinit.subset he') y hy hyp) hp hpflag
    obtain ⟨r, hr⟩ := Option.isSome_iff_exists.mp hstored
    cases w with
    | some i => simp [fillInput] at hfill
    | none => simp [fillInput, hr] at hfill

/-- A component that is not marked has executed all its operations. -/
theorem SchedInv.executed (hG : G.Ready) (hX : IsPartition G.graph X) (hs : SchedInv eng T G X s)
    (hplain : PlainGraph G) (hrep : ∀ e ∈ s.joined, Reported eng T G e.1) {c : ℕ}
    {n : ComponentNode R} (hn : G.graph.nodes[c]? = some n) (hflag : flagged G s.log c = false)
    {e : Task R ε × Inserts R ε} (he : e ∈ s.joined) {x : Computed R ε}
    (hx : x ∈ computed eng T e.1) (hc : x.index = c) :
    ∀ h ∈ n.results, ∃ r, x.own h = some (.ok r) := by
  induction c using G.graph.wellFounded.induction generalizing n e x with
  | _ c ih =>
    subst hc
    obtain ⟨n', hn', -, hgraph, hkeys⟩ := hs.mem_computed he hx
    rw [hn] at hn'
    cases hn'
    have hnoerror : ∀ h err, (h, .error err) ∉ x.inserts := by
      intro h err hmem
      obtain ⟨-, hmark⟩ := hs.flagged_of_error hrep he hx hmem
      rw [hflag] at hmark
      cases hmark
    obtain ⟨cpre, cpost, hcsplit⟩ := List.append_of_mem hx
    obtain ⟨-, hinserts, -⟩ := computedFrom_split hcsplit
    -- a skipped component would have left an error
    have hnotBlocked : ∀ error : SchedulerError, x.inserts = failAllowed x.args.graph error →
        ¬ Blocked eng G x := by
      intro error hfail hblocked
      obtain ⟨m, hm, hallowed⟩ := (hrep e he).blocked x hx hblocked
      refine hnoerror m.resultHandle (.scheduler error) (hfail ▸ ?_)
      exact List.mem_map.mpr ⟨m, List.mem_filter.mpr ⟨hm, hallowed⟩, rfl⟩
    obtain ⟨operations, hnodes, hedges, hresults, hexposed⟩ := hG.built n (List.mem_of_getElem? hn)
    unfold executeTransaction at hinserts
    split at hinserts
    · rename_i hfill
      obtain ⟨k, hinput, hmissing⟩ := fillInputs_eq_none hfill
      cases hp : G.allowedMap.get? k with
      | none => exact absurd (.inl ⟨k, hinput, hp⟩) (hnotBlocked _ hinserts)
      | some p =>
        -- the producer of the missing input ran before, by induction
        have hkey : k ∈ n.inputs.keys := by
          rw [← hkeys, ← HashMap.get?_isSome, hinput]
          rfl
        have hadj := hG.adj_of_input hn hkey hp
        have hpflag := flagged_of_adj hadj hflag
        have hrecorded := hp
        rw [hG.allowedMap_eq] at hrecorded
        obtain ⟨⟨m, hm, hmem⟩, -⟩ := allowedMapOf_eq_some.mp hrecorded
        have harrived := hs.input_arrived hX hrep he hx hp hadj hpflag hinput
          (fun e' he' y hy hyp => by
            obtain ⟨r, hr⟩ := ih p hadj hm hpflag he' hy hyp k hmem
            exact Computed.own_isSome.mp (by rw [hr]; rfl))
        rw [hmissing] at harrived
        cases harrived
    · rename_i inputs hfill
      split at hinserts
      · rename_i err hrerand
        exact absurd (.inr ⟨inputs, err, hfill, hrerand⟩) (hnotBlocked _ hinserts)
      · rename_i inputs' hrerand
        obtain ⟨hkeys', hvalues⟩ := reRandomise_plain hrerand
        have hfilled : inputs.keys = x.args.inputs.keys := by
          simp only [fillInputs] at hfill
          split at hfill
          · cases hfill
            exact keys_delivers _ _
          · cases hfill
        have htx : ∀ h ∈ exposedInputs operations, ∃ v a,
            inputs'.get? h = some (some (.value v a)) := by
          intro h hh
          have hmem := (hexposed h).mpr hh
          rw [← hkeys, ← hfilled, ← hkeys', ← HashMap.get?_isSome] at hmem
          obtain ⟨i, hi⟩ := Option.isSome_iff_exists.mp hmem
          obtain ⟨v, a, hv⟩ := hvalues (h, i) (HashMap.get?_eq_some.mp hi)
          exact ⟨v, a, hi.trans (congrArg some hv)⟩
        have hops : ∀ op ∈ operations, PlainOperands op.inputs := by
          intro op hop
          refine hplain n (List.mem_of_getElem? hn) op.toNode ?_
          rw [hnodes]
          exact List.mem_map_of_mem hop
        rw [hgraph] at hinserts
        have hall := executeOperations_executed T hnodes hedges hops htx
          (fun h err => hinserts ▸ hnoerror h err)
        intro h hh
        rw [hresults] at hh
        obtain ⟨op, hop, rfl⟩ := List.mem_map.mp hh
        obtain ⟨r, hr⟩ := hall op hop
        rw [← hinserts] at hr
        obtain ⟨o, ho⟩ := Option.isSome_iff_exists.mp
          (Computed.own_isSome.mpr (List.mem_map_of_mem hr))
        cases o with
        | ok r' => exact ⟨r', ho⟩
        | error err => exact absurd (Computed.mem_inserts ho) (hnoerror _ err)

/-- A handle reported as completed belongs to a component that is not marked. -/
theorem SchedInv.mem_getHandles (hs : SchedInv eng T G X s) {handle tid : Handle}
    (h : (handle, tid) ∈ s.graph.getHandles) : ∃ c n, G.graph.nodes[c]? = some n ∧
      flagged G s.log c = false ∧ handle ∈ n.results ∧ n.transactionId = tid := by
  rw [hs.getHandles_eq] at h
  simp only [List.mem_flatMap, List.mem_filter, Bool.not_eq_true', List.mem_map, Prod.mk.injEq,
    Prod.exists, List.mem_zipIdx_iff_getElem?] at h
  obtain ⟨n, c, ⟨hn, hflag⟩, k, hk, rfl, rfl⟩ := h
  exact ⟨c, n, hn, hflag, hk, rfl⟩

end Completed

/-- In a run all of whose tasks are reported, every handle that is reported as
completed was executed successfully, as an operation of its transaction. -/
theorem completed_of_reported (eng : FheEngine R S ε) (T : Toposort)
    (strategy : PartitionStrategy) {G : DFComponentGraph R ε} (hG : G.Loaded)
    (hplain : PlainGraph G) {s : SchedState R ε} (hs : Reachable eng T strategy G s)
    (hfinal : Final s) (hrep : ∀ e ∈ s.joined, Reported eng T G e.1) :
    ∀ p ∈ s.graph.getHandles, Executed eng T s p.1 p.2 := by
  obtain ⟨X, -, hX, hinv⟩ := hs.inv hG.ready
  rintro ⟨handle, tid⟩ hp
  obtain ⟨c, n, hn, hflag, hmem, rfl⟩ := hinv.mem_getHandles hp
  obtain ⟨i, hi⟩ := hX.mem_some_block (List.getElem?_eq_some_iff.mp hn).1
  obtain ⟨e, he, hindex⟩ := List.mem_map.mp (hinv.final hfinal (lt_of_mem_block hi))
  obtain ⟨x, hx, rfl⟩ := hinv.exists_computed hX he (hindex ▸ hi) hflag
  obtain ⟨n', hn', htid, -⟩ := hinv.mem_computed he hx
  rw [hn] at hn'
  cases hn'
  exact ⟨e, he, x, hx, htid, hinv.executed hG.ready hX hplain hrep hn hflag he hx rfl handle hmem⟩

/-! ## A transaction that fails beside another -/

/-- A component of a task and those after it, as `Reported` wants them, when it has
an allowed operation. -/
def reportedCheck (G : DFComponentGraph R ε) (x : Computed R ε) (post : List (Computed R ε)) :
    Bool :=
  x.args.graph.graph.nodes.any OpNode.isAllowed && x.inserts.all fun e => !isError e.2 ||
    (decide (G.allowedMap.get? e.1 = some x.index) && (x.own e.1).any isError &&
      post.all (fun y => !(y.inserts.map Prod.fst).contains e.1))

theorem reported_of_check {eng : FheEngine R S ε} {T : Toposort} {G : DFComponentGraph R ε}
    {t : Task R ε} (hcheck : checkEach (reportedCheck G) (computed eng T t) = true) :
    Reported eng T G t := by
  refine ⟨fun x hx _ => ?_, fun pre x post hsplit h err herr => ?_⟩
  · obtain ⟨pre, post, hsplit⟩ := List.append_of_mem hx
    have hx := of_checkEach hcheck hsplit
    simp only [reportedCheck, Bool.and_eq_true, List.any_eq_true] at hx
    exact hx.1
  · have hx := of_checkEach hcheck hsplit
    simp only [reportedCheck, Bool.and_eq_true, List.all_eq_true] at hx
    obtain ⟨⟨hp, hown⟩, hpost⟩ : (G.allowedMap.get? h = some x.index ∧
        (x.own h).any isError = true) ∧ ∀ y ∈ post, h ∉ y.inserts.map Prod.fst := by
      simpa [isError] using hx.2 _ herr
    refine ⟨hp, ?_, hpost⟩
    cases ho : x.own h with
    | none => simp [ho] at hown
    | some o =>
      cases o with
      | ok r => simp [ho, isError] at hown
      | error err => exact ⟨err, rfl⟩

def plainCheck (G : DFComponentGraph R ε) : Bool :=
  G.graph.nodes.all fun n => n.graph.graph.nodes.all fun node =>
    decide (node.inputs.length ≤ 256) && node.inputs.all fun i =>
      match i with
      | .compressed _ _ => false
      | .value _ | .dependence _ => true

theorem plain_of_check {G : DFComponentGraph R ε} (hcheck : plainCheck G = true) :
    PlainGraph G := by
  intro n hn node hnode
  simp only [plainCheck, List.all_eq_true, Bool.and_eq_true, decide_eq_true_eq] at hcheck
  obtain ⟨hcount, hall⟩ := hcheck n hn node hnode
  exact ⟨hcount, fun t c hmem => by simpa using hall _ hmem⟩

/-- A transaction whose operation fails, and one whose operations succeed. -/
def partlyFailingBatch : List (Handle × List (DFGOp Term)) :=
  [([10], [⟨[1], .fheAdd, [.value (.scalar [5])], true⟩]),
    ([11], [⟨[2], .fheTrivialEncrypt, [.value (.scalar [5]), .value (.scalar [2])], true⟩,
      ⟨[3], .fheNeg, [.dependence [2]], true⟩])]

theorem completed_of_reported_partly_failing : ∃ s : SchedState Term FhevmError, Final s ∧
      s.graph.getHandles = [([2], [11]), ([3], [11])] ∧
      ∀ p ∈ s.graph.getHandles, Executed symbolicEngine Toposort.kahn s p.1 p.2 := by
  obtain ⟨⟨G, s⟩, hrun, hcheck⟩ := exists_ok_of_check (x := runBatch partlyFailingBatch)
    (P := fun r => r.2.running.isEmpty && plainCheck r.1 &&
      decide (r.2.graph.getHandles = [([2], [11]), ([3], [11])]) &&
      r.2.joined.all (fun e => checkEach (reportedCheck r.1)
        (computed symbolicEngine Toposort.kahn e.1))) (by decide)
  simp only [Bool.and_eq_true, List.isEmpty_iff, decide_eq_true_eq, List.all_eq_true] at hcheck
  obtain ⟨⟨⟨hfinal, hplain⟩, hhandles⟩, hall⟩ := hcheck
  obtain ⟨hG, hs⟩ := runBatch_reachable hrun
  exact ⟨s, hfinal, hhandles, completed_of_reported symbolicEngine Toposort.kahn .maxParallelism
    hG (plain_of_check hplain) hs hfinal (fun e he => reported_of_check (hall e he))⟩

/-! ## A component without allowed operation -/

/-- A transaction whose first operation reads a handle that is not in the database,
and is passed on to two others. -/
def missingInputBatch : List (Handle × List (DFGOp Term)) :=
  [([10], [⟨[1], .fheNeg, [.dependence [9]], false⟩, ⟨[2], .fheNeg, [.dependence [1]], true⟩,
    ⟨[3], .fheNot, [.dependence [1]], true⟩])]

/-- The first operation is reported as completed, though none was executed. -/
theorem skipped_component_completed : ∃ (G : DFComponentGraph Term FhevmError)
    (s : SchedState Term FhevmError), G.Loaded ∧ PlainGraph G ∧
      Reachable symbolicEngine Toposort.kahn .maxParallelism G s ∧ Final s ∧
      ∃ p ∈ s.graph.getHandles, ¬ Executed symbolicEngine Toposort.kahn s p.1 p.2 := by
  obtain ⟨⟨G, s⟩, hrun, hcheck⟩ := exists_ok_of_check (x := runBatch missingInputBatch)
    (P := fun r => r.2.running.isEmpty && plainCheck r.1 &&
      decide (([1], [10]) ∈ r.2.graph.getHandles) &&
      r.2.joined.all (fun e => (computed symbolicEngine Toposort.kahn e.1).all (fun x =>
        x.inserts.all (fun i => isError i.2)))) (by decide)
  simp only [Bool.and_eq_true, List.isEmpty_iff, decide_eq_true_eq, List.all_eq_true] at hcheck
  obtain ⟨⟨⟨hfinal, hplain⟩, hmem⟩, hall⟩ := hcheck
  obtain ⟨hG, hs⟩ := runBatch_reachable hrun
  refine ⟨G, s, hG, plain_of_check hplain, hs, hfinal, _, hmem, ?_⟩
  rintro ⟨e, he, x, hx, -, r, hr⟩
  have := hall e he x hx _ (Computed.mem_inserts hr)
  simp [isError] at this

end Fhevm.Scheduler
