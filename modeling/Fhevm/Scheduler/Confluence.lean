import Fhevm.Scheduler.Outcome

/-!
# Independence of the completion order

A task that is spawned once the results of its predecessors are stored keeps
exactly the outcomes of its components in the dataflow. Hence the results stored
by any run are those of the joined tasks, and all runs that end store the same.

## Main definitions

* `executePartition_collects` — what one task computes.
* `SchedInv.collects` — what a run has stored.
* `outcomes` — the results of all components; `SchedInv.final_log` at the end of a run.
-/

namespace Fhevm.Scheduler

open Foundation

variable {R S ε : Type}

section Task

variable {eng : FheEngine R S ε} {T : Toposort} {G : DFComponentGraph R ε} {hG : G.Ready}
  {X : Dag ExecNode Unit}

theorem IsPartition.block_ordered (hX : IsPartition G.graph X) (i : ℕ) :
    (block X i).Pairwise (fun u v => ¬ Adj G.graph.arcs v u) := by
  unfold block
  cases hb : (blocks X)[i]? with
  | none => simp
  | some b =>
    exact (List.pairwise_flatten.mp hX.topological.ordered).1 b (List.mem_of_getElem? hb)

/-- The predecessors of a component lie before it in its block or in tasks that were joined. -/
theorem IsPartition.pred_mem (hX : IsPartition G.graph X) {is : List ℕ} {i c p : ℕ}
    {done rest : List ℕ} (hpreds : ∀ k, Adj X.arcs k i → k ∈ is)
    (hsplit : block X i = done ++ c :: rest) (hpc : Adj G.graph.arcs p c) :
    InBlocks X is p ∨ p ∈ done := by
  have hc : c ∈ block X i := by simp [hsplit]
  obtain ⟨j, hj⟩ := hX.mem_some_block (Dag.adj_lt hpc).1
  by_cases hji : j = i
  · subst hji
    rw [hsplit, List.mem_append, List.mem_cons] at hj
    rcases hj with hj | rfl | hj
    · exact .inr hj
    · exact absurd hpc (hX.topological.irrefl p)
    · have hord := hX.block_ordered j
      rw [hsplit, List.pairwise_append, List.pairwise_cons] at hord
      exact absurd hpc (hord.2.1.1 p hj)
  · exact .inl ⟨j, hpreds j ((hX.adj_iff j i).mpr ⟨hji, p, hj, c, hc, hpc⟩), hj⟩

/-- What is available to a component inside its task: results stored before the
task was spawned, and results of the components before it. -/
theorem available_eq (hsingle : SingleProducer G) (hX : IsPartition G.graph X) {L : Inserts R ε}
    {is : List ℕ} {i c : ℕ} {done rest : List ℕ} {m : Kept R ε} {n : ComponentNode R}
    (hL : Collects (componentDataflow eng T hG X).outcome (InBlocks X is) L)
    (hpreds : ∀ k, Adj X.arcs k i → k ∈ is) (hi : i ∉ is)
    (hsplit : block X i = done ++ c :: rest)
    (hm : ∀ h o, m.get? h = some o ↔ KeptBy (componentDataflow eng T hG X).outcome (· ∈ done) h o)
    (hn : G.graph.nodes[c]? = some n) {k : Handle} (hk : n.inputs.get? k = some none) :
    (lastOk L k).or (okResult (m.get? k)) =
      available G (componentDataflow eng T hG X).outcome k := by
  cases hp : G.allowedMap.get? k with
  | none =>
    have hlast : lastOk L k = okResult none :=
      lastOk_eq fun o => by
        rw [hL]
        simpa using not_keptBy hsingle hp
    have hget : m.get? k = none := by
      refine Option.eq_none_iff_forall_not_mem.mpr fun o ho => ?_
      exact not_keptBy hsingle hp ((hm k o).mp ho)
    simp [hlast, hget, available, hp, okResult]
  | some p =>
    have hkey : k ∈ n.inputs.keys := by
      rw [← HashMap.get?_isSome, hk]
      rfl
    have hpc := hG.adj_of_input hn hkey hp
    have hdisjoint : InBlocks X is p → p ∉ done := by
      rintro ⟨j, hj, hpj⟩ hdone
      have hpi : p ∈ block X i := by simp [hsplit, hdone]
      exact hi (block_unique hX.topological.nodup hpj hpi ▸ hj)
    have havail : available G (componentDataflow eng T hG X).outcome k =
        okResult (((componentDataflow eng T hG X).outcome p).bind (·.get? k)) := by
      simp [available, hp]
    rw [havail]
    by_cases hpast : InBlocks X is p
    · have hlast := lastOk_eq (L := L) (h := k)
        (v := ((componentDataflow eng T hG X).outcome p).bind (·.get? k)) fun o => by
          rw [hL, keptBy_iff hsingle hp]
          simp [hpast]
      have hget : m.get? k = none := by
        refine Option.eq_none_iff_forall_not_mem.mpr fun o ho => ?_
        exact hdisjoint hpast ((keptBy_iff hsingle hp).mp ((hm k o).mp ho)).1
      rw [hlast, hget]
      exact Option.or_none
    · have hdone := (hX.pred_mem hpreds hsplit hpc).resolve_left hpast
      have hlast : lastOk L k = okResult none :=
        lastOk_eq fun o => by
          rw [hL, keptBy_iff hsingle hp]
          simp [hpast]
      have hget : m.get? k = ((componentDataflow eng T hG X).outcome p).bind (·.get? k) := by
        refine Option.ext fun o => ?_
        rw [hm, keptBy_iff hsingle hp]
        simp [hdone]
      rw [hlast, hget]
      rfl

/-- Keeping the results of one more component. -/
theorem insertAll_keptBy (hsingle : SingleProducer G) {m : Kept R ε} {done : List ℕ} {c : ℕ}
    {es : Inserts R ε}
    (hm : ∀ h o, m.get? h = some o ↔ KeptBy (componentDataflow eng T hG X).outcome (· ∈ done) h o)
    (hc : (componentDataflow eng T hG X).outcome c = some (HashMap.empty.insertAll es))
    (h : Handle) (o : OpOutcome R ε) :
    (m.insertAll es).get? h = some o ↔
      KeptBy (componentDataflow eng T hG X).outcome (· ∈ done ++ [c]) h o := by
  by_cases hmem : h ∈ es.map Prod.fst
  · have hlookup : (m.insertAll es).get? h = ((HashMap.empty : Kept R ε).insertAll es).get? h :=
      HashMap.get?_insertAll_of_mem hmem
    rw [hlookup]
    obtain ⟨o', ho'⟩ := Option.isSome_iff_exists.mp (HashMap.get?_isSome.mpr
      (HashMap.mem_keys_insertAll.mpr (.inr hmem) :
        h ∈ ((HashMap.empty : Kept R ε).insertAll es).keys))
    rw [keptBy_iff hsingle (allowedMap_of_outcome hsingle hc ho')]
    simp [hc]
  · rw [HashMap.get?_insertAll_of_notMem hmem, hm]
    have hnone : ((HashMap.empty : Kept R ε).insertAll es).get? h = none := by
      rw [HashMap.get?_insertAll_of_notMem hmem, HashMap.get?_empty]
    constructor
    · rintro ⟨d, hd, hkept⟩
      exact ⟨d, List.mem_append_left _ hd, hkept⟩
    · rintro ⟨d, hd, m', hout, hget⟩
      rcases List.mem_append.mp hd with hd | hd
      · exact ⟨d, hd, m', hout, hget⟩
      · rw [List.mem_singleton.mp hd, hc] at hout
        cases hout
        rw [hnone] at hget
        cases hget

/-- A task spawned once the results of the tasks `is` are stored keeps the
outcomes of its components. -/
theorem executePartition_collects (hG : G.Ready) (hsingle : SingleProducer G)
    (hX : IsPartition G.graph X)
    {L : Inserts R ε} {is : List ℕ} {i : ℕ}
    (hL : Collects (componentDataflow eng T hG X).outcome (InBlocks X is) L)
    (hclosed : DownClosed X is) (hpreds : ∀ k, Adj X.arcs k i → k ∈ is) (hi : i ∉ is) :
    Collects (componentDataflow eng T hG X).outcome (· ∈ block X i)
      (executePartition eng T (taskAt G X L i).args).entries := by
  -- by induction on the components that are left, `done` being those before them
  have hrun : ∀ (rest done : List ℕ) (m : Kept R ε), block X i = done ++ rest →
      (∀ h o, m.get? h = some o ↔
        KeptBy (componentDataflow eng T hG X).outcome (· ∈ done) h o) →
      ∀ h o, (((rest.filter (fun c => !flagged G L c)).filterMap (argsAt G L)).foldl
          (fun res a => res.insertAll (executeTransaction eng T res a)) m).get? h = some o ↔
        KeptBy (componentDataflow eng T hG X).outcome (· ∈ block X i) h o := by
    intro rest
    induction rest with
    | nil =>
      intro done m hsplit hm h o
      rw [hsplit, List.append_nil]
      exact hm h o
    | cons c rest ih =>
      intro done m hsplit hm
      have hc : c ∈ block X i := by simp [hsplit]
      have hflag := flagged_iff_cutOff hsingle hX hL hclosed hpreds hi hc
      have hsplit' : block X i = (done ++ [c]) ++ rest := by simp [hsplit]
      cases hf : flagged G L c with
      | true =>
        have hnone := (componentDataflow eng T hG X).outcome_eq_none (hflag.mp hf)
        rw [List.filter_cons_of_neg (by simp [hf])]
        refine ih (done ++ [c]) m hsplit' fun h o => ?_
        rw [hm]
        constructor
        · rintro ⟨d, hd, hkept⟩
          exact ⟨d, List.mem_append_left _ hd, hkept⟩
        · rintro ⟨d, hd, m', hout, hget⟩
          rcases List.mem_append.mp hd with hd | hd
          · exact ⟨d, hd, m', hout, hget⟩
          · rw [List.mem_singleton.mp hd, hnone] at hout
            cases hout
      | false =>
        have hcut : ¬ (componentDataflow eng T hG X).CutOff
            (componentDataflow eng T hG X).outcome c := by
          rw [← hflag, hf]
          simp
        have hsome := (componentDataflow eng T hG X).outcome_eq_some hcut
        have hlt : c < G.graph.nodeCount :=
          hX.topological.mem_iff.mp (mem_flatten_blocks.mpr ⟨i, hc⟩)
        obtain ⟨n, hn⟩ : ∃ n, G.graph.nodes[c]? = some n := ⟨_, List.getElem?_eq_getElem hlt⟩
        have hargs : argsAt G L c =
            some { n.toArgs with inputs := Delivers (lastOk L) n.toArgs.inputs } := by
          simp [argsAt, hn, ComponentNode.toArgs]
        have hexec : executeTransaction eng T m
            { n.toArgs with inputs := Delivers (lastOk L) n.toArgs.inputs } =
            executeWith eng T (available G (componentDataflow eng T hG X).outcome) n.toArgs := by
          rw [executeTransaction_eq, executeWith_delivers]
          exact executeWith_congr fun k hk => available_eq hsingle hX hL hpreds hi hsplit hm hn hk
        rw [List.filter_cons_of_pos (by simp [hf]), List.filterMap_cons_some hargs,
          List.foldl_cons, hexec]
        refine ih (done ++ [c]) _ hsplit' (insertAll_keptBy hsingle hm ?_)
        rw [hsome]
        simp [componentDataflow, execComponent, hn]
  have hargs : (taskAt G X L i).args = (membersAt G X L i).filterMap (argsAt G L) := by
    simp only [Task.args, taskAt, List.map_filterMap, Option.map_map, Function.comp_def,
      Option.map_id']
  intro h o
  rw [← HashMap.get?_eq_some, hargs]
  exact hrun (block X i) [] HashMap.empty rfl
    (fun h o => by simp [KeptBy]) h o

end Task

/-! ## Runs -/

section Run

variable {eng : FheEngine R S ε} {T : Toposort} {G : DFComponentGraph R ε} {hG : G.Ready}
  {X : Dag ExecNode Unit} {s : SchedState R ε}

theorem SchedInv.downClosed (hs : SchedInv eng T G X s)
    {pre : List (Task R ε × Inserts R ε)} (hpre : pre <+: s.joined) :
    DownClosed X (pre.map (fun e => e.1.taskIndex)) := by
  intro j k hjk hk
  obtain ⟨e, he, rfl⟩ := List.mem_map.mp hk
  obtain ⟨pre₁, pre₂, rfl⟩ := List.append_of_mem he
  obtain ⟨post, hpost⟩ := hpre
  obtain ⟨past, ⟨later, rfl⟩, hafter⟩ := hs.joined pre₁ e (pre₂ ++ post) (by simp [← hpost])
  have hj := hafter.preds j hjk
  simp only [List.map_append, List.mem_append]
  exact .inl (.inl hj)

/-- The results stored so far are the outcomes of the components of the joined tasks. -/
theorem SchedInv.collects (hG : G.Ready) (hsingle : SingleProducer G) (hX : IsPartition G.graph X)
    (hs : SchedInv eng T G X s) (pre : List (Task R ε × Inserts R ε)) (hpre : pre <+: s.joined) :
    Collects (componentDataflow eng T hG X).outcome
      (InBlocks X (pre.map (fun e => e.1.taskIndex))) (pre.flatMap Prod.snd) := by
  -- the tasks joined before are shorter prefixes
  induction hlen : pre.length using Nat.strong_induction_on generalizing pre with
  | _ n ih =>
    rcases List.eq_nil_or_concat pre with rfl | ⟨pre', e, rfl⟩
    · intro h o
      simp [KeptBy, InBlocks]
    rw [List.concat_eq_append] at hpre hlen ⊢
    obtain ⟨post, hpost⟩ := hpre
    have hpre' : pre' <+: s.joined := ⟨[e] ++ post, by rw [← List.append_assoc, hpost]⟩
    obtain ⟨past, hpast, hafter⟩ := hs.joined pre' e post (by simp [← hpost])
    have hpast' : past <+: s.joined := hpast.trans hpre'
    have hlen' : pre'.length < n := by simp [← hlen]
    have htask := executePartition_collects hG hsingle hX
      (ih past.length (lt_of_le_of_lt hpast.length_le hlen') past hpast' rfl)
      (hs.downClosed hpast') hafter.preds hafter.notMem
    have hmem : e ∈ s.joined := by simp [← hpost]
    have hprev := ih pre'.length hlen' pre' hpre' rfl
    intro h o
    rw [List.flatMap_append, List.mem_append, hprev h o, List.flatMap_singleton,
      (hs.results e hmem).mem_iff, hafter.eq_taskAt, htask h o]
    constructor
    · rintro (⟨c, ⟨i, hi, hc⟩, hkept⟩ | ⟨c, hc, hkept⟩)
      · exact ⟨c, ⟨i, by simp only [List.map_append, List.mem_append]; exact .inl hi, hc⟩, hkept⟩
      · exact ⟨c, ⟨_, by simp, hc⟩, hkept⟩
    · rintro ⟨c, ⟨i, hi, hc⟩, hkept⟩
      simp only [List.map_append, List.mem_append, List.map_cons, List.map_nil,
        List.mem_singleton] at hi
      rcases hi with hi | rfl
      · exact .inl ⟨c, ⟨i, hi, hc⟩, hkept⟩
      · exact .inr ⟨c, hc, hkept⟩

/-- No result is stored twice. -/
theorem SchedInv.nodup_log (hG : G.Ready) (hsingle : SingleProducer G)
    (hX : IsPartition G.graph X) (hs : SchedInv eng T G X s)
    (pre : List (Task R ε × Inserts R ε)) (hpre : pre <+: s.joined) :
    (pre.flatMap Prod.snd).Nodup := by
  induction pre using List.reverseRecOn with
  | nil => simp
  | append_singleton pre e ih =>
    have hpre' : pre <+: s.joined := (List.prefix_append _ _).trans hpre
    have hmem : e ∈ s.joined := hpre.subset (by simp)
    have hcollects := hs.collects hG hsingle hX
    have hentries : e.2.Nodup :=
      (hs.results e hmem).nodup_iff.mpr (executePartition eng T e.1.args).nodup.of_map
    have hindex : e.1.taskIndex ∉ pre.map (fun e => e.1.taskIndex) := by
      have hnd := hs.nodup_joined.sublist (hpre.sublist.map _)
      rw [List.map_append, List.nodup_append] at hnd
      exact fun hmem => hnd.2.2 _ hmem _ (by simp) rfl
    rw [List.flatMap_append, List.flatMap_singleton, List.nodup_append]
    refine ⟨ih hpre', hentries, ?_⟩
    rintro ⟨h, o⟩ hold _ hnew rfl
    -- the producer of `h` would lie in two tasks
    obtain ⟨c, ⟨i, hi, hci⟩, m, hout, hget⟩ := (hcollects pre hpre' h o).mp hold
    have hp := allowedMap_of_outcome hsingle hout hget
    have htask : ∃ past, past <+: s.joined ∧ SpawnedAfter G X past e.1 := by
      obtain ⟨post, hpost⟩ := hpre
      obtain ⟨past, hpast, hafter⟩ := hs.joined pre e post (by simp [← hpost])
      exact ⟨past, hpast.trans hpre', hafter⟩
    obtain ⟨past, hpast, hafter⟩ := htask
    have hnew' := (hs.results e hmem).mem_iff.mp hnew
    rw [hafter.eq_taskAt] at hnew'
    have hcol := executePartition_collects hG hsingle hX (hcollects past hpast)
      (hs.downClosed hpast) hafter.preds hafter.notMem
    have hc := ((keptBy_iff hsingle hp).mp ((hcol h o).mp hnew')).1
    exact hindex (block_unique hX.topological.nodup hci hc ▸ hi)

/-- At the end exactly the outcomes of all components are stored. -/
theorem SchedInv.final_log (hG : G.Ready) (hsingle : SingleProducer G)
    (hX : IsPartition G.graph X) (hs : SchedInv eng T G X s) (hfinal : Final s) :
    Collects (componentDataflow eng T hG X).outcome (fun _ => True) s.log := by
  intro h o
  rw [SchedState.log, hs.collects hG hsingle hX s.joined List.prefix_rfl h o]
  constructor
  · rintro ⟨c, -, hkept⟩
    exact ⟨c, trivial, hkept⟩
  · rintro ⟨c, -, m, hout, hget⟩
    obtain ⟨n, hn, -⟩ := mem_execComponent
      ((componentDataflow eng T hG X).exec_of_outcome hout ▸ hget) hG
    obtain ⟨i, hi⟩ := hX.mem_some_block (List.getElem?_eq_some_iff.mp hn).1
    exact ⟨c, ⟨i, hs.final hfinal (lt_of_mem_block hi), hi⟩, m, hout, hget⟩

/-- At the end a component is marked exactly when it, or one it depends on, has
kept an error. -/
theorem SchedInv.final_flagged (hG : G.Ready) (hsingle : SingleProducer G)
    (hX : IsPartition G.graph X) (hs : SchedInv eng T G X s) (hfinal : Final s) {c : ℕ} :
    flagged G s.log c = true ↔ (componentDataflow eng T hG X).Failed c := by
  have hlog := hs.final_log hG hsingle hX hfinal
  rw [flagged_iff]
  constructor
  · rintro ⟨h, e, p, hmem, hp, hreach⟩
    obtain ⟨-, hget⟩ := (keptBy_iff hsingle hp).mp ((hlog h _).mp hmem)
    obtain ⟨m, hout, hget⟩ := Option.bind_eq_some_iff.mp hget
    exact ⟨p, m, hreach, hout, h, e, hget⟩
  · rintro ⟨d, m, hreach, hout, h, e, hget⟩
    exact ⟨h, e, d, (hlog h _).mpr ⟨d, trivial, m, hout, hget⟩,
      allowedMap_of_outcome hsingle hout hget, hreach⟩

theorem SchedInv.graph_eq (hs : SchedInv eng T G X s) :
    s.graph.results = storedResults G s.log ∧
      s.graph.graph.nodes.map ComponentNode.isUncomputable =
        (List.range G.graph.nodeCount).map (flagged G s.log) := by
  obtain ⟨taken, hstate, -⟩ := hs.state
  have hgraph : s.graph = graphAfter G s.log taken := by
    rw [hstate]
    rfl
  rw [hgraph]
  refine ⟨rfl, List.ext_getElem? fun c => ?_⟩
  rw [List.getElem?_map, getElem?_graphAfter, List.getElem?_map]
  cases hn : G.graph.nodes[c]? with
  | none =>
    have hlen : G.graph.nodeCount ≤ c := List.getElem?_eq_none_iff.mp hn
    simp [hlen]
  | some n =>
    have hlt : c < G.graph.nodeCount := (List.getElem?_eq_some_iff.mp hn).1
    simp [nodeAfter, hlt]

/-- Two runs that end store the same results and mark the same components. -/
theorem SchedInv.confluent (hG : G.Ready) (hsingle : SingleProducer G)
    (hX : IsPartition G.graph X) {s' : SchedState R ε} (hs : SchedInv eng T G X s)
    (hs' : SchedInv eng T G X s') (hfinal : Final s) (hfinal' : Final s') :
    s.graph.results.Perm s'.graph.results ∧
      s.graph.graph.nodes.map ComponentNode.isUncomputable =
        s'.graph.graph.nodes.map ComponentNode.isUncomputable := by
  have hlog := hs.final_log hG hsingle hX hfinal
  have hlog' := hs'.final_log hG hsingle hX hfinal'
  have hperm : s.log.Perm s'.log := by
    refine (List.perm_ext_iff_of_nodup (hs.nodup_log hG hsingle hX _ List.prefix_rfl)
      (hs'.nodup_log hG hsingle hX _ List.prefix_rfl)).mpr ?_
    rintro ⟨h, o⟩
    exact (hlog h o).trans (hlog' h o).symm
  rw [hs.graph_eq.1, hs'.graph_eq.1, hs.graph_eq.2, hs'.graph_eq.2]
  refine ⟨hperm.flatMap_right _, List.map_congr_left fun c _ => ?_⟩
  rw [Bool.eq_iff_iff, hs.final_flagged hG hsingle hX hfinal,
    hs'.final_flagged hG hsingle hX hfinal']

end Run

end Fhevm.Scheduler
