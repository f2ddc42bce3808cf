import Fhevm.Foundation.Dataflow
import Fhevm.Scheduler.ScheduleInvariant

/-!
# What a run computes

When every handle has a single producing component, the components form a
dataflow: the results kept for a component are a function of those of the
components it depends on, and a component that depends on an error of another
task is not run. The results stored in any run are the outcomes of that dataflow.

## Main definitions

* `SingleProducer` — every handle has one producing component.
* `componentDataflow` — the dataflow of a graph and a partition.
* `Collects` — a list of results contains the outcomes of given components.
* `SchedInv.collects` — the results stored in a run.
-/

namespace Fhevm.Scheduler

open Foundation

variable {R S ε : Type}

/-! ## The dataflow of the components -/

/-- Every handle is produced by one component only. -/
def SingleProducer (G : DFComponentGraph R ε) : Prop :=
  ∀ (c d : ℕ) (n m : ComponentNode R) (h : Handle), G.graph.nodes[c]? = some n →
    G.graph.nodes[d]? = some m → h ∈ n.results → h ∈ m.results → c = d

theorem singleProducer_of_nodup {G : DFComponentGraph R ε}
    (h : (G.graph.nodes.flatMap ComponentNode.results).Nodup) : SingleProducer G := by
  intro c d n m k hn hm hkn hkm
  rw [List.nodup_flatMap] at h
  have hpw := List.pairwise_iff_getElem.mp h.2
  obtain ⟨hc, rfl⟩ := List.getElem?_eq_some_iff.mp hn
  obtain ⟨hd, rfl⟩ := List.getElem?_eq_some_iff.mp hm
  by_contra hne
  rcases Nat.lt_or_gt_of_ne hne with hlt | hlt
  · exact hpw c d hc hd hlt hkn hkm
  · exact hpw d c hd hc hlt hkm hkn

/-- The results kept for a component, by handle. -/
abbrev Kept (R ε : Type) := HashMap Handle (OpOutcome R ε)

/-- The ciphertext that the recorded producer of a handle kept for it. -/
def available (G : DFComponentGraph R ε) (out : ℕ → Option (Kept R ε)) (h : Handle) :
    Option (TaskResult R) :=
  (G.allowedMap.get? h).bind fun p => okResult ((out p).bind (·.get? h))

def execComponent (eng : FheEngine R S ε) (T : Toposort) (G : DFComponentGraph R ε) (c : ℕ)
    (out : ℕ → Option (Kept R ε)) : Kept R ε :=
  match G.graph.nodes[c]? with
  | none => HashMap.empty
  | some n => HashMap.empty.insertAll (executeWith eng T (available G out) n.toArgs)

def SameBlock (X : Dag ExecNode Unit) (d c : ℕ) : Prop := ∃ i, d ∈ block X i ∧ c ∈ block X i

/-- Some kept result is an error. -/
def KeepsError (m : Kept R ε) : Prop := ∃ h e, m.get? h = some (.error e)

def componentDataflow (eng : FheEngine R S ε) (T : Toposort) {G : DFComponentGraph R ε}
    (hG : G.Ready) (X : Dag ExecNode Unit) : Dataflow ℕ (Kept R ε) where
  dep := Adj G.graph.arcs
  wellFounded := G.graph.wellFounded
  same := SameBlock X
  exec := execComponent eng T G
  reports := KeepsError
  exec_congr c f f' hf := by
    unfold execComponent
    cases hn : G.graph.nodes[c]? with
    | none => rfl
    | some n =>
      refine congrArg (HashMap.insertAll HashMap.empty) (executeWith_congr fun k hk => ?_)
      unfold available
      cases hp : G.allowedMap.get? k with
      | none => rfl
      | some p =>
        have hkey : k ∈ n.inputs.keys := by
          rw [← HashMap.get?_isSome, show n.inputs.get? k = some none from hk]
          rfl
        simp only [Option.bind_some, hf p (hG.adj_of_input hn hkey hp)]

section Dataflow

variable {eng : FheEngine R S ε} {T : Toposort} {G : DFComponentGraph R ε} {hG : G.Ready}
  {X : Dag ExecNode Unit}

/-- What a component keeps belongs to its results. -/
theorem mem_execComponent {c : ℕ} {out : ℕ → Option (Kept R ε)} {h : Handle} {o : OpOutcome R ε}
    (hmem : (execComponent eng T G c out).get? h = some o) (hG : G.Ready) :
    ∃ n, G.graph.nodes[c]? = some n ∧ h ∈ n.results ∧
      (h, o) ∈ executeWith eng T (available G out) n.toArgs := by
  unfold execComponent at hmem
  cases hn : G.graph.nodes[c]? with
  | none => simp [hn] at hmem
  | some n =>
    rw [hn] at hmem
    rcases HashMap.mem_of_get?_insertAll hmem with hmem | hmem
    · simp at hmem
    obtain ⟨⟨op, hop, hh⟩, -⟩ := mem_executeWith hmem
    obtain ⟨operations, hnodes, -, hresults, -⟩ := hG.built n (List.mem_of_getElem? hn)
    refine ⟨n, rfl, ?_, hmem⟩
    rw [hresults]
    simp only [ComponentNode.toArgs, hnodes, List.mem_map] at hop
    obtain ⟨d, hd, rfl⟩ := hop
    exact List.mem_map.mpr ⟨d, hd, hh⟩

theorem SingleProducer.allowedMap (hsingle : SingleProducer G) (hG : G.Ready) {c : ℕ}
    {n : ComponentNode R} {h : Handle} (hn : G.graph.nodes[c]? = some n) (hh : h ∈ n.results) :
    G.allowedMap.get? h = some c := by
  obtain ⟨p, hp⟩ : ∃ p, G.allowedMap.get? h = some p := by
    rw [hG.allowedMap_eq]
    exact Option.isSome_iff_exists.mp
      (HashMap.get?_lastIndex_isSome.mpr ⟨n, List.mem_of_getElem? hn, hh⟩)
  rw [hp]
  rw [hG.allowedMap_eq] at hp
  obtain ⟨⟨m, hm, hmem⟩, -⟩ := allowedMapOf_eq_some.mp hp
  rw [hsingle p c m n h hm hn hmem hh]

/-- The producer of what a component keeps is the component itself. -/
theorem allowedMap_of_outcome (hsingle : SingleProducer G) {c : ℕ} {m : Kept R ε} {h : Handle}
    {o : OpOutcome R ε} (hout : (componentDataflow eng T hG X).outcome c = some m)
    (hget : m.get? h = some o) : G.allowedMap.get? h = some c := by
  rw [(componentDataflow eng T hG X).exec_of_outcome hout] at hget
  obtain ⟨n, hn, hh, -⟩ := mem_execComponent hget hG
  exact hsingle.allowedMap hG hn hh

/-! ## Blocks -/

theorem IsPartition.mem_some_block (hX : IsPartition G.graph X) {c : ℕ}
    (hc : c < G.graph.nodeCount) : ∃ i, c ∈ block X i :=
  mem_flatten_blocks.mp (hX.topological.mem_iff.mpr hc)

/-- A path between components is a path between their blocks. -/
theorem IsPartition.reaches_blocks (hX : IsPartition G.graph X) {d c i j : ℕ}
    (h : Reaches G.graph.arcs d c) (hd : d ∈ block X j) (hc : c ∈ block X i) :
    Reaches X.arcs j i := by
  induction h generalizing i with
  | refl => rw [block_unique hX.topological.nodup hd hc]
  | @tail b c _ hbc ih =>
    obtain ⟨k, hk⟩ := hX.mem_some_block (Dag.adj_lt hbc).1
    have hjk := ih hk
    by_cases hki : k = i
    · exact hki ▸ hjk
    · exact hjk.tail ((hX.adj_iff k i).mpr ⟨hki, b, hk, c, hc, hbc⟩)

theorem IsPartition.convex (hX : IsPartition G.graph X) (eng : FheEngine R S ε) (T : Toposort)
    (hG : G.Ready) :
    (componentDataflow eng T hG X).Convex := by
  rintro a b c hab hbc ⟨i, ha, hc⟩
  obtain ⟨j, hj⟩ := hX.mem_some_block (c := b) (by
    obtain ⟨k, hbk, -⟩ := Relation.TransGen.head'_iff.mp hbc
    exact (Dag.adj_lt hbk).1)
  have hij := hX.reaches_blocks hab.to_reflTransGen ha hj
  have hji := hX.reaches_blocks hbc.to_reflTransGen hj hc
  -- a path to another block and back would be a cycle
  rcases Relation.reflTransGen_iff_eq_or_transGen.mp hij with heq | hij
  · exact ⟨i, ha, heq ▸ hj⟩
  · exact absurd (hij.trans_left hji) (X.acyclic i)

theorem IsPartition.not_same (hX : IsPartition G.graph X) {c d i j : ℕ} (hd : d ∈ block X j)
    (hc : c ∈ block X i) (hne : j ≠ i) : ¬ SameBlock X d c := by
  rintro ⟨k, hdk, hck⟩
  exact hne ((block_unique hX.topological.nodup hd hdk).trans
    (block_unique hX.topological.nodup hck hc))

end Dataflow

/-! ## Collected outcomes -/

theorem mem_of_lastOk {L : Inserts R ε} {h : Handle} {r : TaskResult R}
    (hlast : lastOk L h = some r) : (h, .ok r) ∈ L := by
  induction L using List.reverseRecOn with
  | nil => simp [lastOk] at hlast
  | append_singleton L e ih =>
    rw [lastOk_concat] at hlast
    rw [List.mem_append, List.mem_singleton]
    obtain ⟨k, o⟩ := e
    split at hlast
    · rename_i hk
      cases o with
      | error e => exact .inl (ih (by simpa [okResult] using hlast))
      | ok r' =>
        simp only [okResult, Option.some_or, Option.some.injEq] at hlast
        exact .inr (by rw [← hlast, ← hk])
    · exact .inl (ih hlast)

theorem lastOk_isSome {L : Inserts R ε} {h : Handle} {r : TaskResult R} (hmem : (h, .ok r) ∈ L) :
    (lastOk L h).isSome := by
  induction L using List.reverseRecOn with
  | nil => simp at hmem
  | append_singleton L e ih =>
    rw [lastOk_concat]
    rcases List.mem_append.mp hmem with hmem | hmem
    · split
      · simp [Option.isSome_or, ih hmem]
      · exact ih hmem
    · rw [← List.mem_singleton.mp hmem]
      simp [okResult]

/-- When only one outcome is listed for a handle, the latest is that one. -/
theorem lastOk_eq {L : Inserts R ε} {h : Handle} {v : Option (OpOutcome R ε)}
    (hL : ∀ o, (h, o) ∈ L ↔ v = some o) : lastOk L h = okResult v := by
  have hnone : (∀ r, v ≠ some (.ok r)) → lastOk L h = none := by
    intro hv
    cases hlast : lastOk L h with
    | none => rfl
    | some r => exact absurd ((hL _).mp (mem_of_lastOk hlast)) (hv r)
  cases v with
  | none => exact hnone (by simp)
  | some o =>
    cases o with
    | error e => exact hnone (by simp)
    | ok r =>
      obtain ⟨r', hr'⟩ := Option.isSome_iff_exists.mp (lastOk_isSome ((hL _).mpr rfl))
      have hsame := (hL _).mp (mem_of_lastOk hr')
      simp only [Option.some.injEq, Except.ok.injEq] at hsame
      rw [hr', ← hsame]
      rfl

/-- The components `cs` keep the outcome `o` under the handle `h`. -/
def KeptBy (out : ℕ → Option (Kept R ε)) (cs : ℕ → Prop) (h : Handle) (o : OpOutcome R ε) : Prop :=
  ∃ c, cs c ∧ ∃ m, out c = some m ∧ m.get? h = some o

/-- The results `L` are those of the components `cs`. -/
def Collects (out : ℕ → Option (Kept R ε)) (cs : ℕ → Prop) (L : Inserts R ε) : Prop :=
  ∀ h o, (h, o) ∈ L ↔ KeptBy out cs h o

section Collected

variable {eng : FheEngine R S ε} {T : Toposort} {G : DFComponentGraph R ε} {hG : G.Ready}
  {X : Dag ExecNode Unit}

/-- What is kept under a handle with a recorded producer was kept by the producer. -/
theorem keptBy_iff (hsingle : SingleProducer G) {cs : ℕ → Prop} {h : Handle} {p : ℕ}
    (hp : G.allowedMap.get? h = some p) {o : OpOutcome R ε} :
    KeptBy (componentDataflow eng T hG X).outcome cs h o ↔
      cs p ∧ ((componentDataflow eng T hG X).outcome p).bind (·.get? h) = some o := by
  constructor
  · rintro ⟨c, hc, m, hout, hget⟩
    have := allowedMap_of_outcome hsingle hout hget
    rw [hp] at this
    cases this
    exact ⟨hc, by simp [hout, hget]⟩
  · rintro ⟨hc, hget⟩
    obtain ⟨m, hout, hget⟩ := Option.bind_eq_some_iff.mp hget
    exact ⟨p, hc, m, hout, hget⟩

theorem not_keptBy (hsingle : SingleProducer G) {cs : ℕ → Prop} {h : Handle}
    (hp : G.allowedMap.get? h = none) {o : OpOutcome R ε} :
    ¬ KeptBy (componentDataflow eng T hG X).outcome cs h o := by
  rintro ⟨c, -, m, hout, hget⟩
  have := allowedMap_of_outcome hsingle hout hget
  rw [hp] at this
  cases this

/-! ## One task -/

/-- The components of the tasks with the given indices. -/
def InBlocks (X : Dag ExecNode Unit) (is : List ℕ) (c : ℕ) : Prop := ∃ i ∈ is, c ∈ block X i

/-- Tasks whose predecessors are among them. -/
def DownClosed (X : Dag ExecNode Unit) (is : List ℕ) : Prop :=
  ∀ j k, Adj X.arcs j k → k ∈ is → j ∈ is

theorem DownClosed.mem_of_reaches {is : List ℕ} (h : DownClosed X is) {i j : ℕ}
    (hpreds : ∀ k, Adj X.arcs k i → k ∈ is) (hji : Reaches X.arcs j i) : j = i ∨ j ∈ is := by
  induction hji using Relation.ReflTransGen.head_induction_on with
  | refl => exact .inl rfl
  | head hjk _ ih =>
    rcases ih with rfl | hk
    · exact .inr (hpreds _ hjk)
    · exact .inr (h _ _ hjk hk)

/-- Marked components are those cut off by another task. -/
theorem flagged_iff_cutOff (hsingle : SingleProducer G) (hX : IsPartition G.graph X)
    {L : Inserts R ε} {is : List ℕ} {i c : ℕ}
    (hL : Collects (componentDataflow eng T hG X).outcome (InBlocks X is) L)
    (hclosed : DownClosed X is) (hpreds : ∀ k, Adj X.arcs k i → k ∈ is) (hi : i ∉ is)
    (hc : c ∈ block X i) : flagged G L c = true ↔
      (componentDataflow eng T hG X).CutOff (componentDataflow eng T hG X).outcome c := by
  rw [flagged_iff]
  constructor
  · rintro ⟨h, e, p, hmem, hp, hreach⟩
    obtain ⟨⟨j, hj, hpj⟩, hget⟩ := (keptBy_iff hsingle hp).mp ((hL _ _).mp hmem)
    obtain ⟨m, hout, hget⟩ := Option.bind_eq_some_iff.mp hget
    have hji : j ≠ i := fun h => hi (h ▸ hj)
    refine ⟨p, m, hX.not_same hpj hc hji, ?_, hout, h, e, hget⟩
    rcases Relation.reflTransGen_iff_eq_or_transGen.mp hreach with rfl | hreach
    · exact absurd (block_unique hX.topological.nodup hpj hc) hji
    · exact hreach
  · rintro ⟨d, m, hsame, hbefore, hout, h, e, hget⟩
    have hd : d < G.graph.nodeCount := by
      obtain ⟨k, hdk, -⟩ := Relation.TransGen.head'_iff.mp hbefore
      exact (Dag.adj_lt hdk).1
    obtain ⟨j, hj⟩ := hX.mem_some_block hd
    have hreach := Relation.TransGen.to_reflTransGen hbefore
    refine ⟨h, e, d, (hL _ _).mpr ⟨d, ⟨j, ?_, hj⟩, m, hout, hget⟩,
      allowedMap_of_outcome hsingle hout hget, hreach⟩
    rcases hclosed.mem_of_reaches hpreds (hX.reaches_blocks hreach hj hc) with rfl | hmem
    · exact absurd ⟨j, hj, hc⟩ hsame
    · exact hmem

end Collected

end Fhevm.Scheduler
