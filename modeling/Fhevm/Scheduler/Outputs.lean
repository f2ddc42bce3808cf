import Fhevm.Foundation.Toposort
import Fhevm.Scheduler.ComponentGraph

/-!
# The effect of storing a result

`addOutput` changes every component in a way that depends only on the graph's
shape, the recorded producer and the result. On a graph whose recorded
producers exist it never fails.

## Main definitions

* `receive` — what a component learns from a result.
* `savedResults` — the outputs that a result adds.
* `DFComponentGraph.addOutput_eq` — `addOutput` in terms of these.
-/

namespace Fhevm.Scheduler

open Foundation

variable {R ε : Type}

/-- What component `c` learns from a result of `producer`: its value, when `c`
depends on it, or that `c` cannot be computed. -/
def receive (as : List Arc) (producer : ℕ) (handle : Handle) (result : OpOutcome R ε)
    (c : ℕ) (n : ComponentNode R) : ComponentNode R :=
  match result with
  | .ok r =>
    if Adj as producer c then
      { n with inputs := n.inputs.modify handle (fun _ => some (.value r.ct r.isAllowed)) }
    else n
  | .error _ => { n with isUncomputable := n.isUncomputable || decide (Reaches as producer c) }

/-- The outputs a result adds under the producer's transaction. -/
def savedResults (transactionId handle : Handle) : OpOutcome R ε → List (DFGTxResult ε)
  | .ok r =>
    match r.isAllowed, r.compressedCt with
    | true, some cct => [⟨handle, transactionId, .ok cct⟩]
    | _, _ => []
  | .error e => [⟨handle, transactionId, .error e⟩]

/-- An allowed result comes with its compressed ciphertext. -/
def Compressed (result : OpOutcome R ε) : Prop :=
  ∀ r, result = .ok r → r.isAllowed = true → r.compressedCt.isSome

namespace DFComponentGraph

theorem updateNode_eq {g : DFComponentGraph R ε} {n : ℕ} (h : n < g.graph.nodeCount)
    (f : ComponentNode R → ComponentNode R) :
    g.updateNode n f =
      .ok { g with graph := g.graph.mapIdxNodes (fun c x => if c = n then f x else x) } := by
  rw [updateNode, if_pos h, Dag.modifyNode_eq_mapIdxNodes]

/-- Mark components as uncomputable. -/
def mark (g : DFComponentGraph R ε) (S : ℕ → Bool) : DFComponentGraph R ε :=
  { g with graph := g.graph.mapIdxNodes (fun c n =>
      { n with isUncomputable := n.isUncomputable || S c }) }

theorem mark_mark (g : DFComponentGraph R ε) (S S' : ℕ → Bool) :
    (g.mark S).mark S' = g.mark (fun c => S c || S' c) := by
  simp only [mark, Dag.mapIdxNodes_mapIdxNodes, Bool.or_assoc]

@[simp] theorem nodeCount_mark (g : DFComponentGraph R ε) (S : ℕ → Bool) :
    (g.mark S).graph.nodeCount = g.graph.nodeCount := by
  simp [mark, Dag.nodeCount]

theorem mark_none (g : DFComponentGraph R ε) : g.mark (fun _ => false) = g := by
  simp [mark, Dag.mapIdxNodes_id]

theorem updateNode_mark {g : DFComponentGraph R ε} {n : ℕ} (h : n < g.graph.nodeCount) :
    g.updateNode n ({ · with isUncomputable := true }) = .ok (g.mark (fun c => decide (c = n))) := by
  rw [updateNode_eq h, mark]
  congr 3
  funext c x
  by_cases hc : c = n <;> simp [hc]

/-- The recursion marks exactly the nodes that are reached. -/
theorem setUncomputable_eq {edges : Dag Unit Unit} {height : ℕ → ℕ}
    (hheight : ∀ u v, Adj edges.arcs u v → height v < height u) (fuel : ℕ)
    (g : DFComponentGraph R ε) (hcount : edges.nodeCount = g.graph.nodeCount) (i : ℕ)
    (hi : i < g.graph.nodeCount) (hfuel : height i < fuel) :
    setUncomputable edges fuel g i = .ok (g.mark (fun c => decide (Reaches edges.arcs i c))) := by
  induction fuel generalizing g i with
  | zero => omega
  | succ fuel ih =>
    -- the children are processed one after the other
    have hchildren : ∀ (es : List (Edge Unit)), (∀ e ∈ es, Adj edges.arcs i e.target) →
        ∀ g : DFComponentGraph R ε, edges.nodeCount = g.graph.nodeCount →
        es.foldlM (fun g e => setUncomputable edges fuel g e.target) g =
          .ok (g.mark (fun c => es.any (fun e => decide (Reaches edges.arcs e.target c)))) := by
      intro es
      induction es with
      | nil =>
        intro _ g _
        simp only [List.foldlM_nil, List.any_nil, mark_none]
        rfl
      | cons e es ihes =>
        intro hes g hcount
        have hadj := hes e List.mem_cons_self
        have hlt := hheight _ _ hadj
        have hstep := ih g hcount e.target (hcount ▸ (Dag.adj_lt hadj).2) (by omega)
        rw [List.foldlM_cons, hstep]
        simp only [bind, Except.bind]
        rw [ihes (fun e' he' => hes e' (List.mem_cons_of_mem _ he')) _ (by simpa using hcount),
          mark_mark]
        simp only [List.any_cons]
    rw [setUncomputable, updateNode_mark hi]
    simp only
    rw [hchildren _ _ _ (by simpa using hcount), mark_mark]
    · congr 2
      funext c
      rw [Bool.eq_iff_iff]
      simp only [Bool.or_eq_true, decide_eq_true_eq, List.any_eq_true, Dag.mem_outgoing]
      constructor
      · rintro (rfl | ⟨e, ⟨he, rfl⟩, hr⟩)
        · exact .refl
        · exact .head (Dag.adj_iff.mpr ⟨e, he, rfl, rfl⟩) hr
      · intro hr
        rcases Relation.ReflTransGen.cases_head hr with rfl | ⟨d, hd, hr⟩
        · exact .inl rfl
        · obtain ⟨e, he, rfl, rfl⟩ := Dag.adj_iff.mp hd
          exact .inr ⟨e, ⟨he, rfl⟩, hr⟩
    · intro e he
      obtain ⟨hmem, rfl⟩ := Dag.mem_outgoing.mp he
      exact Dag.adj_iff.mpr ⟨e, hmem, rfl, rfl⟩

/-- Forwarding along several edges modifies each target once. -/
theorem foldlM_forwardOutput {handle : Handle} {r : TaskResult R} (es : List (Edge Unit))
    (g : DFComponentGraph R ε) (hes : ∀ e ∈ es, e.target < g.graph.nodeCount) :
    es.foldlM (forwardOutput handle r) g =
      .ok { g with graph := g.graph.mapIdxNodes (fun c n =>
        if ∃ e ∈ es, e.target = c then
          { n with inputs := n.inputs.modify handle (fun _ => some (.value r.ct r.isAllowed)) }
        else n) } := by
  induction es generalizing g with
  | nil =>
    simp only [List.foldlM_nil, List.not_mem_nil, false_and, exists_false, if_false,
      Dag.mapIdxNodes_id]
    rfl
  | cons e es ih =>
    rw [List.foldlM_cons, forwardOutput, updateNode_eq (hes e List.mem_cons_self)]
    simp only [bind, Except.bind]
    rw [ih _ (fun e' he' => by
      simpa [Dag.nodeCount] using hes e' (List.mem_cons_of_mem _ he'))]
    simp only [Dag.mapIdxNodes_mapIdxNodes]
    congr 3
    funext c n
    have hidem : ∀ m : TxInputs R,
        (m.modify handle (fun _ => some (.value r.ct r.isAllowed))).modify handle
          (fun _ => some (.value r.ct r.isAllowed)) =
        m.modify handle (fun _ => some (.value r.ct r.isAllowed)) := by
      intro m
      refine HashMap.ext ?_
      simp only [HashMap.modify, HashMap.entries_mapVals, List.map_map]
      refine List.map_congr_left fun x _ => ?_
      by_cases hx : x.1 = handle <;> simp [hx]
    by_cases hc : c = e.target <;> by_cases hes : ∃ e' ∈ es, e'.target = c
    · simp [hc, hidem]
    · simp [hc, hidem]
    · have hor : ∃ e' ∈ e :: es, e'.target = c := by
        obtain ⟨e', he', rfl⟩ := hes
        exact ⟨e', List.mem_cons_of_mem _ he', rfl⟩
      simp only [hc, if_false, hes, if_true, hor]
    · have hor : ¬ ∃ e' ∈ e :: es, e'.target = c := by
        rintro ⟨e', he', rfl⟩
        rcases List.mem_cons.mp he' with rfl | he'
        · exact hc rfl
        · exact hes ⟨e', he', rfl⟩
      simp only [hc, if_false, hes, hor]

/-- Storing a result of a handle without recorded producer changes nothing. -/
theorem addOutput_none {edges : Dag Unit Unit} {g : DFComponentGraph R ε} {handle : Handle}
    {result : OpOutcome R ε} (h : g.allowedMap.get? handle = none) :
    addOutput edges g handle result = .ok g := by
  simp only [addOutput, h]

theorem saveResult_eq {g : DFComponentGraph R ε} {producer : ℕ} {tx : ComponentNode R}
    {handle : Handle} {result : OpOutcome R ε} (hn : g.graph.nodes[producer]? = some tx)
    (hsave : ∀ r, result = .ok r → r.isAllowed = true) (hc : Compressed result) :
    g.saveResult producer handle result =
      .ok { g with results := g.results ++ savedResults tx.transactionId handle result } := by
  unfold saveResult savedResults
  rw [hn]
  cases result with
  | error e => rfl
  | ok r =>
    obtain ⟨cct, hcct⟩ := Option.isSome_iff_exists.mp (hc r rfl (hsave r rfl))
    simp [hcct, hsave r rfl]

/-- The effect of `addOutput`, when the recorded producer exists. -/
theorem addOutput_eq {edges : Dag Unit Unit} {g : DFComponentGraph R ε} {handle : Handle}
    {result : OpOutcome R ε} {producer : ℕ} {tx : ComponentNode R}
    (hcount : edges.nodeCount = g.graph.nodeCount)
    (hp : g.allowedMap.get? handle = some producer)
    (htx : g.graph.nodes[producer]? = some tx) (hc : Compressed result) :
    addOutput edges g handle result =
      .ok { g with
        graph := g.graph.mapIdxNodes (receive edges.arcs producer handle result)
        results := g.results ++ savedResults tx.transactionId handle result } := by
  have hlt : producer < g.graph.nodeCount := (List.getElem?_eq_some_iff.mp htx).1
  simp only [addOutput, hp]
  cases result with
  | ok r =>
    have htargets : ∀ e ∈ edges.outgoing producer, e.target < g.graph.nodeCount := by
      intro e he
      rw [← hcount]
      exact (edges.bounded e (Dag.mem_outgoing.mp he).1).2
    have hexists : ∀ c, (∃ e ∈ edges.outgoing producer, e.target = c) ↔
        Adj edges.arcs producer c := by
      intro c
      simp only [Dag.mem_outgoing, Dag.adj_iff]
      constructor
      · rintro ⟨e, ⟨he, hs⟩, ht⟩
        exact ⟨e, he, hs, ht⟩
      · rintro ⟨e, he, hs, ht⟩
        exact ⟨e, ⟨he, hs⟩, ht⟩
    simp only [foldlM_forwardOutput _ g htargets]
    have hgraph : (g.graph.mapIdxNodes fun c n =>
        if ∃ e ∈ edges.outgoing producer, e.target = c then
          { n with inputs := n.inputs.modify handle (fun _ => some (.value r.ct r.isAllowed)) }
        else n) = g.graph.mapIdxNodes
          (receive edges.arcs producer handle (.ok r : OpOutcome R ε)) := by
      congr 1
      funext c n
      simp only [receive, hexists]
    rw [hgraph]
    split
    · rename_i hallowed
      have htx' : (g.graph.mapIdxNodes
          (receive edges.arcs producer handle (.ok r : OpOutcome R ε))).nodes[producer]? =
          some (receive edges.arcs producer handle (.ok r : OpOutcome R ε) producer tx) := by
        simp [htx]
      have htid : (receive edges.arcs producer handle (.ok r : OpOutcome R ε) producer
          tx).transactionId = tx.transactionId := by
        simp only [receive]
        split <;> rfl
      rw [saveResult_eq htx' (by rintro _ ⟨⟩; exact hallowed) hc, htid]
    · rename_i hallowed
      simp [savedResults, hallowed]
  | error e =>
    obtain ⟨height, hle, hheight⟩ := edges.acyclic.exists_height edges.arcs_bounded
    have hmark := setUncomputable_eq hheight (edges.nodeCount + 1) g hcount producer hlt
      (Nat.lt_succ_of_le (hle producer))
    simp only [hmark]
    have htx' : (g.mark (fun c => decide (Reaches edges.arcs producer c))).graph.nodes[producer]? =
        some (receive edges.arcs producer handle (.error e) producer tx) := by
      simp [mark, htx, receive]
    rw [saveResult_eq htx' (by rintro _ ⟨⟩) hc]
    rfl

end DFComponentGraph

end Fhevm.Scheduler
