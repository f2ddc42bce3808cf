import Fhevm.Foundation.Toposort
import Fhevm.Scheduler.Types

/-!
# Partitioning a dataflow graph into tasks

Both partition strategies turn a graph into an execution graph whose nodes are
blocks of graph nodes. Coarsening for parallelism follows chains, that is edges
whose source has no other successor and whose target no other predecessor;
coarsening for locality takes whole connected components.

## Main definitions

* `partitionPreservingParallelism`, `partitionComponents` — the two strategies.
* `Chained` — the edges along which the first strategy coarsens.
* `IsPartition` — what both strategies promise.
-/

namespace Fhevm.Scheduler

open Foundation

variable {N E : Type}

/-! ## The source -/

structure ExecNode where
  dfNodes : List ℕ
  dependenceCounter : ℕ
deriving DecidableEq, Repr

def usizeMax : ℕ := 2 ^ 64 - 1

/-- One child of a popped node: visit it when it has no other predecessor. -/
def visitChild (g : Dag N E) (s : List ℕ × List ℕ × List ℕ) (e : Edge E) :
    List ℕ × List ℕ × List ℕ :=
  let (stack, dfNodes, vis) := s
  if e.target ∉ vis ∧ (g.incoming e.target).length = 1 then
    (e.target :: stack, dfNodes ++ [e.target], e.target :: vis)
  else s

/-- The inner loop: pop a node, continue with its only child. The first
component of the result is the block, the second the visit map. -/
def growBlock (g : Dag N E) : ℕ → List ℕ → List ℕ → List ℕ → List ℕ × List ℕ
  | 0, _, dfNodes, vis => (dfNodes, vis)
  | _ + 1, [], dfNodes, vis => (dfNodes, vis)
  | fuel + 1, n :: stack, dfNodes, vis =>
    if (g.outgoing n).length = 1 then
      let (stack, dfNodes, vis) := (g.outgoing n).foldl (visitChild g) (stack, dfNodes, vis)
      growBlock g fuel stack dfNodes vis
    else growBlock g fuel stack dfNodes vis

/-- One round of the outer loop: start a block at an unvisited node. -/
def partitionFrom (g : Dag N E) (s : List ℕ × Dag ExecNode Unit) (nidx : ℕ) :
    List ℕ × Dag ExecNode Unit :=
  let (vis, executionGraph) := s
  if nidx ∈ vis then s
  else
    -- each round of the inner loop visits a new node
    let (dfNodes, vis) := growBlock g (g.nodeCount + 1) [nidx] [nidx] (nidx :: vis)
    (vis, executionGraph.addNode ⟨dfNodes, usizeMax⟩)

/-- The execution node that lists a graph node. -/
def nodeMap (executionGraph : Dag ExecNode Unit) (n : ℕ) : Option ℕ :=
  executionGraph.nodes.findIdx? (fun x => n ∈ x.dfNodes)

/-- Add the dependence of one edge; a refused edge is ignored. -/
def addExecutionDepedence (executionGraph : Dag ExecNode Unit) (e : Edge E) :
    Except SchedulerError (Dag ExecNode Unit) :=
  match nodeMap executionGraph e.source, nodeMap executionGraph e.target with
  | some xsrc, some xdst =>
    if xsrc ≠ xdst ∧ ¬ Adj executionGraph.arcs xsrc xdst then
      .ok ((executionGraph.addEdge xsrc xdst ()).getD executionGraph)
    else .ok executionGraph
  | _, _ => .error .dataflowGraphError

/-- Store the number of dependences of every execution node. -/
def countDependences (executionGraph : Dag ExecNode Unit) : Dag ExecNode Unit :=
  executionGraph.mapIdxNodes (fun i x =>
    { x with dependenceCounter := (executionGraph.incoming i).length })

def addExecutionDepedences (g : Dag N E) (executionGraph : Dag ExecNode Unit) :
    Except SchedulerError (Dag ExecNode Unit) :=
  (g.edges.foldlM addExecutionDepedence executionGraph).map countDependences

def partitionPreservingParallelism (T : Toposort) (g : Dag N E) :
    Except SchedulerError (Dag ExecNode Unit) :=
  match g.toposort T with
  | none => .error .cyclicDependence
  | some ts => addExecutionDepedences g (ts.foldl (partitionFrom g) ([], Dag.empty)).2

/-! ## Chains -/

/-- The edge from `u` to `v` is the only one leaving `u` and the only one entering `v`. -/
def Chained (as : List Arc) (u v : ℕ) : Prop :=
  outDegree as u = 1 ∧ inDegree as v = 1 ∧ Adj as u v

instance (as : List Arc) (u v : ℕ) : Decidable (Chained as u v) :=
  inferInstanceAs (Decidable (_ ∧ _ ∧ _))

theorem Chained.target_unique {as : List Arc} {u v w : ℕ} (h : Chained as u v)
    (hw : Adj as u w) : v = w := eq_of_outDegree_one h.1 h.2.2 hw

theorem Chained.source_unique {as : List Arc} {u v w : ℕ} (h : Chained as u v)
    (hw : Adj as w v) : u = w := eq_of_inDegree_one h.2.1 h.2.2 hw

theorem chained_map {as : List Arc} {f : ℕ → ℕ} {u v : ℕ}
    (hu : ∀ a ∈ as, f a.1 = f u → a.1 = u) (hv : ∀ a ∈ as, f a.2 = f v → a.2 = v) :
    Chained (as.map (fun a => (f a.1, f a.2))) (f u) (f v) ↔ Chained as u v := by
  rw [Chained, Chained, outDegree_map hu, inDegree_map hv, adj_map hu hv]

/-- The child that the inner loop continues with. -/
def nextInChain (g : Dag N E) (vis : List ℕ) (n : ℕ) : Option ℕ :=
  match g.outgoing n with
  | [e] => if e.target ∉ vis ∧ (g.incoming e.target).length = 1 then some e.target else none
  | _ => none

theorem nextInChain_eq_some {g : Dag N E} {vis : List ℕ} {n c : ℕ}
    (h : nextInChain g vis n = some c) : Chained g.arcs n c ∧ c ∉ vis := by
  unfold nextInChain at h
  split at h
  · rename_i e he
    split at h
    · rename_i hc
      cases h
      have hmem : e ∈ g.outgoing n := by simp [he]
      obtain ⟨hes, hsrc⟩ := Dag.mem_outgoing.mp hmem
      refine ⟨⟨?_, ?_, ?_⟩, hc.1⟩
      · rw [← Dag.length_outgoing, he]
        rfl
      · rw [← Dag.length_incoming]
        exact hc.2
      · exact Dag.adj_iff.mpr ⟨e, hes, hsrc, rfl⟩
    · cases h
  · cases h

theorem nextInChain_eq_none {g : Dag N E} {vis : List ℕ} {n c : ℕ}
    (h : nextInChain g vis n = none) (hc : Chained g.arcs n c) : c ∈ vis := by
  obtain ⟨hout, hin, hadj⟩ := hc
  obtain ⟨e, hes, hsrc, rfl⟩ := Dag.adj_iff.mp hadj
  rw [← Dag.length_outgoing, List.length_eq_one_iff] at hout
  obtain ⟨e', he'⟩ := hout
  have hmem : e ∈ g.outgoing n := Dag.mem_outgoing.mpr ⟨hes, hsrc⟩
  rw [he', List.mem_singleton] at hmem
  subst hmem
  by_contra hvis
  rw [← Dag.length_incoming] at hin
  simp [nextInChain, he', hvis, hin] at h

/-- The inner loop pops a node and continues with the next one of its chain. -/
theorem growBlock_cons (g : Dag N E) (fuel n : ℕ) (stack dfNodes vis : List ℕ) :
    growBlock g (fuel + 1) (n :: stack) dfNodes vis =
      match nextInChain g vis n with
      | some c => growBlock g fuel (c :: stack) (dfNodes ++ [c]) (c :: vis)
      | none => growBlock g fuel stack dfNodes vis := by
  rw [growBlock]
  split
  · rename_i h
    obtain ⟨e, he⟩ := List.length_eq_one_iff.mp h
    simp only [nextInChain, he, List.foldl_cons, List.foldl_nil, visitChild]
    split_ifs <;> rfl
  · rename_i h
    have hnone : nextInChain g vis n = none := by
      unfold nextInChain
      split
      · rename_i e he
        simp [he] at h
      · rfl
    rw [hnone]

theorem growBlock_nil (g : Dag N E) (fuel : ℕ) (dfNodes vis : List ℕ) :
    growBlock g fuel [] dfNodes vis = (dfNodes, vis) := by
  cases fuel <;> rfl

/-- The number of nodes not yet visited. -/
def unvisited (g : Dag N E) (vis : List ℕ) : ℕ := (List.range g.nodeCount).countP (· ∉ vis)

theorem unvisited_cons_lt {g : Dag N E} {vis : List ℕ} {c : ℕ} (hc : c < g.nodeCount)
    (hvis : c ∉ vis) : unvisited g (c :: vis) < unvisited g vis := by
  have hrange : (List.range g.nodeCount).Perm (c :: (List.range g.nodeCount).erase c) :=
    List.perm_cons_erase (List.mem_range.mpr hc)
  have hle : ((List.range g.nodeCount).erase c).countP (· ∉ c :: vis) ≤
      ((List.range g.nodeCount).erase c).countP (· ∉ vis) :=
    List.countP_mono_left (by simp +contextual)
  unfold unvisited
  rw [hrange.countP_eq, hrange.countP_eq, List.countP_cons, List.countP_cons]
  simp only [List.mem_cons, true_or, not_true_eq_false, decide_false, hvis, not_false_eq_true,
    decide_true, Bool.false_eq_true, if_false, if_true] at hle ⊢
  omega

/-- What the inner loop adds to a block that ends in `n`. -/
structure Extends (g : Dag N E) (n : ℕ) (vis ext : List ℕ) : Prop where
  chain : (n :: ext).IsChain (Chained g.arcs)
  fresh : ∀ x ∈ ext, x ∉ vis
  nodup : ext.Nodup
  complete : ∀ c, Chained g.arcs ((n :: ext).getLast (by simp)) c → c ∈ ext.reverse ++ vis

theorem growBlock_spec {g : Dag N E} {fuel : ℕ} (n : ℕ) (dfNodes : List ℕ) {vis : List ℕ}
    (hfuel : unvisited g vis < fuel) :
    ∃ ext, growBlock g fuel [n] dfNodes vis = (dfNodes ++ ext, ext.reverse ++ vis) ∧
      Extends g n vis ext := by
  induction fuel generalizing n dfNodes vis with
  | zero => omega
  | succ fuel ih =>
    rw [growBlock_cons]
    cases hc : nextInChain g vis n with
    | none =>
      refine ⟨[], by simp [growBlock_nil], ⟨by simp, by simp, by simp, fun c h => ?_⟩⟩
      simpa using nextInChain_eq_none hc h
    | some c =>
      obtain ⟨hchain, hvis⟩ := nextInChain_eq_some hc
      have hlt := unvisited_cons_lt (Dag.adj_lt hchain.2.2).2 hvis
      have hfuel' : unvisited g (c :: vis) < fuel := by omega
      obtain ⟨ext, hext, he⟩ := ih c (dfNodes ++ [c]) hfuel'
      refine ⟨c :: ext, by simp [hext], ⟨?_, ?_, ?_, ?_⟩⟩
      · exact List.isChain_cons_cons.mpr ⟨hchain, he.chain⟩
      · intro x hx
        rcases List.mem_cons.mp hx with rfl | hx
        · exact hvis
        · exact fun h => he.fresh x hx (List.mem_cons_of_mem _ h)
      · exact List.nodup_cons.mpr ⟨fun h => he.fresh c h List.mem_cons_self, he.nodup⟩
      · intro d hd
        have := he.complete d (by simpa using hd)
        simpa using this

/-! ## Lists linked by a relation -/

section Linked

variable {α : Type*} {r : α → α → Prop} {l : List α} {x : α}

theorem head_or_pred (h : l.IsChain r) (hx : x ∈ l) : l.head? = some x ∨ ∃ w ∈ l, r w x := by
  induction l with
  | nil => simp at hx
  | cons a l ih =>
    rcases List.mem_cons.mp hx with rfl | hx
    · exact .inl rfl
    · refine .inr ?_
      cases l with
      | nil => simp at hx
      | cons b l =>
        obtain ⟨hab, hl⟩ := List.isChain_cons_cons.mp h
        rcases ih hl hx with hhead | ⟨w, hw, hwx⟩
        · cases hhead
          exact ⟨a, List.mem_cons_self, hab⟩
        · exact ⟨w, List.mem_cons_of_mem _ hw, hwx⟩

theorem last_or_succ (h : l.IsChain r) (hx : x ∈ l) : l.getLast? = some x ∨ ∃ w ∈ l, r x w := by
  induction l with
  | nil => simp at hx
  | cons a l ih =>
    cases l with
    | nil =>
      rw [List.mem_singleton.mp hx]
      exact .inl rfl
    | cons b l =>
      obtain ⟨hab, hl⟩ := List.isChain_cons_cons.mp h
      rcases List.mem_cons.mp hx with rfl | hx
      · exact .inr ⟨b, by simp, hab⟩
      · rcases ih hl hx with hlast | ⟨w, hw, hxw⟩
        · exact .inl (by simpa using hlast)
        · exact .inr ⟨w, List.mem_cons_of_mem _ hw, hxw⟩

/-- What the relation preserves is constant along a chain. -/
theorem eq_of_isChain {β : Type*} {f : α → β} (hf : ∀ a b, r a b → f a = f b) (h : l.IsChain r)
    {y : α} (hx : x ∈ l) (hy : y ∈ l) : f x = f y := by
  have hhead : ∀ l : List α, l.IsChain r → ∀ x ∈ l, some (f x) = l.head?.map f := by
    intro l h
    induction l with
    | nil => simp
    | cons a l ih =>
      intro x hx
      rcases List.mem_cons.mp hx with rfl | hx
      · rfl
      · cases l with
        | nil => simp at hx
        | cons b l =>
          obtain ⟨hab, hl⟩ := List.isChain_cons_cons.mp h
          rw [ih hl x hx]
          simp [hf a b hab]
  exact Option.some.inj ((hhead l h x hx).trans (hhead l h y hy).symm)

/-- Every element reaches the last one. -/
theorem reaches_getLast (h : l.IsChain r) (hx : x ∈ l) {y : α} (hy : l.getLast? = some y) :
    Relation.ReflTransGen r x y := by
  induction l generalizing x with
  | nil => simp at hx
  | cons a l ih =>
    cases l with
    | nil =>
      simp only [List.getLast?_singleton, Option.some.injEq] at hy
      rw [List.mem_singleton.mp hx, hy]
    | cons b l =>
      obtain ⟨hab, hl⟩ := List.isChain_cons_cons.mp h
      have hy' : (b :: l).getLast? = some y := by simpa using hy
      rcases List.mem_cons.mp hx with rfl | hx
      · exact .head hab (ih hl List.mem_cons_self hy')
      · exact ih hl hx hy'

theorem pairwise_transGen (h : l.IsChain r) : l.Pairwise (Relation.TransGen r) :=
  List.isChain_iff_pairwise.mp (h.imp fun _ _ => .single)

end Linked

/-- In a chain that is listed in dependence order, all edges are edges of the chain. -/
theorem chained_of_isChain {as : List Arc} (hirrefl : ∀ u, ¬ Adj as u u) {b : List ℕ}
    (hchain : b.IsChain (Chained as)) (hord : b.Pairwise (fun u v => ¬ Adj as v u)) {u v : ℕ}
    (hu : u ∈ b) (hv : v ∈ b) (huv : Adj as u v) : Chained as u v := by
  rcases head_or_pred hchain hv with hhead | ⟨w, -, hwv⟩
  · -- `u` would come after the head of its block
    cases b with
    | nil => simp at hu
    | cons a b =>
      simp only [List.head?_cons, Option.some.injEq] at hhead
      subst hhead
      rcases List.mem_cons.mp hu with rfl | hu
      · exact absurd huv (hirrefl u)
      · exact absurd huv ((List.pairwise_cons.mp hord).1 u hu)
  · rw [← hwv.source_unique huv]
    exact hwv

/-! ## The blocks of the parallel strategy -/

/-- The blocks of an execution graph. -/
def blocks (X : Dag ExecNode Unit) : List (List ℕ) := X.nodes.map ExecNode.dfNodes

/-- The invariant of the outer loop: the blocks are whole chains, listed so that
the predecessors of a block come before it. -/
structure ChainBlocks (g : Dag N E) (vis : List ℕ) (bs : List (List ℕ)) : Prop where
  mem_vis : ∀ x, x ∈ vis ↔ x ∈ bs.flatten
  nodup : bs.flatten.Nodup
  bounded : ∀ x ∈ bs.flatten, x < g.nodeCount
  ne_nil : ∀ b ∈ bs, b ≠ []
  chain : ∀ b ∈ bs, b.IsChain (Chained g.arcs)
  head_preds : ∀ B₁ b B₂ v, bs = B₁ ++ b :: B₂ → b.head? = some v →
    ∀ u, Adj g.arcs u v → u ∈ B₁.flatten
  maximal : ∀ b ∈ bs, ∀ u v, b.getLast? = some u → ¬ Chained g.arcs u v

namespace ChainBlocks

variable {g : Dag N E} {vis : List ℕ} {bs : List (List ℕ)}

theorem empty (g : Dag N E) : ChainBlocks g [] [] where
  mem_vis := by simp
  nodup := by simp
  bounded := by simp
  ne_nil := by simp
  chain := by simp
  head_preds := by simp
  maximal := by simp

/-- A predecessor of a node lies in an earlier block or is its chain predecessor. -/
theorem pred_mem (h : ChainBlocks g vis bs) {B₁ b B₂} (hsplit : bs = B₁ ++ b :: B₂) {u v : ℕ}
    (hv : v ∈ b) (huv : Adj g.arcs u v) : u ∈ B₁.flatten ∨ (u ∈ b ∧ Chained g.arcs u v) := by
  have hb : b ∈ bs := by simp [hsplit]
  rcases head_or_pred (h.chain b hb) hv with hhead | ⟨w, hw, hwv⟩
  · exact .inl (h.head_preds _ _ _ v hsplit hhead u huv)
  · rw [← hwv.source_unique huv]
    exact .inr ⟨hw, hwv⟩

/-- Visited nodes have visited predecessors. -/
theorem vis_closed (h : ChainBlocks g vis bs) {u v : ℕ} (hv : v ∈ vis) (huv : Adj g.arcs u v) :
    u ∈ vis := by
  obtain ⟨b, hb, hvb⟩ := List.mem_flatten.mp ((h.mem_vis v).mp hv)
  obtain ⟨B₁, B₂, hsplit⟩ := List.append_of_mem hb
  rw [h.mem_vis, hsplit, List.flatten_append, List.flatten_cons]
  rcases h.pred_mem hsplit hvb huv with hu | ⟨hu, -⟩ <;> simp [hu]

/-- Chained nodes share a block. -/
theorem same_block (h : ChainBlocks g vis bs) {b : List ℕ} (hb : b ∈ bs) {u v : ℕ}
    (hu : u ∈ b) (huv : Chained g.arcs u v) : v ∈ b := by
  rcases last_or_succ (h.chain b hb) hu with hlast | ⟨w, hw, huw⟩
  · exact absurd huv (h.maximal b hb u v hlast)
  · rwa [huv.target_unique huw.2.2]

/-- A new block keeps the invariant. -/
theorem snoc (h : ChainBlocks g vis bs) {nidx : ℕ} {ext : List ℕ} (hlt : nidx < g.nodeCount)
    (hvis : nidx ∉ vis) (hpreds : ∀ u, Adj g.arcs u nidx → u ∈ vis)
    (hext : Extends g nidx (nidx :: vis) ext) :
    ChainBlocks g (ext.reverse ++ nidx :: vis) (bs ++ [nidx :: ext]) := by
  have hnew : ∀ x ∈ nidx :: ext, x ∉ vis := by
    intro x hx
    rcases List.mem_cons.mp hx with rfl | hx
    · exact hvis
    · exact fun hv => hext.fresh x hx (List.mem_cons_of_mem _ hv)
  refine
    { mem_vis := fun x => ?_
      nodup := ?_
      bounded := fun x hx => ?_
      ne_nil := fun b hb => ?_
      chain := fun b hb => ?_
      head_preds := fun B₁ b B₂ v hsplit hhead u huv => ?_
      maximal := fun b hb u v hlast huv => ?_ }
  · have := h.mem_vis x
    simp only [List.mem_append, List.mem_reverse, List.mem_cons, List.flatten_append,
      List.flatten_cons, List.flatten_nil, List.append_nil, this]
    tauto
  · rw [List.flatten_append, List.nodup_append]
    refine ⟨h.nodup, ?_, ?_⟩
    · simp only [List.flatten_cons, List.flatten_nil, List.append_nil, List.nodup_cons]
      exact ⟨fun hn => hext.fresh nidx hn List.mem_cons_self, hext.nodup⟩
    · rintro a ha b hb rfl
      exact hnew a (by simpa using hb) ((h.mem_vis a).mpr ha)
  · rw [List.flatten_append, List.mem_append] at hx
    rcases hx with hx | hx
    · exact h.bounded x hx
    · simp only [List.flatten_cons, List.flatten_nil, List.append_nil] at hx
      rcases head_or_pred hext.chain hx with hhead | ⟨w, -, hwx⟩
      · cases hhead
        exact hlt
      · exact (Dag.adj_lt hwx.2.2).2
  · rcases List.mem_append.mp hb with hb | hb
    · exact h.ne_nil b hb
    · simp [List.mem_singleton.mp hb]
  · rcases List.mem_append.mp hb with hb | hb
    · exact h.chain b hb
    · rw [List.mem_singleton.mp hb]
      exact hext.chain
  · rcases List.eq_nil_or_concat B₂ with rfl | ⟨B₂', b', rfl⟩
    · obtain ⟨rfl, hb⟩ := List.append_inj' hsplit rfl
      cases hb
      cases hhead
      exact (h.mem_vis u).mp (hpreds u huv)
    · rw [List.concat_eq_append, ← List.cons_append, ← List.append_assoc] at hsplit
      obtain ⟨hbs, -⟩ := List.append_inj' hsplit rfl
      exact h.head_preds _ _ _ v hbs hhead u huv
  · rcases List.mem_append.mp hb with hb | hb
    · exact h.maximal b hb u v hlast huv
    · rw [List.mem_singleton] at hb
      subst hb
      have hu : u ∈ nidx :: ext := List.mem_of_getLast? hlast
      have hget : (nidx :: ext).getLast (by simp) = u := by
        rw [List.getLast?_eq_some_getLast (by simp), Option.some_inj] at hlast
        exact hlast
      have hv := hext.complete v (hget ▸ huv)
      -- the successor is visited, so its own block already holds `u`, or there is a cycle
      by_cases hvv : v ∈ vis
      · exact hnew u hu (h.vis_closed hvv huv.2.2)
      · have hvb : v ∈ nidx :: ext := by simpa [hvv, or_comm] using hv
        have hreach : Reaches g.arcs v u :=
          Relation.ReflTransGen.mono (fun _ _ hab => hab.2.2) _ _
            (reaches_getLast hext.chain hvb hlast)
        exact g.acyclic v (.tail' hreach huv.2.2)

end ChainBlocks

theorem partitionFrom_spec {g : Dag N E} {s : List ℕ × Dag ExecNode Unit} {nidx : ℕ}
    (h : ChainBlocks g s.1 (blocks s.2)) (hlt : nidx < g.nodeCount)
    (hpreds : ∀ u, Adj g.arcs u nidx → u ∈ s.1) :
    ChainBlocks g (partitionFrom g s nidx).1 (blocks (partitionFrom g s nidx).2) ∧
      nidx ∈ (partitionFrom g s nidx).1 ∧ (∀ x ∈ s.1, x ∈ (partitionFrom g s nidx).1) ∧
      (partitionFrom g s nidx).2.edges = s.2.edges := by
  obtain ⟨vis, X⟩ := s
  simp only [partitionFrom]
  split_ifs with hvis
  · exact ⟨h, hvis, fun _ hx => hx, rfl⟩
  · have hle : unvisited g (nidx :: vis) < g.nodeCount + 1 := by
      have : unvisited g (nidx :: vis) ≤ (List.range g.nodeCount).length := List.countP_le_length
      rw [List.length_range] at this
      omega
    obtain ⟨ext, hgrow, hext⟩ :=
      growBlock_spec nidx [nidx] hle
    simp only [hgrow]
    refine ⟨?_, by simp, fun x hx => by simp [hx], rfl⟩
    simpa [blocks] using h.snoc hlt hvis hpreds hext

/-- The blocks that the outer loop builds are the whole chains of the graph. -/
theorem foldl_partitionFrom {g : Dag N E} {ts : List ℕ}
    (hts : IsTopological g.nodeCount g.arcs ts) :
    ChainBlocks g (ts.foldl (partitionFrom g) ([], Dag.empty)).1
        (blocks (ts.foldl (partitionFrom g) ([], Dag.empty)).2) ∧
      (∀ x ∈ ts, x ∈ (ts.foldl (partitionFrom g) ([], Dag.empty)).1) ∧
      (ts.foldl (partitionFrom g) ([], Dag.empty)).2.edges = [] := by
  have hrun : ∀ pre rest : List ℕ, ts = pre ++ rest → ∀ s : List ℕ × Dag ExecNode Unit,
      ChainBlocks g s.1 (blocks s.2) → (∀ x ∈ pre, x ∈ s.1) → s.2.edges = [] →
      ChainBlocks g (rest.foldl (partitionFrom g) s).1 (blocks (rest.foldl (partitionFrom g) s).2) ∧
        (∀ x ∈ ts, x ∈ (rest.foldl (partitionFrom g) s).1) ∧
        (rest.foldl (partitionFrom g) s).2.edges = [] := by
    intro pre rest
    induction rest generalizing pre with
    | nil =>
      intro heq s h hpre hedges
      rw [List.append_nil] at heq
      exact ⟨h, heq ▸ hpre, hedges⟩
    | cons nidx rest ih =>
      intro heq s h hpre hedges
      have hmem : nidx < g.nodeCount := hts.mem_iff.mp (by simp [heq])
      have hpreds : ∀ u, Adj g.arcs u nidx → u ∈ s.1 :=
        fun u hu => hpre u (hts.mem_prefix heq hu (Dag.adj_lt hu).1)
      obtain ⟨h', hn, hsub, he⟩ := partitionFrom_spec h hmem hpreds
      refine ih (pre ++ [nidx]) (by simp [heq]) _ h' ?_ (he.trans hedges)
      intro x hx
      rcases List.mem_append.mp hx with hx | hx
      · exact hsub x (hpre x hx)
      · rw [List.mem_singleton.mp hx]
        exact hn
  exact hrun [] ts rfl ([], Dag.empty) (by simpa [blocks] using ChainBlocks.empty g)
    (by simp) rfl

/-! ## Execution graphs -/

/-- The graph nodes listed by execution node `i`. -/
def block (X : Dag ExecNode Unit) (i : ℕ) : List ℕ := (blocks X)[i]?.getD []

theorem mem_block {X : Dag ExecNode Unit} {i u : ℕ} :
    u ∈ block X i ↔ ∃ x, X.nodes[i]? = some x ∧ u ∈ x.dfNodes := by
  unfold block blocks
  rw [List.getElem?_map]
  cases X.nodes[i]? <;> simp

theorem lt_of_mem_block {X : Dag ExecNode Unit} {i u : ℕ} (h : u ∈ block X i) :
    i < X.nodeCount := by
  obtain ⟨x, hx, -⟩ := mem_block.mp h
  exact (List.getElem?_eq_some_iff.mp hx).1

theorem block_mem_blocks {X : Dag ExecNode Unit} {i u : ℕ} (hu : u ∈ block X i) :
    block X i ∈ blocks X := by
  unfold block at hu ⊢
  cases hi : (blocks X)[i]? with
  | none => simp [hi] at hu
  | some b => exact List.mem_of_getElem? hi

theorem mem_flatten_blocks {X : Dag ExecNode Unit} {u : ℕ} :
    u ∈ (blocks X).flatten ↔ ∃ i, u ∈ block X i := by
  constructor
  · intro hu
    obtain ⟨b, hb, hub⟩ := List.mem_flatten.mp hu
    obtain ⟨i, hi⟩ := List.mem_iff_getElem?.mp hb
    exact ⟨i, by simpa [block, hi] using hub⟩
  · rintro ⟨i, hu⟩
    unfold block at hu
    cases hi : (blocks X)[i]? with
    | none => simp [hi] at hu
    | some b =>
      rw [hi, Option.getD_some] at hu
      exact List.mem_flatten.mpr ⟨b, List.mem_of_getElem? hi, hu⟩

/-- What a strategy promises: the blocks, one after the other, are a topological
order of the graph; execution edges are the dependences between different
blocks, once each; and the counters count them. -/
structure IsPartition (g : Dag N E) (X : Dag ExecNode Unit) : Prop where
  topological : IsTopological g.nodeCount g.arcs (blocks X).flatten
  adj_iff : ∀ i j, Adj X.arcs i j ↔
    i ≠ j ∧ ∃ u ∈ block X i, ∃ v ∈ block X j, Adj g.arcs u v
  simple : X.arcs.Nodup
  counter : ∀ i x, X.nodes[i]? = some x → x.dependenceCounter = inDegree X.arcs i

theorem block_unique {X : Dag ExecNode Unit} (hnd : (blocks X).flatten.Nodup) {i j u : ℕ}
    (hi : u ∈ block X i) (hj : u ∈ block X j) : i = j := by
  have hdisj := (List.nodup_flatten.mp hnd).2
  rw [List.pairwise_iff_getElem] at hdisj
  unfold block at hi hj
  by_contra hne
  cases hbi : (blocks X)[i]? with
  | none => simp [hbi] at hi
  | some b =>
    cases hbj : (blocks X)[j]? with
    | none => simp [hbj] at hj
    | some c =>
      rw [hbi, Option.getD_some] at hi
      rw [hbj, Option.getD_some] at hj
      obtain ⟨hil, rfl⟩ := List.getElem?_eq_some_iff.mp hbi
      obtain ⟨hjl, rfl⟩ := List.getElem?_eq_some_iff.mp hbj
      rcases Nat.lt_or_gt_of_ne hne with hlt | hlt
      · exact hdisj i j hil hjl hlt hi hj
      · exact hdisj j i hjl hil hlt hj hi

/-- Edges of the graph never point to an earlier block. -/
theorem block_le {as : List Arc} {X : Dag ExecNode Unit}
    (hord : (blocks X).flatten.Pairwise (fun u v => ¬ Adj as v u)) {i j u v : ℕ}
    (hu : u ∈ block X i) (hv : v ∈ block X j) (huv : Adj as u v) : i ≤ j := by
  have hcross := (List.pairwise_flatten.mp hord).2
  rw [List.pairwise_iff_getElem] at hcross
  by_contra hlt
  unfold block at hu hv
  cases hbi : (blocks X)[i]? with
  | none => simp [hbi] at hu
  | some b =>
    cases hbj : (blocks X)[j]? with
    | none => simp [hbj] at hv
    | some c =>
      rw [hbi, Option.getD_some] at hu
      rw [hbj, Option.getD_some] at hv
      obtain ⟨hil, rfl⟩ := List.getElem?_eq_some_iff.mp hbi
      obtain ⟨hjl, rfl⟩ := List.getElem?_eq_some_iff.mp hbj
      exact hcross j i hjl hil (by omega) v hv u hu huv

theorem nodeMap_eq_some {X : Dag ExecNode Unit} (hnd : (blocks X).flatten.Nodup) {i u : ℕ} :
    nodeMap X u = some i ↔ u ∈ block X i := by
  unfold nodeMap
  rw [List.findIdx?_eq_some_iff_getElem]
  constructor
  · rintro ⟨hlt, hmem, -⟩
    exact mem_block.mpr ⟨X.nodes[i], List.getElem?_eq_getElem hlt, by simpa using hmem⟩
  · intro hu
    obtain ⟨x, hx, hux⟩ := mem_block.mp hu
    obtain ⟨hlt, rfl⟩ := List.getElem?_eq_some_iff.mp hx
    refine ⟨hlt, by simpa using hux, fun j hj hmem => ?_⟩
    have huj : u ∈ block X j := mem_block.mpr
      ⟨X.nodes[j], List.getElem?_eq_getElem (hj.trans hlt), by simpa using hmem⟩
    have := block_unique hnd hu huj
    omega

/-- The dependence that an edge of the graph stands for. -/
def Induces (X : Dag ExecNode Unit) (es : List (Edge E)) (i j : ℕ) : Prop :=
  i ≠ j ∧ ∃ e ∈ es, nodeMap X e.source = some i ∧ nodeMap X e.target = some j

theorem addExecutionDepedence_spec {X : Dag ExecNode Unit} {e : Edge E} {i j : ℕ}
    (hi : nodeMap X e.source = some i) (hj : nodeMap X e.target = some j) (hle : i ≤ j)
    (hinc : ∀ a b, Adj X.arcs a b → a < b) (hnd : X.arcs.Nodup) :
    ∃ X', addExecutionDepedence X e = .ok X' ∧ X'.nodes = X.nodes ∧ X'.arcs.Nodup ∧
      ∀ a b, Adj X'.arcs a b ↔ Adj X.arcs a b ∨ (i ≠ j ∧ a = i ∧ b = j) := by
  simp only [addExecutionDepedence, hi, hj]
  split_ifs with hnew
  · obtain ⟨hne, hnadj⟩ := hnew
    have hbound : ∀ {n k : ℕ}, nodeMap X n = some k → k < X.nodeCount := fun h =>
      (List.findIdx?_eq_some_iff_getElem.mp h).1
    have hac : Acyclic (Adj (X.arcs ++ [(i, j)])) := by
      refine Acyclic.of_rank id fun a b hab => ?_
      rcases adj_append_singleton.mp hab with hab | ⟨rfl, rfl⟩
      · exact hinc a b hab
      · exact lt_of_le_of_ne hle hne
    obtain ⟨X', hX'⟩ := Option.isSome_iff_exists.mp
      ((Dag.addEdge_isSome_iff (w := ()) (hbound hi) (hbound hj)).mpr hac)
    obtain ⟨hnodes, hedges⟩ := Dag.addEdge_eq_some hX'
    have harcs : X'.arcs = X.arcs ++ [(i, j)] := by simp [Dag.arcs, hedges]
    refine ⟨X', by rw [hX']; rfl, hnodes, ?_, fun a b => ?_⟩
    · rw [harcs, List.nodup_append]
      refine ⟨hnd, by simp, ?_⟩
      rintro a ha b hb rfl
      rw [List.mem_singleton] at hb
      rw [hb] at ha
      exact hnadj ha
    · rw [harcs, adj_append_singleton]
      simp [hne]
  · refine ⟨X, rfl, rfl, hnd, fun a b => ⟨.inl, ?_⟩⟩
    rintro (hab | ⟨hne, rfl, rfl⟩)
    · exact hab
    · exact not_not.mp fun hn => hnew ⟨hne, hn⟩

theorem foldlM_addExecutionDepedence {es : List (Edge E)} {X : Dag ExecNode Unit}
    (hes : ∀ e ∈ es, ∃ i j, nodeMap X e.source = some i ∧ nodeMap X e.target = some j ∧ i ≤ j)
    (hinc : ∀ a b, Adj X.arcs a b → a < b) (hnd : X.arcs.Nodup) :
    ∃ X', es.foldlM addExecutionDepedence X = .ok X' ∧ X'.nodes = X.nodes ∧ X'.arcs.Nodup ∧
      ∀ a b, Adj X'.arcs a b ↔ Adj X.arcs a b ∨ Induces X es a b := by
  induction es generalizing X with
  | nil => exact ⟨X, rfl, rfl, hnd, by simp [Induces]⟩
  | cons e es ih =>
    obtain ⟨i, j, hi, hj, hle⟩ := hes e List.mem_cons_self
    obtain ⟨X₁, h₁, hn₁, hnd₁, hadj₁⟩ := addExecutionDepedence_spec hi hj hle hinc hnd
    have hmap : nodeMap X₁ = nodeMap X := by
      funext n
      simp [nodeMap, hn₁]
    have hinc₁ : ∀ a b, Adj X₁.arcs a b → a < b := by
      intro a b hab
      rcases (hadj₁ a b).mp hab with hab | ⟨hne, rfl, rfl⟩
      · exact hinc a b hab
      · exact lt_of_le_of_ne hle hne
    obtain ⟨X', h', hn', hnd', hadj'⟩ := ih (X := X₁)
      (fun e he => hmap ▸ hes e (List.mem_cons_of_mem _ he)) hinc₁ hnd₁
    refine ⟨X', by rw [List.foldlM_cons, h₁]; exact h', hn'.trans hn₁, hnd', fun a b => ?_⟩
    rw [hadj', hadj₁]
    simp only [Induces, hmap, List.exists_mem_cons_iff, hi, hj, Option.some.injEq]
    constructor
    · rintro ((hab | ⟨hne, rfl, rfl⟩) | ⟨hne, hab⟩)
      · exact .inl hab
      · exact .inr ⟨hne, .inl ⟨rfl, rfl⟩⟩
      · exact .inr ⟨hne, .inr hab⟩
    · rintro (hab | ⟨hne, ⟨rfl, rfl⟩ | hab⟩)
      · exact .inl (.inl hab)
      · exact .inl (.inr ⟨hne, rfl, rfl⟩)
      · exact .inr ⟨hne, hab⟩

/-- Both ends of an edge have an execution node, and that of the target is not an earlier one. -/
theorem exists_nodeMap {g : Dag N E} {X : Dag ExecNode Unit}
    (htop : IsTopological g.nodeCount g.arcs (blocks X).flatten) {e : Edge E} (he : e ∈ g.edges) :
    ∃ i j, nodeMap X e.source = some i ∧ nodeMap X e.target = some j ∧ i ≤ j := by
  have hmem : ∀ u, u < g.nodeCount → ∃ i, nodeMap X u = some i := by
    intro u hu
    obtain ⟨i, hi⟩ := mem_flatten_blocks.mp (htop.mem_iff.mpr hu)
    exact ⟨i, (nodeMap_eq_some htop.nodup).mpr hi⟩
  obtain ⟨hs, ht⟩ := g.bounded e he
  obtain ⟨i, hi⟩ := hmem _ hs
  obtain ⟨j, hj⟩ := hmem _ ht
  refine ⟨i, j, hi, hj, ?_⟩
  exact block_le htop.ordered ((nodeMap_eq_some htop.nodup).mp hi)
    ((nodeMap_eq_some htop.nodup).mp hj) (Dag.adj_iff.mpr ⟨e, he, rfl, rfl⟩)

/-- Execution edges added between blocks in topological order make a partition. -/
theorem addExecutionDepedences_spec {g : Dag N E} {X : Dag ExecNode Unit}
    (htop : IsTopological g.nodeCount g.arcs (blocks X).flatten) (hedges : X.edges = []) :
    ∃ X', addExecutionDepedences g X = .ok X' ∧ blocks X' = blocks X ∧ IsPartition g X' := by
  have harcs : X.arcs = [] := by simp [Dag.arcs, hedges]
  obtain ⟨X', hX', hnodes, hnd, hadj⟩ := foldlM_addExecutionDepedence
    (fun _ he => exists_nodeMap htop he) (by simp [harcs, Adj]) (by simp [harcs])
  have hblocks : blocks (countDependences X') = blocks X := by
    refine List.ext_getElem? fun i => ?_
    simp [blocks, countDependences, hnodes, List.getElem?_mapIdx, Function.comp_def]
  have hblock : ∀ i, block (countDependences X') i = block X i := by
    intro i
    simp [block, hblocks]
  refine ⟨countDependences X', ?_, hblocks, ?_⟩
  · simp [addExecutionDepedences, hX', Except.map]
  refine
    { topological := hblocks ▸ htop
      adj_iff := fun i j => ?_
      simple := hnd
      counter := fun i x hx => ?_ }
  · have hsame : Adj (countDependences X').arcs i j ↔ Adj X'.arcs i j := Iff.rfl
    rw [hsame, hadj, hblock, hblock]
    simp only [harcs, Adj, List.not_mem_nil, false_or, Induces, nodeMap_eq_some htop.nodup]
    refine and_congr_right fun _ => ?_
    constructor
    · rintro ⟨e, he, hs, ht⟩
      exact ⟨_, hs, _, ht, Dag.adj_iff.mpr ⟨e, he, rfl, rfl⟩⟩
    · rintro ⟨u, hu, v, hv, huv⟩
      obtain ⟨e, he, rfl, rfl⟩ := Dag.adj_iff.mp huv
      exact ⟨e, he, hu, hv⟩
  · simp only [countDependences, Dag.nodes_mapIdxNodes, List.getElem?_mapIdx,
      Option.map_eq_some_iff] at hx
    obtain ⟨y, -, rfl⟩ := hx
    exact Dag.length_incoming X' i

/-! ## The parallel strategy is a partition into chains -/

theorem ChainBlocks.topological {g : Dag N E} {vis : List ℕ} {bs : List (List ℕ)}
    (h : ChainBlocks g vis bs) (hall : ∀ x, x < g.nodeCount → x ∈ vis) :
    IsTopological g.nodeCount g.arcs bs.flatten where
  perm := by
    rw [List.perm_ext_iff_of_nodup h.nodup List.nodup_range]
    intro x
    rw [List.mem_range]
    exact ⟨h.bounded x, fun hx => (h.mem_vis x).mp (hall x hx)⟩
  ordered := by
    rw [List.pairwise_flatten]
    constructor
    · intro b hb
      have hchain : b.IsChain (Adj g.arcs) := (h.chain b hb).imp fun _ _ hab => hab.2.2
      exact (pairwise_transGen hchain).imp fun {u v} huv (hvu : Adj g.arcs v u) =>
        g.acyclic u (huv.tail hvu)
    · rw [List.pairwise_iff_forall_sublist]
      intro b c hsub u hu v hv hvu
      obtain ⟨L₁, L₂, rfl, hb, hc⟩ : ∃ L₁ L₂, bs = L₁ ++ L₂ ∧ b ∈ L₁ ∧ c ∈ L₂ := by
        obtain ⟨L₁, L₂, rfl, h₁, h₂⟩ := List.cons_sublist_iff.mp hsub
        exact ⟨L₁, L₂, rfl, h₁, List.singleton_sublist.mp h₂⟩
      obtain ⟨M₁, M₂, rfl⟩ := List.append_of_mem hb
      have hdisj := h.nodup
      rw [List.append_assoc, List.cons_append] at h
      have hv₁ : v ∈ M₁.flatten ∨ v ∈ b := by
        rcases h.pred_mem rfl hu hvu with hv₁ | ⟨hv₁, -⟩
        · exact .inl hv₁
        · exact .inr hv₁
      rw [List.flatten_append, List.nodup_append] at hdisj
      refine hdisj.2.2 v ?_ v (List.mem_flatten_of_mem hc hv) rfl
      simp only [List.flatten_append, List.flatten_cons, List.mem_append]
      tauto
  irrefl u hu := g.acyclic u (.single hu)

/-- The parallel strategy never fails, and its blocks are whole chains. -/
theorem exists_chainBlocks (T : Toposort) (g : Dag N E) :
    ∃ X vis, partitionPreservingParallelism T g = .ok X ∧ IsPartition g X ∧
      ChainBlocks g vis (blocks X) := by
  obtain ⟨ts, hts⟩ := Option.isSome_iff_exists.mp (g.toposort_isSome T)
  have htop := Dag.toposort_sound hts
  obtain ⟨h, hall, hedges⟩ := foldl_partitionFrom htop
  have hflat := h.topological fun x hx => hall x (htop.mem_iff.mpr hx)
  obtain ⟨X, hX, hblocks, hpart⟩ := addExecutionDepedences_spec hflat hedges
  exact ⟨X, _, by rw [partitionPreservingParallelism, hts]; exact hX, hpart, hblocks ▸ h⟩

/-- The parallel strategy never fails; its blocks are chains, and chained nodes share one. -/
theorem partitionPreservingParallelism_spec (T : Toposort) (g : Dag N E) :
    ∃ X, partitionPreservingParallelism T g = .ok X ∧ IsPartition g X ∧
      (∀ i, (block X i).IsChain (Chained g.arcs)) ∧
      ∀ i u v, Chained g.arcs u v → u ∈ block X i → v ∈ block X i := by
  obtain ⟨X, vis, hX, hpart, h⟩ := exists_chainBlocks T g
  refine ⟨X, hX, hpart, fun i => ?_, fun i u v huv hu => h.same_block (block_mem_blocks hu) hu huv⟩
  by_cases hi : block X i = []
  · simp [hi]
  · obtain ⟨u, hu⟩ := List.exists_mem_of_ne_nil _ hi
    exact h.chain _ (block_mem_blocks hu)

end Fhevm.Scheduler
