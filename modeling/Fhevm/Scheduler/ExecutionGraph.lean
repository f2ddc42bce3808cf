import Fhevm.Scheduler.Partition

/-!
# The execution graph of the parallel strategy

Contracting chains leaves an acyclic graph, because the execution nodes are listed in dependence
order: every dependence joins an earlier one to a later one. No edge between them is ever refused.

## Main definitions

* `Depends` — the dependences between execution nodes.
* `RefusesDependence` — an execution edge is refused while the dependences are added.
* `partitionPreservingParallelism_chains` — the execution graph of the parallel strategy.
-/

namespace Fhevm.Scheduler

open Foundation

variable {N E : Type} {g : Dag N E} {X : Dag ExecNode Unit}

/-- A dependence of the graph joins two execution nodes. -/
def Depends (g : Dag N E) (X : Dag ExecNode Unit) (xsrc xdst : ℕ) : Prop :=
  xsrc ≠ xdst ∧ ∃ u ∈ block X xsrc, ∃ v ∈ block X xdst, Adj g.arcs u v

/-- When the edges are added one after the other, the execution edge for one of them is refused. -/
def RefusesDependence (g : Dag N E) (X : Dag ExecNode Unit) : Prop :=
  ∃ before e after X' xsrc xdst, g.edges = before ++ e :: after ∧
    before.foldlM addExecutionDepedence X = .ok X' ∧ nodeMap X' e.source = some xsrc ∧
    nodeMap X' e.target = some xdst ∧ xsrc ≠ xdst ∧ X'.addEdge xsrc xdst () = none

/-- Dependences point to later execution nodes, so each of them can be added. -/
theorem not_refusesDependence (htop : IsTopological g.nodeCount g.arcs (blocks X).flatten)
    (hedges : X.edges = []) : ¬ RefusesDependence g X := by
  rintro ⟨before, e, after, X', xsrc, xdst, hsplit, hbefore, hsrc, hdst, hne, hrefused⟩
  have harcs : X.arcs = [] := by simp [Dag.arcs, hedges]
  have hmem : ∀ e' ∈ before, e' ∈ g.edges := fun e' he' => by simp [hsplit, he']
  obtain ⟨X₁, hX₁, hnodes, -, hadj⟩ := foldlM_addExecutionDepedence
    (fun e' he' => exists_nodeMap htop (hmem e' he')) (by simp [harcs, Adj]) (by simp [harcs])
  obtain rfl : X' = X₁ := Except.ok.inj (hbefore.symm.trans hX₁)
  have hmap : nodeMap X' = nodeMap X := by
    funext n
    simp [nodeMap, hnodes]
  have hle : ∀ e' ∈ g.edges, ∀ i j, nodeMap X e'.source = some i → nodeMap X e'.target = some j →
      i ≤ j := by
    intro e' he' i j hi hj
    obtain ⟨i', j', hi', hj', hle⟩ := exists_nodeMap htop he'
    grind
  have hlt : ∀ a b, Adj X'.arcs a b → a < b := by
    intro a b hab
    rcases (hadj a b).mp hab with hab | ⟨hab, e', he', ha, hb⟩
    · simp [harcs, Adj] at hab
    · exact lt_of_le_of_ne (hle e' (hmem e' he') a b ha hb) hab
  rw [hmap] at hsrc hdst
  have hac : Acyclic (Adj (X'.arcs ++ [(xsrc, xdst)])) := by
    refine Acyclic.of_rank id fun a b hab => ?_
    rcases adj_append_singleton.mp hab with hab | ⟨rfl, rfl⟩
    · exact hlt a b hab
    · exact lt_of_le_of_ne (hle e (by simp [hsplit]) a b hsrc hdst) hne
  have hbound : ∀ {u k : ℕ}, nodeMap X u = some k → k < X'.nodeCount := fun hk => by
    rw [← hmap] at hk
    exact (List.findIdx?_eq_some_iff_getElem.mp hk).1
  have hsome := (Dag.addEdge_isSome_iff (w := ()) (hbound hsrc) (hbound hdst)).mpr hac
  rw [hrefused] at hsome
  cases hsome

/-- Each node is in one execution node, which is a path along edges that are the only ones of their
ends. The dependences between execution nodes are acyclic, none is refused, all of them are edges
of the execution graph, and a counter is the number of execution nodes that its own depends on. -/
theorem partitionPreservingParallelism_chains (T : Toposort) (g : Dag N E) :
    ∃ X, partitionPreservingParallelism T g = .ok X ∧
      (blocks X).flatten.Perm (List.range g.nodeCount) ∧
      (∀ b ∈ blocks X, b ≠ [] ∧ b.IsChain (Chained g.arcs) ∧
        ∀ u ∈ b, ∀ v ∈ b, Adj g.arcs u v → Chained g.arcs u v) ∧
      Acyclic (Depends g X) ∧
      (∀ ts, g.toposort T = some ts →
        ¬ RefusesDependence g (ts.foldl (partitionFrom g) ([], Dag.empty)).2) ∧
      (∀ xsrc xdst, Adj X.arcs xsrc xdst ↔ Depends g X xsrc xdst) ∧
      ∀ xdst x, X.nodes[xdst]? = some x →
        x.dependenceCounter = {xsrc | Depends g X xsrc xdst}.ncard := by
  obtain ⟨X, vis, hX, hpart, h⟩ := exists_chainBlocks T g
  have hadj : ∀ i j, Adj X.arcs i j ↔ Depends g X i j := hpart.adj_iff
  refine ⟨X, hX, hpart.topological.perm, fun b hb => ⟨h.ne_nil b hb, h.chain b hb, ?_⟩,
    X.acyclic.mono fun i j hij => (hadj i j).mpr hij, fun ts hts => ?_, hadj, fun i x hx => ?_⟩
  · intro u hu v hv huv
    exact chained_of_isChain hpart.topological.irrefl (h.chain b hb)
      ((List.pairwise_flatten.mp hpart.topological.ordered).1 b hb) hu hv huv
  · have htop := Dag.toposort_sound hts
    obtain ⟨hblocks, hall, hedges⟩ := foldl_partitionFrom htop
    exact not_refusesDependence
      (hblocks.topological fun x hx => hall x (htop.mem_iff.mpr hx)) hedges
  · rw [hpart.counter i x hx, inDegree_eq_ncard hpart.simple]
    simp only [hadj]

end Fhevm.Scheduler
