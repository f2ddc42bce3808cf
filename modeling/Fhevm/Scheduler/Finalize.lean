import Fhevm.Foundation.Toposort
import Mathlib.Data.List.Range

/-!
# Pruning the operations of a transaction

An operation is needed when its result is allowed or an operation that uses it
is needed. Before a transaction is split into components, the operations that
are not needed are removed from its graph. Removing a node renumbers another
one, so nodes carry the index of their operation.

## Main definitions

* `isNeeded`, `finalize` — the pruning pass.
* `Needed` — an allowed operation can be reached.
* `finalize_restricts` — what is left is the graph restricted to the needed operations.
-/

namespace Fhevm.Scheduler

open Foundation

variable {E : Type}

/-! ## The source -/

/-- Whether a node or one that it leads to is marked; `fuel` bounds the length of a path. -/
def isNeeded (g : Dag (Bool × ℕ) E) : ℕ → ℕ → Bool
  | 0, _ => false
  | fuel + 1, index =>
    match g.nodes[index]? with
    | none => false
    | some node => node.1 || (g.outgoing index).any (fun e => isNeeded g fuel e.target)

/-- Mark one node if it is needed. -/
def markNeeded (g : Dag (Bool × ℕ) E) (index : ℕ) : Dag (Bool × ℕ) E :=
  if isNeeded g (g.nodeCount + 1) index then g.modifyNode index (fun n => (true, n.2)) else g

def isUnmarked (g : Dag (Bool × ℕ) E) (index : ℕ) : Bool := g.nodes[index]?.any (fun n => !n.1)

/-- Remove one node if it is not marked. -/
def removeUnmarked (g : Dag (Bool × ℕ) E) (index : ℕ) : Dag (Bool × ℕ) E :=
  if isUnmarked g index then g.removeNode index else g

/-- Mark the needed nodes, then remove the others from the highest index down.
The first component lists the removed indices. -/
def finalize (g : Dag (Bool × ℕ) E) : List ℕ × Dag (Bool × ℕ) E :=
  let g := (List.range g.nodeCount).reverse.foldl markNeeded g
  let unneededNodes := (List.range g.nodeCount).filter (isUnmarked g)
  (unneededNodes, unneededNodes.reverse.foldl removeUnmarked g)

/-! ## Marking -/

/-- A marked node can be reached. -/
def Needed (g : Dag (Bool × ℕ) E) (i : ℕ) : Prop :=
  ∃ j n, Reaches g.arcs i j ∧ g.nodes[j]? = some n ∧ n.1 = true

theorem Needed.lt {g : Dag (Bool × ℕ) E} {i : ℕ} (h : Needed g i) : i < g.nodeCount := by
  obtain ⟨j, n, hreach, hn, -⟩ := h
  rcases Relation.ReflTransGen.cases_head hreach with rfl | ⟨k, hik, -⟩
  · exact (List.getElem?_eq_some_iff.mp hn).1
  · exact (Dag.adj_lt hik).1

theorem isNeeded_iff {g : Dag (Bool × ℕ) E} {height : ℕ → ℕ}
    (hheight : ∀ u v, Adj g.arcs u v → height v < height u) {fuel i : ℕ} (hfuel : height i < fuel) :
    isNeeded g fuel i = true ↔ Needed g i := by
  induction fuel generalizing i with
  | zero => omega
  | succ fuel ih =>
    unfold isNeeded
    cases hn : g.nodes[i]? with
    | none =>
      have hnot : ¬ i < g.nodeCount := by
        simpa [Dag.nodeCount] using List.getElem?_eq_none_iff.mp hn
      simpa using fun h : Needed g i => hnot h.lt
    | some n =>
      have hchild : ∀ e ∈ g.outgoing i, isNeeded g fuel e.target = true ↔ Needed g e.target := by
        intro e he
        obtain ⟨he, hs⟩ := Dag.mem_outgoing.mp he
        have := hheight i e.target (Dag.adj_iff.mpr ⟨e, he, hs, rfl⟩)
        exact ih (by omega)
      rw [Bool.or_eq_true, List.any_eq_true]
      constructor
      · rintro (hmark | ⟨e, he, hneed⟩)
        · exact ⟨i, n, .refl, hn, hmark⟩
        · obtain ⟨j, m, hreach, hm, hmark⟩ := (hchild e he).mp hneed
          obtain ⟨hmem, hs⟩ := Dag.mem_outgoing.mp he
          exact ⟨j, m, .head (Dag.adj_iff.mpr ⟨e, hmem, hs, rfl⟩) hreach, hm, hmark⟩
      · rintro ⟨j, m, hreach, hm, hmark⟩
        rcases Relation.ReflTransGen.cases_head hreach with rfl | ⟨k, hik, hkj⟩
        · rw [hn] at hm
          cases hm
          exact .inl hmark
        · obtain ⟨e, he, hs, rfl⟩ := Dag.adj_iff.mp hik
          have he' := Dag.mem_outgoing.mpr ⟨he, hs⟩
          exact .inr ⟨e, he', (hchild e he').mpr ⟨j, m, hkj, hm, hmark⟩⟩

theorem isNeeded_eq (g : Dag (Bool × ℕ) E) (i : ℕ) :
    isNeeded g (g.nodeCount + 1) i = true ↔ Needed g i := by
  obtain ⟨height, hle, hheight⟩ := g.acyclic.exists_height g.arcs_bounded
  exact isNeeded_iff hheight (Nat.lt_succ_of_le (hle i))

/-- The graph in which the nodes of `done` are marked if they are needed. -/
def marked (g : Dag (Bool × ℕ) E) (done : List ℕ) : Dag (Bool × ℕ) E :=
  g.mapIdxNodes (fun i n => (n.1 || (decide (i ∈ done) && isNeeded g (g.nodeCount + 1) i), n.2))

/-- Marking needed nodes makes no other node needed. -/
theorem needed_marked {g : Dag (Bool × ℕ) E} {done : List ℕ} {i : ℕ} :
    Needed (marked g done) i ↔ Needed g i := by
  constructor
  · rintro ⟨j, n, hreach, hn, hmark⟩
    simp only [marked, Dag.nodes_mapIdxNodes, List.getElem?_mapIdx, Option.map_eq_some_iff] at hn
    obtain ⟨m, hm, rfl⟩ := hn
    simp only [Bool.or_eq_true, Bool.and_eq_true, isNeeded_eq] at hmark
    rcases hmark with hmark | ⟨-, k, n, hjk, hn, hmark⟩
    · exact ⟨j, m, hreach, hm, hmark⟩
    · exact ⟨k, n, hreach.trans hjk, hn, hmark⟩
  · rintro ⟨j, n, hreach, hn, hmark⟩
    exact ⟨j, _, hreach, by simp [marked, hn]; rfl, by simp [hmark]⟩

theorem getElem?_marked {g : Dag (Bool × ℕ) E} {i : ℕ} (hi : i < g.nodeCount) :
    (marked g (List.range g.nodeCount).reverse).nodes[i]? =
      some (isNeeded g (g.nodeCount + 1) i, g.nodes[i].2) := by
  have hi' : i < g.nodes.length := hi
  simp only [marked, Dag.nodes_mapIdxNodes, List.getElem?_mapIdx, List.getElem?_eq_getElem hi',
    Option.map_some, List.mem_reverse, List.mem_range, hi, decide_true, Bool.true_and,
    Option.some.injEq, Prod.mk.injEq, and_true]
  cases hm : g.nodes[i].1 with
  | false => rfl
  | true =>
    rw [Bool.true_or, eq_comm, isNeeded_eq]
    exact ⟨i, _, .refl, List.getElem?_eq_getElem hi', hm⟩

theorem foldl_markNeeded (g : Dag (Bool × ℕ) E) (is done : List ℕ) :
    is.foldl markNeeded (marked g done) = marked g (done ++ is) := by
  induction is generalizing done with
  | nil => rw [List.append_nil, List.foldl_nil]
  | cons i is ih =>
    have hstep : markNeeded (marked g done) i = marked g (done ++ [i]) := by
      have hiff : isNeeded (marked g done) ((marked g done).nodeCount + 1) i =
          isNeeded g (g.nodeCount + 1) i := by
        rw [Bool.eq_iff_iff, isNeeded_eq, isNeeded_eq, needed_marked]
      rw [markNeeded, hiff]
      cases hi : isNeeded g (g.nodeCount + 1) i with
      | true =>
        simp only [if_true, marked, Dag.modifyNode_eq_mapIdxNodes, Dag.mapIdxNodes_mapIdxNodes]
        congr 1
        funext j n
        by_cases hj : j = i
        · subst hj
          simp [hi]
        · simp [hj]
      | false =>
        simp only [Bool.false_eq_true, if_false, marked]
        congr 1
        funext j n
        by_cases hj : j = i
        · subst hj
          simp [hi]
        · simp [hj]
    rw [List.foldl_cons, hstep, ih, List.append_assoc]
    rfl

/-! ## Removing -/

/-- The removal, from the highest index down; it never reaches an index that has another node. -/
theorem foldl_removeUnmarked {g g' : Dag (Bool × ℕ) E} (is : List ℕ) {origins : List ℕ}
    (h : g.Restricts g' origins) (hdesc : is.Pairwise (· > ·))
    (hkept : ∀ i ∈ is, ∀ j ≤ i, origins[j]? = some j) (hmark : ∀ i ∈ is, isUnmarked g i = true) :
    ∃ origins', g.Restricts (is.foldl removeUnmarked g') origins' ∧
      ∀ x, x ∈ origins' ↔ x ∈ origins ∧ x ∉ is := by
  induction is generalizing g' origins with
  | nil => exact ⟨origins, h, by simp⟩
  | cons i is ih =>
    obtain ⟨hlt, hdesc⟩ := List.pairwise_cons.mp hdesc
    have horigin := hkept i List.mem_cons_self i le_rfl
    obtain ⟨hi, -⟩ := List.getElem?_eq_some_iff.mp horigin
    have hstep : removeUnmarked g' i = g'.removeNode i := by
      have hunmarked : isUnmarked g' i = true := by
        rw [isUnmarked, h.getElem?_nodes, horigin]
        exact hmark i List.mem_cons_self
      rw [removeUnmarked, if_pos hunmarked]
    obtain ⟨origins', hrest, hmem⟩ := ih (h.removeNode (h.length_eq ▸ hi)) hdesc
      (fun j hj k hk => by
        have hji := hlt j hj
        rw [Dag.getElem?_swapRemove_of_lt hi (by omega)]
        exact hkept j (List.mem_cons_of_mem _ hj) k hk)
      (fun j hj => hmark j (List.mem_cons_of_mem _ hj))
    refine ⟨origins', by rwa [List.foldl_cons, hstep], fun x => ?_⟩
    rw [hmem, Dag.mem_swapRemove h.nodup horigin, List.mem_cons]
    tauto

/-- The nodes that are not needed. -/
def unneeded (g : Dag (Bool × ℕ) E) : List ℕ :=
  (List.range g.nodeCount).filter (fun i => !isNeeded g (g.nodeCount + 1) i)

theorem mem_unneeded {g : Dag (Bool × ℕ) E} {i : ℕ} :
    i ∈ unneeded g ↔ i < g.nodeCount ∧ ¬ Needed g i := by
  rw [unneeded, List.mem_filter, List.mem_range, ← isNeeded_eq]
  simp

/-- Pruning leaves the part of the marked graph on the needed nodes. -/
theorem finalize_restricts (g : Dag (Bool × ℕ) E) :
    (finalize g).1 = unneeded g ∧ ∃ origins : List ℕ,
      (marked g (List.range g.nodeCount).reverse).Restricts (finalize g).2 origins ∧
      ∀ i, i ∈ origins ↔ Needed g i := by
  have hstart : marked g [] = g := by
    have : (fun (i : ℕ) (n : Bool × ℕ) => (n.1 || (decide (i ∈ ([] : List ℕ)) &&
        isNeeded g (g.nodeCount + 1) i), n.2)) = fun _ n => n := by
      funext i n
      simp
    rw [marked, this, Dag.mapIdxNodes_id]
  set g₁ := marked g (List.range g.nodeCount).reverse with hg₁
  have hmarked : (List.range g.nodeCount).reverse.foldl markNeeded g = g₁ := by
    have := foldl_markNeeded g (List.range g.nodeCount).reverse []
    rwa [hstart, List.nil_append] at this
  have hcount : g₁.nodeCount = g.nodeCount := by simp [hg₁, marked, Dag.nodeCount]
  have hunneeded : (List.range g₁.nodeCount).filter (isUnmarked g₁) = unneeded g := by
    rw [unneeded, hcount]
    refine List.filter_congr fun i hi => ?_
    rw [isUnmarked, hg₁, getElem?_marked (List.mem_range.mp hi)]
    rfl
  obtain ⟨origins, hrest, hmem⟩ := foldl_removeUnmarked (unneeded g).reverse (.refl g₁)
    (by
      rw [List.pairwise_reverse]
      exact List.pairwise_lt_range.filter _)
    (fun i hi j hj => by
      rw [List.mem_reverse, mem_unneeded, ← hcount] at hi
      exact List.getElem?_range (by omega))
    (fun i hi => by
      rw [List.mem_reverse, ← hunneeded] at hi
      exact (List.mem_filter.mp hi).2)
  simp only [finalize, hmarked, hunneeded]
  refine ⟨trivial, origins, hrest, fun i => ?_⟩
  rw [hmem, List.mem_range, List.mem_reverse, mem_unneeded, hcount]
  constructor
  · rintro ⟨hi, hnot⟩
    by_contra hneed
    exact hnot ⟨hi, hneed⟩
  · exact fun hneed => ⟨hneed.lt, fun hnot => hnot.2 hneed⟩

/-- What is left of `g` when the nodes of `removed` are gone: the other nodes, and
the edges between them. -/
structure Pruned (g g' : Dag (Bool × ℕ) E) (removed : List ℕ) : Prop where
  nodes : (g'.nodes.map Prod.snd).Perm ((List.range g.nodeCount).filter (· ∉ removed))
  arcs : g'.labelArcs Prod.snd =
    (g.arcs.filter (fun a => a.1 ∉ removed ∧ a.2 ∉ removed)).map (fun a => (some a.1, some a.2))

/-- Pruning removes exactly the nodes that are not needed, and keeps all edges
between the others. -/
theorem finalize_spec {g : Dag (Bool × ℕ) E}
    (hlabel : ∀ (i : ℕ) (n : Bool × ℕ), g.nodes[i]? = some n → n.2 = i) :
    (finalize g).1 = unneeded g ∧ Pruned g (finalize g).2 (unneeded g) := by
  obtain ⟨hfst, origins, hrest, hmem⟩ := finalize_restricts g
  have hlabels : ∀ u : ℕ, (finalize g).2.nodes[u]?.map Prod.snd = origins[u]? := by
    intro u
    rw [hrest.getElem?_nodes]
    cases hu : origins[u]? with
    | none => rfl
    | some i =>
      have hi := ((hmem i).mp (List.mem_of_getElem? hu)).lt
      rw [Option.bind_some, getElem?_marked hi]
      simp [hlabel i _ (List.getElem?_eq_getElem hi)]
  have hnot : ∀ i, i < g.nodeCount → (i ∈ origins ↔ i ∉ unneeded g) := fun i hi => by
    rw [hmem, mem_unneeded]
    tauto
  refine ⟨hfst, ?_, ?_⟩
  · have hnodes : (finalize g).2.nodes.map Prod.snd = origins := by
      refine List.ext_getElem? fun u => ?_
      rw [List.getElem?_map, hlabels]
    rw [hnodes, List.perm_ext_iff_of_nodup hrest.nodup (List.nodup_range.filter _)]
    intro i
    simp only [List.mem_filter, List.mem_range, decide_eq_true_eq]
    exact ⟨fun hi => ⟨((hmem i).mp hi).lt, (hnot i ((hmem i).mp hi).lt).mp hi⟩,
      fun h => (hnot i h.1).mpr h.2⟩
  · have hedges := congrArg (List.map fun a => (a.1, a.2.1)) hrest.edges
    simp only [List.map_map, Function.comp_def] at hedges
    simp only [Dag.labelArcs, hlabels, hedges, Dag.arcs, List.filter_map, List.map_map]
    have hfilter : g.edges.filter (fun e => e.source ∈ origins ∧ e.target ∈ origins) =
        g.edges.filter ((fun a : Arc => decide (a.1 ∉ unneeded g ∧ a.2 ∉ unneeded g)) ∘
          Edge.arc) := by
      refine List.filter_congr fun e he => ?_
      obtain ⟨hs, ht⟩ := g.bounded e he
      exact decide_eq_decide.mpr (and_congr (hnot _ hs) (hnot _ ht))
    rw [← hfilter]
    rfl

/-! ## What is left -/

/-- The indices that are returned are those of the nodes that are not needed, in increasing order.
The others are left with their operations and all edges between them, each at an index of its own. -/
theorem finalize_keeps_needed (g : Dag (Bool × ℕ) E) :
    (∀ i, i ∈ (finalize g).1 ↔ i < g.nodeCount ∧ ¬ Needed g i) ∧
    (finalize g).1.Pairwise (· < ·) ∧
    ∃ origins : List ℕ, origins.Nodup ∧ (∀ i, i ∈ origins ↔ Needed g i) ∧
      (finalize g).2.nodes.map some =
        origins.map (fun i => g.nodes[i]?.map (fun n => (true, n.2))) ∧
      ((finalize g).2.edges.map (fun e => (origins[e.source]?, origins[e.target]?, e.weight))).Perm
        ((g.edges.filter (fun e => e.source ∈ origins ∧ e.target ∈ origins)).map
          (fun e => (some e.source, some e.target, e.weight))) := by
  obtain ⟨hfst, origins, hrest, hmem⟩ := finalize_restricts g
  rw [hfst]
  refine ⟨fun i => mem_unneeded, List.pairwise_lt_range.filter _, origins, hrest.nodup, hmem, ?_,
    .of_eq hrest.edges⟩
  rw [hrest.nodes]
  refine List.map_congr_left fun i hi => ?_
  have hneed := (hmem i).mp hi
  have hi' : i < g.nodes.length := hneed.lt
  rw [getElem?_marked hneed.lt, List.getElem?_eq_getElem hi', Option.map_some,
    (isNeeded_eq g i).mpr hneed]

end Fhevm.Scheduler
