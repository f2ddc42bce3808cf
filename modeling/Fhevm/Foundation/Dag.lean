import Fhevm.Foundation.Digraph

/-!
# Weighted directed acyclic multigraphs

Nodes are addressed by their position in the node list, as in an index-based
graph library: adding a node appends it, adding an edge is refused when it
would close a cycle, and removing a node moves the last node into the freed
position. Acyclicity and the bounds of the edges are fields, so a cyclic graph
cannot be built.

## Main definitions

* `Dag` — node weights, weighted edges, and the two invariants.
* `Dag.addEdge`, `Dag.addEdges` — refuse an edge that would close a cycle.
* `Dag.removeNode` — removal with the last node taking the freed index.
* `Dag.Restricts` — a part of a graph, whose nodes have other indices.
-/

namespace Foundation

/-- A weighted edge between two node indices. -/
structure Edge (E : Type*) where
  source : ℕ
  target : ℕ
  weight : E
deriving DecidableEq, Repr

variable {N M E : Type*}

/-- Forget the weight. -/
def Edge.arc (e : Edge E) : Arc := (e.source, e.target)

@[simp] theorem Edge.arc_mk (a b : ℕ) (w : E) : (Edge.mk a b w).arc = (a, b) := rfl

/-- A directed acyclic multigraph with node weights `N` and edge weights `E`. -/
structure Dag (N E : Type*) where
  nodes : List N
  edges : List (Edge E)
  bounded : ∀ e ∈ edges, e.source < nodes.length ∧ e.target < nodes.length
  acyclic : Acyclic (Adj (edges.map Edge.arc))

namespace Dag

/-- The edges without their weights. -/
abbrev arcs (g : Dag N E) : List Arc := g.edges.map Edge.arc

/-- Number of nodes. -/
abbrev nodeCount (g : Dag N E) : ℕ := g.nodes.length

theorem adj_iff {g : Dag N E} {u v : ℕ} :
    Adj g.arcs u v ↔ ∃ e ∈ g.edges, e.source = u ∧ e.target = v := by
  simp [Adj, arcs, Edge.arc]

theorem adj_lt {g : Dag N E} {u v : ℕ} (h : Adj g.arcs u v) :
    u < g.nodeCount ∧ v < g.nodeCount := by
  obtain ⟨e, he, rfl, rfl⟩ := adj_iff.mp h
  exact g.bounded e he

/-- The graph without nodes. -/
def empty : Dag N E where
  nodes := []
  edges := []
  bounded := by simp
  acyclic := Acyclic.of_rank id (by simp [Adj])

instance : Inhabited (Dag N E) := ⟨empty⟩

@[simp] theorem nodes_empty : (empty : Dag N E).nodes = [] := rfl
@[simp] theorem edges_empty : (empty : Dag N E).edges = [] := rfl

/-! ## Nodes -/

/-- Append a node; its index is the old number of nodes. -/
def addNode (g : Dag N E) (w : N) : Dag N E where
  nodes := g.nodes ++ [w]
  edges := g.edges
  bounded e he := by
    have := g.bounded e he
    simp only [List.length_append, List.length_singleton]
    omega
  acyclic := g.acyclic

@[simp] theorem nodes_addNode (g : Dag N E) (w : N) : (g.addNode w).nodes = g.nodes ++ [w] := rfl
@[simp] theorem edges_addNode (g : Dag N E) (w : N) : (g.addNode w).edges = g.edges := rfl

/-- Append several nodes. -/
def addNodes (g : Dag N E) (ws : List N) : Dag N E := ws.foldl addNode g

@[simp] theorem nodes_addNodes (g : Dag N E) (ws : List N) :
    (g.addNodes ws).nodes = g.nodes ++ ws := by
  induction ws generalizing g with
  | nil => simp [addNodes]
  | cons w ws ih =>
    have := ih (g.addNode w)
    simpa [addNodes] using this

@[simp] theorem edges_addNodes (g : Dag N E) (ws : List N) : (g.addNodes ws).edges = g.edges := by
  induction ws generalizing g with
  | nil => simp [addNodes]
  | cons w ws ih =>
    have := ih (g.addNode w)
    simpa [addNodes] using this

/-- Replace the node weights by as many others, keeping the edges. -/
def withNodes (g : Dag N E) (ns : List M) (h : ns.length = g.nodes.length) : Dag M E where
  nodes := ns
  edges := g.edges
  bounded e he := h ▸ g.bounded e he
  acyclic := g.acyclic

/-- Change the weight of every node. -/
def mapNodes (g : Dag N E) (f : N → M) : Dag M E := g.withNodes (g.nodes.map f) (by simp)

/-- Change the weight of the node at one index; out of range nothing changes. -/
def modifyNode (g : Dag N E) (i : ℕ) (f : N → N) : Dag N E :=
  g.withNodes (g.nodes.modify i f) (by simp)

@[simp] theorem nodes_mapNodes (g : Dag N E) (f : N → M) : (g.mapNodes f).nodes = g.nodes.map f :=
  rfl
@[simp] theorem edges_mapNodes (g : Dag N E) (f : N → M) : (g.mapNodes f).edges = g.edges := rfl
@[simp] theorem nodes_modifyNode (g : Dag N E) (i : ℕ) (f : N → N) :
    (g.modifyNode i f).nodes = g.nodes.modify i f := rfl
@[simp] theorem edges_modifyNode (g : Dag N E) (i : ℕ) (f : N → N) :
    (g.modifyNode i f).edges = g.edges := rfl

/-- Change the weight of every node, given its index. -/
def mapIdxNodes (g : Dag N E) (f : ℕ → N → M) : Dag M E :=
  g.withNodes (g.nodes.mapIdx f) (by simp)

@[simp] theorem nodes_mapIdxNodes (g : Dag N E) (f : ℕ → N → M) :
    (g.mapIdxNodes f).nodes = g.nodes.mapIdx f := rfl
@[simp] theorem edges_mapIdxNodes (g : Dag N E) (f : ℕ → N → M) :
    (g.mapIdxNodes f).edges = g.edges := rfl

@[ext] theorem ext {g g' : Dag N E} (hn : g.nodes = g'.nodes) (he : g.edges = g'.edges) :
    g = g' := by
  cases g
  cases g'
  cases hn
  cases he
  rfl

theorem mapIdxNodes_mapIdxNodes (g : Dag N E) (f f' : ℕ → N → N) :
    (g.mapIdxNodes f).mapIdxNodes f' = g.mapIdxNodes (fun i n => f' i (f i n)) :=
  Dag.ext (by simp [Function.comp_def]) rfl

theorem modifyNode_eq_mapIdxNodes (g : Dag N E) (i : ℕ) (f : N → N) :
    g.modifyNode i f = g.mapIdxNodes (fun c n => if c = i then f n else n) := by
  refine Dag.ext (List.ext_getElem? fun c => ?_) rfl
  simp only [nodes_modifyNode, nodes_mapIdxNodes, List.getElem?_modify, List.getElem?_mapIdx]
  cases g.nodes[c]? <;> simp [eq_comm]

theorem mapIdxNodes_id (g : Dag N E) : g.mapIdxNodes (fun _ n => n) = g :=
  Dag.ext (List.ext_getElem? fun c => by simp) rfl

/-! ## Edges -/

/-- Edges leaving a node, the most recently added first. -/
def outgoing (g : Dag N E) (u : ℕ) : List (Edge E) :=
  (g.edges.filter (fun e => e.source = u)).reverse

/-- Edges entering a node, the most recently added first. -/
def incoming (g : Dag N E) (v : ℕ) : List (Edge E) :=
  (g.edges.filter (fun e => e.target = v)).reverse

theorem mem_outgoing {g : Dag N E} {u : ℕ} {e : Edge E} :
    e ∈ g.outgoing u ↔ e ∈ g.edges ∧ e.source = u := by
  simp [outgoing]

theorem mem_incoming {g : Dag N E} {v : ℕ} {e : Edge E} :
    e ∈ g.incoming v ↔ e ∈ g.edges ∧ e.target = v := by
  simp [incoming]

theorem length_outgoing (g : Dag N E) (u : ℕ) : (g.outgoing u).length = outDegree g.arcs u := by
  rw [outgoing, List.length_reverse, outDegree, List.countP_map, ← List.countP_eq_length_filter]
  rfl

theorem length_incoming (g : Dag N E) (v : ℕ) : (g.incoming v).length = inDegree g.arcs v := by
  rw [incoming, List.length_reverse, inDegree, List.countP_map, ← List.countP_eq_length_filter]
  rfl

/-- Add an edge, unless it would close a cycle. An endpoint that is not a node
is refused as well. -/
def addEdge (g : Dag N E) (a b : ℕ) (w : E) : Option (Dag N E) :=
  if h : (a < g.nodes.length ∧ b < g.nodes.length) ∧ ¬ Reaches g.arcs b a then
    some
      { nodes := g.nodes
        edges := g.edges ++ [⟨a, b, w⟩]
        bounded := by
          intro e he
          rcases List.mem_append.mp he with he | he
          · exact g.bounded e he
          · simpa [List.mem_singleton.mp he] using h.1
        acyclic := by
          simpa using (acyclic_append_singleton g.acyclic a b).mpr h.2 }
  else none

theorem addEdge_eq_some {g g' : Dag N E} {a b : ℕ} {w : E} (h : g.addEdge a b w = some g') :
    g'.nodes = g.nodes ∧ g'.edges = g.edges ++ [⟨a, b, w⟩] := by
  unfold addEdge at h
  split at h
  · cases h
    exact ⟨rfl, rfl⟩
  · simp at h

theorem addEdge_isSome_iff {g : Dag N E} {a b : ℕ} {w : E}
    (ha : a < g.nodeCount) (hb : b < g.nodeCount) :
    (g.addEdge a b w).isSome ↔ Acyclic (Adj (g.arcs ++ [(a, b)])) := by
  rw [acyclic_append_singleton g.acyclic]
  unfold addEdge
  split
  · rename_i h
    simp [h.2]
  · rename_i h
    simp only [not_and, not_not] at h
    simp [h ⟨ha, hb⟩]

/-- Add edges one after the other; the first refused one aborts. -/
def addEdges (g : Dag N E) (es : List (Edge E)) : Option (Dag N E) :=
  es.foldlM (fun g e => g.addEdge e.source e.target e.weight) g

@[simp] theorem addEdges_nil (g : Dag N E) : g.addEdges [] = some g := rfl

@[simp] theorem addEdges_cons (g : Dag N E) (e : Edge E) (es : List (Edge E)) :
    g.addEdges (e :: es) = (g.addEdge e.source e.target e.weight).bind (fun g => g.addEdges es) :=
  rfl

theorem addEdges_eq_some {g g' : Dag N E} {es : List (Edge E)} (h : g.addEdges es = some g') :
    g'.nodes = g.nodes ∧ g'.edges = g.edges ++ es := by
  induction es generalizing g with
  | nil =>
    rw [addEdges_nil, Option.some_inj] at h
    simp [h]
  | cons e es ih =>
    rw [addEdges_cons, Option.bind_eq_some_iff] at h
    obtain ⟨g₁, h₁, h₂⟩ := h
    obtain ⟨hn, he⟩ := addEdge_eq_some h₁
    obtain ⟨hn', he'⟩ := ih h₂
    exact ⟨hn'.trans hn, by rw [he', he, List.append_assoc]; rfl⟩

/-- Adding edges succeeds exactly when all of them together keep the graph acyclic. -/
theorem addEdges_isSome_iff (g : Dag N E) (es : List (Edge E))
    (hes : ∀ e ∈ es, e.source < g.nodeCount ∧ e.target < g.nodeCount) :
    (g.addEdges es).isSome ↔ Acyclic (Adj (g.arcs ++ es.map Edge.arc)) := by
  induction es generalizing g with
  | nil => simpa using g.acyclic
  | cons e es ih =>
    have he := hes e List.mem_cons_self
    have hstep := addEdge_isSome_iff (w := e.weight) he.1 he.2
    have hassoc : g.arcs ++ (e :: es).map Edge.arc
        = (g.arcs ++ [(e.source, e.target)]) ++ es.map Edge.arc := by
      simp [Edge.arc]
    rw [addEdges_cons, hassoc]
    cases hg : g.addEdge e.source e.target e.weight with
    | none =>
      rw [hg] at hstep
      have hcyc : ¬ Acyclic (Adj (g.arcs ++ [(e.source, e.target)])) := by simpa using hstep
      simp only [Option.bind_none, Option.isSome_none, Bool.false_eq_true, false_iff]
      exact fun hac => hcyc (hac.mono fun _ _ h => List.mem_append_left _ h)
    | some g₁ =>
      obtain ⟨hn, he₁⟩ := addEdge_eq_some hg
      have harcs : g₁.arcs = g.arcs ++ [(e.source, e.target)] := by
        simp [arcs, he₁, Edge.arc]
      have hlen : g₁.nodeCount = g.nodeCount := by simp [nodeCount, hn]
      rw [Option.bind_some, ih g₁ (fun e' he' => hlen ▸ hes e' (List.mem_cons_of_mem _ he')), harcs]

/-! ## Removing a node -/

/-- The index an old node has after node `i` of `n + 1` was removed. -/
def swapIndex (n i x : ℕ) : ℕ := if x = n then i else x

/-- Remove node `i` and its edges; the last node takes the freed index. -/
def removeNode (g : Dag N E) (i : ℕ) : Dag N E :=
  if hi : i < g.nodes.length then
    { nodes := (g.nodes.set i (g.nodes.getLast (by rintro h; simp [h] at hi))).dropLast
      edges := (g.edges.filter (fun e => e.source ≠ i ∧ e.target ≠ i)).map (fun e =>
        { source := swapIndex (g.nodes.length - 1) i e.source
          target := swapIndex (g.nodes.length - 1) i e.target
          weight := e.weight })
      bounded := by
        intro e he
        obtain ⟨e', he', rfl⟩ := List.mem_map.mp he
        obtain ⟨he', hne⟩ := List.mem_filter.mp he'
        have hb := g.bounded e' he'
        simp only [decide_eq_true_eq] at hne
        simp only [List.length_dropLast, List.length_set, swapIndex]
        split_ifs <;> omega
      acyclic := by
        -- send an index back to the node it held before the removal
        refine g.acyclic.of_map (fun x => if x = i then g.nodes.length - 1 else x) ?_
        intro u v huv
        simp only [Adj, List.mem_map, List.mem_filter, Edge.arc, Prod.mk.injEq] at huv
        obtain ⟨_, ⟨e, ⟨he, hne⟩, rfl⟩, rfl, rfl⟩ := huv
        have hb := g.bounded e he
        simp only [decide_eq_true_eq] at hne
        have hback : ∀ x, x < g.nodes.length → x ≠ i →
            (if swapIndex (g.nodes.length - 1) i x = i then g.nodes.length - 1
              else swapIndex (g.nodes.length - 1) i x) = x := by
          intro x hx hxi
          unfold swapIndex
          split_ifs <;> omega
        simp only
        rw [hback _ hb.1 hne.1, hback _ hb.2 hne.2]
        exact List.mem_map.mpr ⟨e, he, rfl⟩ }
  else g

section SwapRemove

variable {α β : Type*} {l : List α} {i : ℕ}

/-- Remove the element at an index; the last one takes its place. -/
def swapRemove (l : List α) (i : ℕ) : List α :=
  match l.getLast? with
  | none => []
  | some a => (l.set i a).dropLast

theorem map_swapRemove (f : α → β) : (swapRemove l i).map f = swapRemove (l.map f) i := by
  unfold swapRemove
  rw [List.getLast?_map]
  cases l.getLast? with
  | none => rfl
  | some a => simp [List.map_dropLast, List.map_set]

/-- All elements but the removed one stay. -/
theorem getElem?_swapRemove (hi : i < l.length) {x : ℕ} (hx : x < l.length) (hne : x ≠ i) :
    (swapRemove l i)[swapIndex (l.length - 1) i x]? = l[x]? := by
  have hlast : l ≠ [] := List.ne_nil_of_length_pos (by omega)
  unfold swapRemove
  rw [List.getLast?_eq_some_getLast hlast, List.getElem?_dropLast, List.length_set]
  unfold swapIndex
  split_ifs with h h' h'
  · subst h
    rw [List.getElem?_set_self hi, ← List.getLast?_eq_getElem?, List.getLast?_eq_some_getLast hlast]
  · omega
  · rw [List.getElem?_set_ne (Ne.symm hne)]
  · omega

theorem getElem?_swapRemove_of_lt (hi : i < l.length) {x : ℕ} (hx : x < i) :
    (swapRemove l i)[x]? = l[x]? := by
  have hsame : swapIndex (l.length - 1) i x = x := by
    unfold swapIndex
    split_ifs <;> omega
  have := getElem?_swapRemove hi (hx.trans hi) hx.ne
  rwa [hsame] at this

theorem perm_swapRemove {a : α} (ha : l[i]? = some a) : l.Perm (a :: swapRemove l i) := by
  obtain ⟨hi, rfl⟩ := List.getElem?_eq_some_iff.mp ha
  have hlast : l ≠ [] := List.ne_nil_of_length_pos (by omega)
  obtain ⟨k, b, rfl⟩ : ∃ k b, l = k ++ [b] := ⟨_, _, (List.dropLast_append_getLast hlast).symm⟩
  simp only [swapRemove, List.getLast?_append, List.getLast?_singleton, Option.some_or]
  simp only [List.length_append, List.length_singleton] at hi
  by_cases hik : i = k.length
  · subst hik
    simp
  · have hlt : i < k.length := by omega
    rw [List.getElem_append_left hlt, List.set_append_left _ _ hlt, List.dropLast_concat]
    refine List.perm_append_singleton b k |>.trans ?_
    have hsplit : k = k.take i ++ k[i] :: k.drop (i + 1) := by simp
    have hset : k.set i b = k.take i ++ b :: k.drop (i + 1) :=
      List.set_eq_take_append_cons_drop ..|>.trans (if_pos hlt)
    rw [hset]
    conv_lhs => rw [hsplit]
    classical
    simp only [List.perm_iff_count, List.count_cons, List.count_append]
    intro c
    omega

theorem mem_swapRemove (hl : l.Nodup) {a : α} (ha : l[i]? = some a) {x : α} :
    x ∈ swapRemove l i ↔ x ∈ l ∧ x ≠ a := by
  have hperm := perm_swapRemove ha
  have hnd : (a :: swapRemove l i).Nodup := hperm.nodup_iff.mp hl
  rw [hperm.mem_iff, List.mem_cons]
  constructor
  · intro hx
    refine ⟨.inr hx, ?_⟩
    rintro rfl
    exact (List.nodup_cons.mp hnd).1 hx
  · rintro ⟨hx, hne⟩
    exact hx.resolve_left hne

end SwapRemove

section RemoveNode

variable {N E L : Type*} {g g' : Dag N E} {i : ℕ}

theorem nodes_removeNode (hi : i < g.nodeCount) :
    (g.removeNode i).nodes = swapRemove g.nodes i := by
  have hi' : i < g.nodes.length := hi
  have hlast : g.nodes ≠ [] := List.ne_nil_of_length_pos (by omega)
  simp [removeNode, hi', swapRemove, List.getLast?_eq_some_getLast hlast]

theorem edges_removeNode (hi : i < g.nodeCount) : (g.removeNode i).edges =
    (g.edges.filter (fun e => e.source ≠ i ∧ e.target ≠ i)).map (fun e =>
      ⟨swapIndex (g.nodeCount - 1) i e.source, swapIndex (g.nodeCount - 1) i e.target, e.weight⟩) := by
  have hi' : i < g.nodes.length := hi
  simp [removeNode, hi', nodeCount]

/-- The arcs between labels of nodes. -/
def labelArcs (f : N → L) (g : Dag N E) : List (Option L × Option L) :=
  g.edges.map (fun e => (g.nodes[e.source]?.map f, g.nodes[e.target]?.map f))

/-- `g'` is the part of `g` on the nodes `origins`, which lists them by their indices in `g'`. -/
structure Restricts (g g' : Dag N E) (origins : List ℕ) : Prop where
  nodup : origins.Nodup
  nodes : g'.nodes.map some = origins.map (fun u => g.nodes[u]?)
  edges : g'.edges.map (fun e => (origins[e.source]?, origins[e.target]?, e.weight)) =
    (g.edges.filter (fun e => e.source ∈ origins ∧ e.target ∈ origins)).map
      (fun e => (some e.source, some e.target, e.weight))

namespace Restricts

variable {origins : List ℕ}

theorem refl (g : Dag N E) : Restricts g g (List.range g.nodeCount) where
  nodup := List.nodup_range
  nodes := by
    refine List.ext_getElem? fun u => ?_
    by_cases hu : u < g.nodes.length
    · simp [hu]
    · simp [Nat.le_of_not_lt hu]
  edges := by
    have hall : g.edges.filter (fun e => e.source ∈ List.range g.nodeCount ∧
        e.target ∈ List.range g.nodeCount) = g.edges :=
      List.filter_eq_self.mpr fun e he => by simpa using g.bounded e he
    rw [hall]
    refine List.map_congr_left fun e he => ?_
    obtain ⟨hs, ht⟩ := g.bounded e he
    rw [List.getElem?_range hs, List.getElem?_range ht]

theorem length_eq (h : Restricts g g' origins) : origins.length = g'.nodeCount := by
  simpa using (congrArg List.length h.nodes).symm

theorem getElem?_nodes (h : Restricts g g' origins) (u : ℕ) :
    g'.nodes[u]? = origins[u]?.bind (fun v => g.nodes[v]?) := by
  have hu := congrArg (fun l => l[u]?) h.nodes
  simp only [List.getElem?_map] at hu
  cases hv : origins[u]? <;> cases hn : g'.nodes[u]? <;> simp_all

/-- Removing a node takes its origin away. -/
theorem removeNode (h : Restricts g g' origins) (hi : i < g'.nodeCount) :
    Restricts g (g'.removeNode i) (swapRemove origins i) := by
  have hi' : i < origins.length := h.length_eq ▸ hi
  have horigin := List.getElem?_eq_getElem hi'
  have hmem : ∀ {u}, u ∈ swapRemove origins i ↔ u ∈ origins ∧ u ≠ origins[i] :=
    mem_swapRemove h.nodup horigin
  refine ⟨(List.nodup_cons.mp ((perm_swapRemove horigin).nodup_iff.mp h.nodup)).2, ?_, ?_⟩
  · rw [nodes_removeNode hi, map_swapRemove, h.nodes, map_swapRemove]
  · have hkeep : ∀ x, x < g'.nodeCount → x ≠ i →
        (swapRemove origins i)[swapIndex (g'.nodeCount - 1) i x]? = origins[x]? := fun x hx hne => by
      rw [← h.length_eq] at hx ⊢
      exact getElem?_swapRemove hi' hx hne
    -- an index is `i` when it has the origin of `i`
    have hiff : ∀ x, x < g'.nodeCount → (x ≠ i ↔ origins[x]? ≠ some origins[i]) := fun x hx => by
      rw [← horigin, ne_eq, ne_eq, List.getElem?_inj (h.length_eq ▸ hx) h.nodup]
    have hmoved : (g'.removeNode i).edges.map (fun e => ((swapRemove origins i)[e.source]?,
        (swapRemove origins i)[e.target]?, e.weight)) =
        (g'.edges.map (fun e => (origins[e.source]?, origins[e.target]?, e.weight))).filter
          (fun a => a.1 ≠ some origins[i] ∧ a.2.1 ≠ some origins[i]) := by
      rw [edges_removeNode hi, List.map_map, List.filter_map]
      have hfilter : g'.edges.filter (fun e => e.source ≠ i ∧ e.target ≠ i) =
          g'.edges.filter ((fun a : Option ℕ × Option ℕ × E =>
            decide (a.1 ≠ some origins[i] ∧ a.2.1 ≠ some origins[i])) ∘
              fun e => (origins[e.source]?, origins[e.target]?, e.weight)) := by
        refine List.filter_congr fun e he => ?_
        obtain ⟨hs, ht⟩ := g'.bounded e he
        simp only [Function.comp_apply, hiff _ hs, hiff _ ht]
      rw [← hfilter]
      refine List.map_congr_left fun e he => ?_
      obtain ⟨he, hne⟩ := List.mem_filter.mp he
      obtain ⟨hs, ht⟩ := g'.bounded e he
      obtain ⟨hsi, hti⟩ := of_decide_eq_true hne
      simp only [Function.comp_apply, hkeep _ hs hsi, hkeep _ ht hti]
    rw [hmoved, h.edges, List.filter_map, List.filter_filter]
    congr 1
    refine List.filter_congr fun e _ => ?_
    simp only [Function.comp_apply, hmem, ne_eq, Option.some.injEq]
    grind

end Restricts

end RemoveNode

end Dag

end Foundation
