import Fhevm.Scheduler.Partition

/-!
# Coarsening for locality

The second partition strategy: depth-first search, ignoring directions, gathers
each connected component, which is then sorted topologically. No dependence is
left between two blocks.

## Main definitions

* `partitionComponents` — the strategy.
* `UAdj` — adjacency in either direction.
* `partitionComponents_weaklyConnected` — the blocks are the connected components.
-/

namespace Fhevm.Scheduler

open Foundation

variable {N E : Type}

/-! ## The source -/

/-- Neighbours in either direction. -/
def neighborsUndirected (g : Dag N E) (n : ℕ) : List ℕ :=
  (g.outgoing n).map Edge.target ++ (g.incoming n).map Edge.source

def visitNeighbor (s : List ℕ × List ℕ × List ℕ) (neighbor : ℕ) : List ℕ × List ℕ × List ℕ :=
  let (stack, dfNodes, vis) := s
  if neighbor ∉ vis then (neighbor :: stack, dfNodes ++ [neighbor], neighbor :: vis) else s

/-- The depth-first search from the nodes on the stack. -/
def growComponent (g : Dag N E) : ℕ → List ℕ → List ℕ → List ℕ → List ℕ × List ℕ
  | 0, _, dfNodes, vis => (dfNodes, vis)
  | _ + 1, [], dfNodes, vis => (dfNodes, vis)
  | fuel + 1, n :: stack, dfNodes, vis =>
    let (stack, dfNodes, vis) := (neighborsUndirected g n).foldl visitNeighbor (stack, dfNodes, vis)
    growComponent g fuel stack dfNodes vis

/-- One round of the outer loop; `ts` is the topological order. -/
def componentFrom (g : Dag N E) (ts : List ℕ) (s : List ℕ × Dag ExecNode Unit) (nidx : ℕ) :
    List ℕ × Dag ExecNode Unit :=
  let (vis, executionGraph) := s
  if nidx ∈ vis then s
  else
    -- each round of the search pops a node that was pushed once
    let (dfNodes, vis) := growComponent g (g.nodeCount + 1) [nidx] [nidx] (nidx :: vis)
    (vis, executionGraph.addNode
      ⟨dfNodes.insertionSort (fun x y => ts.idxOf x ≤ ts.idxOf y), 0⟩)

def partitionComponents (T : Toposort) (g : Dag N E) :
    Except SchedulerError (Dag ExecNode Unit) :=
  match g.toposort T with
  | none => .error .cyclicDependence
  | some ts => .ok (ts.foldl (componentFrom g ts) ([], Dag.empty)).2

/-! ## The search -/

/-- An arc in either direction. -/
def UAdj (as : List Arc) (u v : ℕ) : Prop := Adj as u v ∨ Adj as v u

theorem UAdj.symm {as : List Arc} {u v : ℕ} (h : UAdj as u v) : UAdj as v u := Or.symm h

theorem mem_neighborsUndirected {g : Dag N E} {n v : ℕ} :
    v ∈ neighborsUndirected g n ↔ UAdj g.arcs n v := by
  simp only [neighborsUndirected, List.mem_append, List.mem_map, Dag.mem_outgoing,
    Dag.mem_incoming, UAdj, Dag.adj_iff]
  constructor
  · rintro (⟨e, ⟨he, hs⟩, rfl⟩ | ⟨e, ⟨he, ht⟩, rfl⟩)
    · exact .inl ⟨e, he, hs, rfl⟩
    · exact .inr ⟨e, he, rfl, ht⟩
  · rintro (⟨e, he, hs, rfl⟩ | ⟨e, he, rfl, ht⟩)
    · exact .inl ⟨e, ⟨he, hs⟩, rfl⟩
    · exact .inr ⟨e, ⟨he, ht⟩, rfl⟩

/-- The new neighbours are pushed, listed and marked. -/
theorem foldl_visitNeighbor (ns stack dfNodes vis : List ℕ) :
    ∃ new, ns.foldl visitNeighbor (stack, dfNodes, vis) =
        (new.reverse ++ stack, dfNodes ++ new, new.reverse ++ vis) ∧
      new.Nodup ∧ (∀ x ∈ new, x ∈ ns ∧ x ∉ vis) ∧ ∀ y ∈ ns, y ∈ new ∨ y ∈ vis := by
  induction ns generalizing stack dfNodes vis with
  | nil => exact ⟨[], by simp⟩
  | cons n ns ih =>
    rw [List.foldl_cons]
    by_cases hn : n ∈ vis
    · obtain ⟨new, hnew, hnd, hfresh, hall⟩ := ih stack dfNodes vis
      refine ⟨new, by simpa [visitNeighbor, hn] using hnew, hnd, fun x hx => ?_, fun y hy => ?_⟩
      · exact ⟨List.mem_cons_of_mem _ (hfresh x hx).1, (hfresh x hx).2⟩
      · rcases List.mem_cons.mp hy with rfl | hy
        · exact .inr hn
        · exact hall y hy
    · obtain ⟨new, hnew, hnd, hfresh, hall⟩ := ih (n :: stack) (dfNodes ++ [n]) (n :: vis)
      refine ⟨n :: new, by simpa [visitNeighbor, hn] using hnew, ?_, fun x hx => ?_,
        fun y hy => ?_⟩
      · exact List.nodup_cons.mpr ⟨fun h => (hfresh n h).2 List.mem_cons_self, hnd⟩
      · rcases List.mem_cons.mp hx with rfl | hx
        · exact ⟨List.mem_cons_self, hn⟩
        · exact ⟨List.mem_cons_of_mem _ (hfresh x hx).1,
            fun h => (hfresh x hx).2 (List.mem_cons_of_mem _ h)⟩
      · rcases List.mem_cons.mp hy with rfl | hy
        · exact .inl List.mem_cons_self
        · rcases hall y hy with h | h
          · exact .inl (List.mem_cons_of_mem _ h)
          · rcases List.mem_cons.mp h with rfl | h
            · exact .inl List.mem_cons_self
            · exact .inr h

theorem unvisited_append_le {g : Dag N E} {vis new : List ℕ} (hnd : new.Nodup)
    (hfresh : ∀ x ∈ new, x ∉ vis) (hlt : ∀ x ∈ new, x < g.nodeCount) :
    unvisited g (new.reverse ++ vis) + new.length ≤ unvisited g vis := by
  induction new generalizing vis with
  | nil => simp
  | cons x new ih =>
    obtain ⟨hx, hnd⟩ := List.nodup_cons.mp hnd
    have hstep := unvisited_cons_lt (hlt x List.mem_cons_self) (hfresh x List.mem_cons_self)
    have hfresh' : ∀ y ∈ new, y ∉ x :: vis := by
      intro y hy
      rw [List.mem_cons, not_or]
      exact ⟨fun h => hx (h ▸ hy), hfresh y (List.mem_cons_of_mem _ hy)⟩
    have hrest := ih hnd hfresh' (fun y hy => hlt y (List.mem_cons_of_mem _ hy))
    simp only [List.reverse_cons, List.append_assoc, List.singleton_append, List.length_cons]
    omega

/-- The state of the search that started from the visit map `vis₀`. -/
structure Searching (g : Dag N E) (vis₀ stack dfNodes vis : List ℕ) : Prop where
  mem_vis : ∀ x, x ∈ vis ↔ x ∈ dfNodes ∨ x ∈ vis₀
  nodup : dfNodes.Nodup
  fresh : ∀ x ∈ dfNodes, x ∉ vis₀
  bounded : ∀ x ∈ dfNodes, x < g.nodeCount
  stacked : ∀ x ∈ stack, x ∈ dfNodes
  done : ∀ x ∈ dfNodes, x ∉ stack → ∀ y, UAdj g.arcs x y → y ∈ vis

theorem uadj_lt {g : Dag N E} {u v : ℕ} (h : UAdj g.arcs u v) : v < g.nodeCount := by
  rcases h with h | h
  · exact (Dag.adj_lt h).2
  · exact (Dag.adj_lt h).1

/-- The search only adds to the list. -/
theorem mem_growComponent {g : Dag N E} {fuel : ℕ} {stack dfNodes vis : List ℕ} {x : ℕ}
    (hx : x ∈ dfNodes) : x ∈ (growComponent g fuel stack dfNodes vis).1 := by
  induction fuel generalizing stack dfNodes vis with
  | zero => exact hx
  | succ fuel ih =>
    cases stack with
    | nil => exact hx
    | cons n stack =>
      obtain ⟨new, hnew, -⟩ := foldl_visitNeighbor (neighborsUndirected g n) stack dfNodes vis
      rw [growComponent, hnew]
      exact ih (List.mem_append_left _ hx)

theorem growComponent_spec {g : Dag N E} {fuel : ℕ} {vis₀ stack dfNodes vis : List ℕ}
    (h : Searching g vis₀ stack dfNodes vis) (hfuel : unvisited g vis + stack.length < fuel) :
    ∃ dfNodes' vis', growComponent g fuel stack dfNodes vis = (dfNodes', vis') ∧
      Searching g vis₀ [] dfNodes' vis' := by
  induction fuel generalizing stack dfNodes vis with
  | zero => omega
  | succ fuel ih =>
    cases stack with
    | nil => exact ⟨dfNodes, vis, rfl, h⟩
    | cons n stack =>
      obtain ⟨new, hnew, hnd, hfresh, hall⟩ :=
        foldl_visitNeighbor (neighborsUndirected g n) stack dfNodes vis
      have hlt : ∀ x ∈ new, x < g.nodeCount :=
        fun x hx => uadj_lt (mem_neighborsUndirected.mp (hfresh x hx).1)
      have hle := unvisited_append_le hnd (fun x hx => (hfresh x hx).2) hlt
      have hstate : Searching g vis₀ (new.reverse ++ stack) (dfNodes ++ new)
          (new.reverse ++ vis) := by
        refine
          { mem_vis := fun x => ?_
            nodup := ?_
            fresh := fun x hx => ?_
            bounded := fun x hx => ?_
            stacked := fun x hx => ?_
            done := fun x hx hst y hy => ?_ }
        · have := h.mem_vis x
          simp only [List.mem_append, List.mem_reverse, this]
          tauto
        · rw [List.nodup_append]
          refine ⟨h.nodup, hnd, ?_⟩
          rintro x hx y hy rfl
          exact (hfresh x hy).2 ((h.mem_vis x).mpr (.inl hx))
        · rcases List.mem_append.mp hx with hx | hx
          · exact h.fresh x hx
          · exact fun hv => (hfresh x hx).2 ((h.mem_vis x).mpr (.inr hv))
        · rcases List.mem_append.mp hx with hx | hx
          · exact h.bounded x hx
          · exact hlt x hx
        · rcases List.mem_append.mp hx with hx | hx
          · exact List.mem_append_right _ (List.mem_reverse.mp hx)
          · exact List.mem_append_left _ (h.stacked x (List.mem_cons_of_mem _ hx))
        · rw [List.mem_append, not_or, List.mem_reverse] at hst
          rw [List.mem_append, List.mem_reverse]
          have hxd : x ∈ dfNodes := (List.mem_append.mp hx).resolve_right hst.1
          by_cases hxn : x = n
          · exact hall y (mem_neighborsUndirected.mpr (hxn ▸ hy))
          · exact .inr (h.done x hxd (by simp [hxn, hst.2]) y hy)
      obtain ⟨df', vis', hgrow, hs⟩ := ih hstate (by
        simp only [List.length_append, List.length_reverse, List.length_cons] at hfuel ⊢
        omega)
      exact ⟨df', vis', by rw [growComponent, hnew]; exact hgrow, hs⟩

/-- What holds at the start and of all neighbours holds of all nodes that are found. -/
theorem growComponent_induction {g : Dag N E} {P : ℕ → Prop}
    (hstep : ∀ x y, P x → UAdj g.arcs x y → P y) {fuel : ℕ} {stack dfNodes vis : List ℕ}
    (hstack : ∀ x ∈ stack, P x) (hnodes : ∀ x ∈ dfNodes, P x) :
    ∀ x ∈ (growComponent g fuel stack dfNodes vis).1, P x := by
  induction fuel generalizing stack dfNodes vis with
  | zero => exact hnodes
  | succ fuel ih =>
    cases stack with
    | nil => exact hnodes
    | cons n stack =>
      obtain ⟨new, hnew, -, hfresh, -⟩ :=
        foldl_visitNeighbor (neighborsUndirected g n) stack dfNodes vis
      have hfound : ∀ x ∈ new, P x := fun x hx =>
        hstep n x (hstack n List.mem_cons_self) (mem_neighborsUndirected.mp (hfresh x hx).1)
      rw [growComponent, hnew]
      exact ih (by grind) (by grind)

/-! ## The blocks of the local strategy -/

/-- The invariant of the outer loop: each block is closed under adjacency and sorted. -/
structure ComponentBlocks (g : Dag N E) (ts vis : List ℕ) (bs : List (List ℕ)) : Prop where
  mem_vis : ∀ x, x ∈ vis ↔ x ∈ bs.flatten
  nodup : bs.flatten.Nodup
  bounded : ∀ x ∈ bs.flatten, x < g.nodeCount
  closed : ∀ b ∈ bs, ∀ x ∈ b, ∀ y, UAdj g.arcs x y → y ∈ b
  sorted : ∀ b ∈ bs, b.Pairwise (fun x y => ts.idxOf x ≤ ts.idxOf y)

namespace ComponentBlocks

variable {g : Dag N E} {ts vis : List ℕ} {bs : List (List ℕ)}

theorem empty (g : Dag N E) (ts : List ℕ) : ComponentBlocks g ts [] [] where
  mem_vis := by simp
  nodup := by simp
  bounded := by simp
  closed := by simp
  sorted := by simp

theorem vis_closed (h : ComponentBlocks g ts vis bs) {x y : ℕ} (hx : x ∈ vis)
    (hxy : UAdj g.arcs x y) : y ∈ vis := by
  obtain ⟨b, hb, hxb⟩ := List.mem_flatten.mp ((h.mem_vis x).mp hx)
  exact (h.mem_vis y).mpr (List.mem_flatten_of_mem hb (h.closed b hb x hxb y hxy))

/-- A finished search keeps the invariant. -/
theorem snoc (h : ComponentBlocks g ts vis bs) {dfNodes vis' : List ℕ}
    (hs : Searching g vis [] dfNodes vis') :
    ComponentBlocks g ts vis'
      (bs ++ [dfNodes.insertionSort (fun x y => ts.idxOf x ≤ ts.idxOf y)]) := by
  have hperm := List.perm_insertionSort (fun x y => ts.idxOf x ≤ ts.idxOf y) dfNodes
  refine
    { mem_vis := fun x => ?_
      nodup := ?_
      bounded := fun x hx => ?_
      closed := fun b hb x hx y hxy => ?_
      sorted := fun b hb => ?_ }
  · rw [hs.mem_vis, h.mem_vis, List.flatten_append, List.mem_append, List.flatten_singleton,
      hperm.mem_iff, or_comm]
  · rw [List.flatten_append, List.flatten_singleton, List.nodup_append]
    refine ⟨h.nodup, hperm.nodup_iff.mpr hs.nodup, ?_⟩
    rintro x hx y hy rfl
    exact hs.fresh x (hperm.mem_iff.mp hy) ((h.mem_vis x).mpr hx)
  · rw [List.flatten_append, List.flatten_singleton, List.mem_append] at hx
    rcases hx with hx | hx
    · exact h.bounded x hx
    · exact hs.bounded x (hperm.mem_iff.mp hx)
  · rcases List.mem_append.mp hb with hb | hb
    · exact h.closed b hb x hx y hxy
    · rw [List.mem_singleton] at hb
      subst hb
      rw [hperm.mem_iff] at hx ⊢
      have hy := hs.done x hx (by simp) y hxy
      rcases (hs.mem_vis y).mp hy with hy | hy
      · exact hy
      · exact absurd (h.vis_closed hy hxy.symm) (hs.fresh x hx)
  · rcases List.mem_append.mp hb with hb | hb
    · exact h.sorted b hb
    · rw [List.mem_singleton.mp hb]
      have : Std.Total (fun x y => ts.idxOf x ≤ ts.idxOf y) := ⟨fun _ _ => Nat.le_total _ _⟩
      have : IsTrans ℕ (fun x y => ts.idxOf x ≤ ts.idxOf y) := ⟨fun _ _ _ => Nat.le_trans⟩
      exact List.pairwise_insertionSort _ _

theorem topological (h : ComponentBlocks g ts vis bs) (hts : IsTopological g.nodeCount g.arcs ts)
    (hall : ∀ x ∈ ts, x ∈ vis) : IsTopological g.nodeCount g.arcs bs.flatten where
  perm := by
    rw [List.perm_ext_iff_of_nodup h.nodup List.nodup_range]
    intro x
    rw [List.mem_range]
    exact ⟨h.bounded x, fun hx => (h.mem_vis x).mp (hall x (hts.mem_iff.mpr hx))⟩
  ordered := by
    rw [List.pairwise_flatten]
    constructor
    · intro b hb
      refine (h.sorted b hb).imp fun {x y} hxy hadj => ?_
      have := hts.idxOf_lt hadj (Dag.adj_lt hadj).1 (Dag.adj_lt hadj).2
      omega
    · refine (List.nodup_flatten.mp h.nodup).2.imp_of_mem ?_
      intro b c hb _ hdisj x hx y hy hadj
      exact hdisj (h.closed b hb x hx y (.inr hadj)) hy
  irrefl u hu := g.acyclic u (.single hu)

end ComponentBlocks

theorem componentFrom_spec {g : Dag N E} {ts : List ℕ} {s : List ℕ × Dag ExecNode Unit} {nidx : ℕ}
    (h : ComponentBlocks g ts s.1 (blocks s.2)) (hlt : nidx < g.nodeCount) :
    ComponentBlocks g ts (componentFrom g ts s nidx).1 (blocks (componentFrom g ts s nidx).2) ∧
      nidx ∈ (componentFrom g ts s nidx).1 ∧ (∀ x ∈ s.1, x ∈ (componentFrom g ts s nidx).1) ∧
      (componentFrom g ts s nidx).2.edges = s.2.edges ∧
      ((∀ x ∈ s.2.nodes, x.dependenceCounter = 0) →
        ∀ x ∈ (componentFrom g ts s nidx).2.nodes, x.dependenceCounter = 0) := by
  obtain ⟨vis, X⟩ := s
  simp only [componentFrom]
  split_ifs with hvis
  · exact ⟨h, hvis, fun _ hx => hx, rfl, fun hz => hz⟩
  · have hstart : Searching g vis [nidx] [nidx] (nidx :: vis) := by
      refine
        { mem_vis := by simp
          nodup := by simp
          fresh := by simpa using hvis
          bounded := by simpa using hlt
          stacked := by simp
          done := by simp }
    have hle : unvisited g (nidx :: vis) + [nidx].length < g.nodeCount + 1 := by
      have hlt' := unvisited_cons_lt hlt hvis
      have : unvisited g vis ≤ (List.range g.nodeCount).length := List.countP_le_length
      rw [List.length_range] at this
      simp only [List.length_singleton]
      omega
    obtain ⟨df', vis', hgrow, hs⟩ := growComponent_spec hstart hle
    have hroot : nidx ∈ (growComponent g (g.nodeCount + 1) [nidx] [nidx] (nidx :: vis)).1 :=
      mem_growComponent List.mem_cons_self
    rw [hgrow] at hroot
    simp only [hgrow]
    refine ⟨?_, ?_, fun x hx => ?_, rfl, fun hz x hx => ?_⟩
    · simpa [blocks] using h.snoc hs
    · exact (hs.mem_vis nidx).mpr (.inl hroot)
    · exact (hs.mem_vis x).mpr (.inr hx)
    · rcases List.mem_append.mp hx with hx | hx
      · exact hz x hx
      · rw [List.mem_singleton.mp hx]

/-- The blocks that the outer loop builds are closed under adjacency. -/
theorem foldl_componentFrom {g : Dag N E} {ts : List ℕ}
    (hts : IsTopological g.nodeCount g.arcs ts) :
    ComponentBlocks g ts (ts.foldl (componentFrom g ts) ([], Dag.empty)).1
        (blocks (ts.foldl (componentFrom g ts) ([], Dag.empty)).2) ∧
      (∀ x ∈ ts, x ∈ (ts.foldl (componentFrom g ts) ([], Dag.empty)).1) ∧
      (ts.foldl (componentFrom g ts) ([], Dag.empty)).2.edges = [] ∧
      ∀ x ∈ (ts.foldl (componentFrom g ts) ([], Dag.empty)).2.nodes, x.dependenceCounter = 0 := by
  have hrun : ∀ pre rest : List ℕ, ts = pre ++ rest → ∀ s : List ℕ × Dag ExecNode Unit,
      ComponentBlocks g ts s.1 (blocks s.2) → (∀ x ∈ pre, x ∈ s.1) → s.2.edges = [] →
      (∀ x ∈ s.2.nodes, x.dependenceCounter = 0) →
      ComponentBlocks g ts (rest.foldl (componentFrom g ts) s).1
          (blocks (rest.foldl (componentFrom g ts) s).2) ∧
        (∀ x ∈ ts, x ∈ (rest.foldl (componentFrom g ts) s).1) ∧
        (rest.foldl (componentFrom g ts) s).2.edges = [] ∧
        ∀ x ∈ (rest.foldl (componentFrom g ts) s).2.nodes, x.dependenceCounter = 0 := by
    intro pre rest
    induction rest generalizing pre with
    | nil =>
      intro heq s h hpre hedges hz
      rw [List.append_nil] at heq
      exact ⟨h, heq ▸ hpre, hedges, hz⟩
    | cons nidx rest ih =>
      intro heq s h hpre hedges hz
      have hmem : nidx < g.nodeCount := hts.mem_iff.mp (by simp [heq])
      obtain ⟨h', hn, hsub, he, hz'⟩ := componentFrom_spec h hmem
      refine ih (pre ++ [nidx]) (by simp [heq]) _ h' ?_ (he.trans hedges) (hz' hz)
      intro x hx
      rcases List.mem_append.mp hx with hx | hx
      · exact hsub x (hpre x hx)
      · rw [List.mem_singleton.mp hx]
        exact hn
  exact hrun [] ts rfl ([], Dag.empty) (by simpa [blocks] using ComponentBlocks.empty g ts)
    (by simp) rfl (by simp)

/-- The local strategy never fails, and leaves no execution edge. -/
theorem partitionComponents_spec (T : Toposort) (g : Dag N E) :
    ∃ X, partitionComponents T g = .ok X ∧ IsPartition g X ∧ X.edges = [] := by
  obtain ⟨ts, hts⟩ := Option.isSome_iff_exists.mp (g.toposort_isSome T)
  have htop := Dag.toposort_sound hts
  obtain ⟨h, hall, hedges, hz⟩ := foldl_componentFrom htop
  refine ⟨_, by rw [partitionComponents, hts], ?_, hedges⟩
  generalize (ts.foldl (componentFrom g ts) ([], Dag.empty)).2 = X at h hedges hz ⊢
  have harcs : X.arcs = [] := by simp [Dag.arcs, hedges]
  refine
    { topological := h.topological htop hall
      adj_iff := fun i j => ?_
      simple := by simp [harcs]
      counter := fun i x hx => ?_ }
  · rw [harcs]
    simp only [Adj, List.not_mem_nil, false_iff, not_and]
    rintro hne ⟨u, hu, v, hv, huv⟩
    exact hne (block_unique h.nodup (h.closed _ (block_mem_blocks hu) u hu v (.inl huv)) hv)
  · rw [harcs, hz x (List.mem_of_getElem? hx)]
    rfl

/-! ## The blocks are the connected components -/

/-- The nodes are connected when directions are ignored. -/
abbrev WeaklyConnected (as : List Arc) : ℕ → ℕ → Prop := Relation.EqvGen (Adj as)

theorem UAdj.weaklyConnected {as : List Arc} {u v : ℕ} (h : UAdj as u v) :
    WeaklyConnected as u v := by
  rcases h with h | h
  · exact .rel _ _ h
  · exact .symm _ _ (.rel _ _ h)

/-- A block that is closed under adjacency has all nodes that are connected to one of its own. -/
theorem ComponentBlocks.mem_of_weaklyConnected {g : Dag N E} {ts vis : List ℕ}
    {bs : List (List ℕ)} (h : ComponentBlocks g ts vis bs) {b : List ℕ} (hb : b ∈ bs) {u v : ℕ}
    (huv : WeaklyConnected g.arcs u v) : u ∈ b ↔ v ∈ b := by
  induction huv with
  | rel u v hadj =>
    exact ⟨fun hu => h.closed b hb u hu v (.inl hadj), fun hv => h.closed b hb v hv u (.inr hadj)⟩
  | refl u => rfl
  | symm u v _ ih => exact ih.symm
  | trans u v w _ _ ih₁ ih₂ => exact ih₁.trans ih₂

/-- One node of the block is connected to all of its nodes. -/
def Rooted (as : List Arc) (b : List ℕ) : Prop := ∃ u ∈ b, ∀ v ∈ b, WeaklyConnected as u v

theorem componentFrom_rooted {g : Dag N E} {ts : List ℕ} {s : List ℕ × Dag ExecNode Unit}
    {nidx : ℕ} (h : ∀ b ∈ blocks s.2, Rooted g.arcs b) :
    ∀ b ∈ blocks (componentFrom g ts s nidx).2, Rooted g.arcs b := by
  obtain ⟨vis, X⟩ := s
  simp only [componentFrom]
  split_ifs with hvis
  · exact h
  · intro b hb
    simp only [blocks, Dag.nodes_addNode, List.map_append, List.mem_append] at hb
    rcases hb with hb | hb
    · exact h b hb
    · obtain rfl := List.mem_singleton.mp hb
      have hconnected : ∀ v ∈ (growComponent g (g.nodeCount + 1) [nidx] [nidx] (nidx :: vis)).1,
          WeaklyConnected g.arcs nidx v :=
        growComponent_induction (fun x y hx hxy => hx.trans _ _ _ hxy.weaklyConnected)
          (by simpa using .refl _) (by simpa using .refl _)
      refine ⟨nidx, ?_, fun v hv => hconnected v ((List.mem_insertionSort _).mp hv)⟩
      exact (List.mem_insertionSort _).mpr (mem_growComponent List.mem_cons_self)

theorem foldl_componentFrom_rooted {g : Dag N E} {ts : List ℕ} (rest : List ℕ)
    {s : List ℕ × Dag ExecNode Unit} (h : ∀ b ∈ blocks s.2, Rooted g.arcs b) :
    ∀ b ∈ blocks (rest.foldl (componentFrom g ts) s).2, Rooted g.arcs b := by
  induction rest generalizing s with
  | nil => exact h
  | cons nidx rest ih => exact ih (componentFrom_rooted h)

/-- The blocks are the connected components: each has exactly the nodes that are connected to any of
its own, once each and in a topological order. No dependence joins two of them. -/
theorem partitionComponents_weaklyConnected (T : Toposort) (g : Dag N E) :
    ∃ X, partitionComponents T g = .ok X ∧
      (blocks X).flatten.Perm (List.range g.nodeCount) ∧
      (∀ b ∈ blocks X, b ≠ [] ∧ b.Nodup ∧ b.Pairwise (fun u v => ¬ Adj g.arcs v u) ∧
        ∀ u ∈ b, ∀ v, v ∈ b ↔ WeaklyConnected g.arcs u v) ∧
      (∀ i j u v, u ∈ block X i → v ∈ block X j → Adj g.arcs u v → i = j) ∧ X.edges = [] := by
  obtain ⟨ts, hts⟩ := Option.isSome_iff_exists.mp (g.toposort_isSome T)
  have htop := Dag.toposort_sound hts
  obtain ⟨h, hall, hedges, -⟩ := foldl_componentFrom htop
  have hrooted : ∀ b ∈ blocks (ts.foldl (componentFrom g ts) ([], Dag.empty)).2,
      Rooted g.arcs b := foldl_componentFrom_rooted ts (by simp [blocks])
  refine ⟨_, by rw [partitionComponents, hts], ?_⟩
  generalize (ts.foldl (componentFrom g ts) ([], Dag.empty)).2 = X at h hedges hrooted ⊢
  have hflat := h.topological htop hall
  refine ⟨hflat.perm, fun b hb => ?_, fun i j u v hu hv huv => ?_, hedges⟩
  · obtain ⟨root, hroot, hconnected⟩ := hrooted b hb
    refine ⟨List.ne_nil_of_mem hroot, (List.nodup_flatten.mp h.nodup).1 b hb,
      (List.pairwise_flatten.mp hflat.ordered).1 b hb, fun u hu v => ⟨fun hv => ?_, fun huv => ?_⟩⟩
    · exact (hconnected u hu).symm.trans _ _ _ (hconnected v hv)
    · exact (h.mem_of_weaklyConnected hb huv).mp hu
  · exact block_unique h.nodup (h.closed _ (block_mem_blocks hu) u hu v (.inl huv)) hv

end Fhevm.Scheduler
