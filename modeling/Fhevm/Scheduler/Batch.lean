import Fhevm.Scheduler.BuildComponents

/-!
# The components of a batch

What the components of several transactions are, in terms of the transactions'
operations: which operations share a component, which handles a component
produces and which ones it needs.

## Main definitions

* `NeededHandle`, `Linked` — the needed operations of a transaction, and its chain links.
* `Describes` — the components of a batch in terms of its operations.
* `buildBatch_eq_ok`, `buildBatch_eq_error` — when `buildBatch` succeeds, and with what.
-/

namespace Fhevm.Scheduler

open Foundation

variable {R ε : Type}

/-! ## Operations by handle -/

/-- The handle of a needed operation. -/
def NeededHandle (operations : List (DFGOp R)) (h : Handle) : Prop :=
  ∃ g i, operationGraph (sortByHandle operations) = some g ∧ i < g.nodeCount ∧
    i ∉ unneeded g ∧ (operationAt (sortByHandle operations) i).outputHandle = h

/-- The needed operation of `q` has no consumer but that of `h`, which has no
other producer in the transaction. -/
def Linked (operations : List (DFGOp R)) (q h : Handle) : Prop :=
  ∃ g i j, operationGraph (sortByHandle operations) = some g ∧ Chained (neededArcs g) i j ∧
    (operationAt (sortByHandle operations) i).outputHandle = q ∧
    (operationAt (sortByHandle operations) j).outputHandle = h

/-- Handles are distinct inside a transaction, as the key of a computation says. -/
def DistinctHandles (operations : List (DFGOp R)) : Prop :=
  (operations.map DFGOp.outputHandle).Nodup

theorem DistinctHandles.sorted {operations : List (DFGOp R)} (h : DistinctHandles operations) :
    DistinctHandles (sortByHandle operations) :=
  ((sortByHandle_perm operations).map _).nodup_iff.mpr h

theorem DistinctHandles.eq_of_outputHandle {operations : List (DFGOp R)}
    (hnd : DistinctHandles operations) {i j : ℕ} (hi : i < operations.length)
    (hj : j < operations.length)
    (h : (operationAt operations i).outputHandle = (operationAt operations j).outputHandle) :
    i = j := by
  have hget : ∀ {k}, k < operations.length →
      (operations.map DFGOp.outputHandle)[k]? = some (operationAt operations k).outputHandle := by
    intro k hk
    simp [operationAt, List.getD_eq_getElem?_getD, hk]
  have hi' : i < (operations.map DFGOp.outputHandle).length := by simpa using hi
  exact (List.getElem?_inj hi' hnd).mp (by rw [hget hi, hget hj, h])

/-- One transaction's components in terms of its operations. -/
structure DescribesTx (operations : List (DFGOp R)) (cs : List (ComponentNode R)) : Prop where
  needed : ∀ c ∈ cs, ∀ h ∈ c.results, NeededHandle operations h
  complete : ∀ h, NeededHandle operations h → ∃ c ∈ cs, h ∈ c.results
  disjoint : cs.Pairwise (fun c c' => ∀ h ∈ c.results, h ∉ c'.results)
  linked : ∀ c ∈ cs, ∀ q h, Linked operations q h → (q ∈ c.results ↔ h ∈ c.results)
  chain : ∀ c ∈ cs, ∀ f : Handle → ℕ, (∀ q h, Linked operations q h → f q = f h) →
    ∀ h ∈ c.results, ∀ h' ∈ c.results, f h = f h'
  inputs : ∀ c ∈ cs, ∀ d, d ∈ c.inputs.keys ↔
    (∃ op ∈ operations, op.outputHandle ∈ c.results ∧ .dependence d ∈ op.inputs) ∧ d ∉ c.results
  internal : ∀ c ∈ cs, ∀ op ∈ operations, op.outputHandle ∈ c.results →
    ∀ d, .dependence d ∈ op.inputs → d ∈ c.results → Linked operations d op.outputHandle

section Transaction

variable {operations : List (DFGOp R)} {g : Dag (Bool × ℕ) ℕ} {bs : List (List ℕ)}

theorem nodeCount_operationGraph (hg : operationGraph operations = some g) :
    g.nodeCount = operations.length := by
  simp [Dag.nodeCount, (operationGraph_eq_some hg).1]

theorem Split.mem_block_of_adj (h : Split g bs) {b : List ℕ} (hb : b ∈ bs) {u v : ℕ}
    (hv : v ∈ b) (huv : Chained (neededArcs g) u v) : u ∈ b := by
  have hu : u ∉ unneeded g := by
    have := (List.mem_filter.mp huv.2.2).2
    simp only [decide_eq_true_eq] at this
    exact this.1
  have hlt : u < g.nodeCount := (g.arcs_bounded _ (List.mem_of_mem_filter huv.2.2)).1
  have hmem : u ∈ bs.flatten := h.perm.mem_iff.mpr (by simp [hlt, hu])
  obtain ⟨b', hb', hub⟩ := List.mem_flatten.mp hmem
  have hvb := h.linked b' hb' u v huv hub
  -- blocks do not overlap
  have hsame : b' = b := by
    by_contra hne
    have hd := (List.nodup_flatten.mp h.nodup).2
    have : Std.Symm (List.Disjoint : List ℕ → List ℕ → Prop) :=
      ⟨fun _ _ hdisjoint => List.Disjoint.symm hdisjoint⟩
    exact hd.forall hb' hb hne hvb hv
  exact hsame ▸ hub

/-- Along a chain an invariant of the links is constant. -/
theorem Split.eq_of_mem (h : Split g bs) {b : List ℕ} (hb : b ∈ bs) {f : ℕ → ℕ}
    (hf : ∀ u v, Chained (neededArcs g) u v → f u = f v) {u v : ℕ} (hu : u ∈ b) (hv : v ∈ b) :
    f u = f v :=
  eq_of_isChain hf (h.chain b hb) hu hv

theorem forall₂_getElem? {α β : Type} {r : α → β → Prop} {l : List α} {l' : List β}
    (h : List.Forall₂ r l l') (k : ℕ) :
    (l[k]? = none ∧ l'[k]? = none) ∨ ∃ a b, l[k]? = some a ∧ l'[k]? = some b ∧ r a b := by
  induction h generalizing k with
  | nil => simp
  | cons hab _ ih =>
    cases k with
    | zero => exact .inr ⟨_, _, rfl, rfl, hab⟩
    | succ k => simpa using ih k

/-- Blocks and components correspond position by position. -/
theorem ComponentsOf.getElem? {tid : Handle} {cs : List (ComponentNode R)}
    (h : ComponentsOf operations tid bs.zipIdx cs) (k : ℕ) :
    (bs[k]? = none ∧ cs[k]? = none) ∨ ∃ b c, bs[k]? = some b ∧ cs[k]? = some c ∧
      c.BuiltFrom (b.map (operationAt operations)) ∧ c.transactionId = tid := by
  rcases forall₂_getElem? h k with ⟨hb, hc⟩ | ⟨⟨b, j⟩, c, hb, hc, hbuilt, htid, -⟩
  · exact .inl ⟨by simpa using hb, hc⟩
  · refine .inr ⟨b, c, ?_, hc, hbuilt, htid⟩
    have := List.mem_zipIdx_iff_getElem?.mp (List.mem_of_getElem? hb)
    simp only [List.getElem?_zipIdx, Option.map_eq_some_iff, Prod.mk.injEq] at hb
    obtain ⟨b', hb', rfl, -⟩ := hb
    exact hb'

theorem mem_sortByHandle {op : DFGOp R} : op ∈ sortByHandle operations ↔ op ∈ operations :=
  (sortByHandle_perm operations).mem_iff

theorem exists_operationAt {op : DFGOp R} (h : op ∈ operations) :
    ∃ i, i < operations.length ∧ operationAt operations i = op := by
  obtain ⟨i, hi, rfl⟩ := List.mem_iff_getElem.mp h
  exact ⟨i, hi, by simp [operationAt, List.getD_eq_getElem?_getD, hi]⟩

theorem operationAt_mem {i : ℕ} (h : i < operations.length) :
    operationAt operations i ∈ operations := by
  simp [operationAt, List.getD_eq_getElem?_getD, h]

theorem describesTx {tid : Handle} {cs : List (ComponentNode R)}
    (hnd : DistinctHandles operations)
    (hg : operationGraph (sortByHandle operations) = some g) (hsplit : Split g bs)
    (hcs : ComponentsOf (sortByHandle operations) tid bs.zipIdx cs) :
    DescribesTx operations cs := by
  have hcount := nodeCount_operationGraph hg
  have hinj : ∀ {i j}, i < g.nodeCount → j < g.nodeCount →
      (operationAt (sortByHandle operations) i).outputHandle =
        (operationAt (sortByHandle operations) j).outputHandle → i = j :=
    fun hi hj h => hnd.sorted.eq_of_outputHandle (hcount ▸ hi) (hcount ▸ hj) h
  -- every component has its block
  have hblock : ∀ c ∈ cs, ∃ b ∈ bs,
      c.BuiltFrom (b.map (operationAt (sortByHandle operations))) := by
    intro c hc
    obtain ⟨k, hk⟩ := List.mem_iff_getElem?.mp hc
    rcases hcs.getElem? k with ⟨-, hnone⟩ | ⟨b, c', hb, hc', hbuilt, -⟩
    · rw [hk] at hnone
      cases hnone
    · rw [hk] at hc'
      cases hc'
      exact ⟨b, List.mem_of_getElem? hb, hbuilt⟩
  have hresults : ∀ {b : List ℕ} {c : ComponentNode R},
      c.BuiltFrom (b.map (operationAt (sortByHandle operations))) → ∀ h, h ∈ c.results ↔
        ∃ i ∈ b, (operationAt (sortByHandle operations) i).outputHandle = h := by
    intro b c hbuilt h
    simp [hbuilt.results]
  have hmem : ∀ {b : List ℕ} {c : ComponentNode R}, b ∈ bs →
      c.BuiltFrom (b.map (operationAt (sortByHandle operations))) → ∀ {i}, i < g.nodeCount →
        ((operationAt (sortByHandle operations) i).outputHandle ∈ c.results ↔ i ∈ b) := by
    intro b c hb hbuilt i hi
    rw [hresults hbuilt]
    constructor
    · rintro ⟨j, hj, heq⟩
      rwa [hinj hi (hsplit.lt hb hj) heq.symm]
    · exact fun hi => ⟨i, hi, rfl⟩
  have hflat : ∀ {i}, i ∈ bs.flatten ↔ i < g.nodeCount ∧ i ∉ unneeded g := by
    intro i
    rw [hsplit.perm.mem_iff, List.mem_filter, List.mem_range, decide_eq_true_eq]
  -- the operations of a component are those that it produces
  have hops : ∀ {b : List ℕ} {c : ComponentNode R}, b ∈ bs →
      c.BuiltFrom (b.map (operationAt (sortByHandle operations))) → ∀ op,
        op ∈ b.map (operationAt (sortByHandle operations)) ↔
          op ∈ operations ∧ op.outputHandle ∈ c.results := by
    intro b c hb hbuilt op
    constructor
    · intro hop
      obtain ⟨i, hi, rfl⟩ := List.mem_map.mp hop
      have hlt := hsplit.lt hb hi
      exact ⟨mem_sortByHandle.mp (operationAt_mem (hcount ▸ hlt)), (hmem hb hbuilt hlt).mpr hi⟩
    · rintro ⟨hop, hres⟩
      obtain ⟨i, hi, rfl⟩ := exists_operationAt (mem_sortByHandle.mpr hop)
      exact List.mem_map_of_mem ((hmem hb hbuilt (hcount ▸ hi)).mp hres)
  have hlinked : ∀ q h, Linked operations q h → ∃ i j, Chained (neededArcs g) i j ∧
      (operationAt (sortByHandle operations) i).outputHandle = q ∧
      (operationAt (sortByHandle operations) j).outputHandle = h ∧
      i < g.nodeCount ∧ j < g.nodeCount := by
    rintro q h ⟨g', i, j, hg', hchained, hi, hj⟩
    rw [hg] at hg'
    cases hg'
    have hlt := g.arcs_bounded _ (List.mem_of_mem_filter hchained.2.2)
    exact ⟨i, j, hchained, hi, hj, hlt.1, hlt.2⟩
  refine
    { needed := fun c hc h hh => ?_
      complete := ?complete
      disjoint := ?disjoint
      linked := fun c hc q h hlink => ?_
      chain := fun c hc f hf h hh h' hh' => ?_
      inputs := fun c hc d => ?_
      internal := fun c hc op hop hres d hd hdres => ?_ }
  case complete =>
    rintro h ⟨g', i, hg', hi, hneeded, rfl⟩
    rw [hg] at hg'
    cases hg'
    obtain ⟨b, hb, hib⟩ := List.mem_flatten.mp (hflat.mpr ⟨hi, hneeded⟩)
    obtain ⟨k, hk⟩ := List.mem_iff_getElem?.mp hb
    rcases hcs.getElem? k with ⟨hnone, -⟩ | ⟨b', c, hb', hc, hbuilt, -⟩
    · rw [hk] at hnone
      cases hnone
    · rw [hk] at hb'
      cases hb'
      exact ⟨c, List.mem_of_getElem? hc, (hmem hb hbuilt hi).mpr hib⟩
  case disjoint =>
    rw [List.pairwise_iff_getElem]
    intro i j hi hj hij h hh hh'
    rcases hcs.getElem? i with ⟨-, hnone⟩ | ⟨b, c, hb, hc, hbuilt, -⟩
    · simp [hi] at hnone
    rcases hcs.getElem? j with ⟨-, hnone⟩ | ⟨b', c', hb', hc', hbuilt', -⟩
    · simp [hj] at hnone
    obtain ⟨_, rfl⟩ := List.getElem?_eq_some_iff.mp hc
    obtain ⟨_, rfl⟩ := List.getElem?_eq_some_iff.mp hc'
    obtain ⟨u, hu, rfl⟩ := (hresults hbuilt h).mp hh
    have hlt := hsplit.lt (List.mem_of_getElem? hb) hu
    have hu' := (hmem (List.mem_of_getElem? hb') hbuilt' hlt).mp hh'
    obtain ⟨hbi, rfl⟩ := List.getElem?_eq_some_iff.mp hb
    obtain ⟨hbj, rfl⟩ := List.getElem?_eq_some_iff.mp hb'
    have hd := (List.nodup_flatten.mp hsplit.nodup).2
    rw [List.pairwise_iff_getElem] at hd
    exact hd i j hbi hbj hij hu hu'
  all_goals obtain ⟨b, hb, hbuilt⟩ := hblock c hc
  · obtain ⟨i, hi, rfl⟩ := (hresults hbuilt h).mp hh
    have := hflat.mp (List.mem_flatten_of_mem hb hi)
    exact ⟨g, i, hg, this.1, this.2, rfl⟩
  · obtain ⟨i, j, hchained, rfl, rfl, hi, hj⟩ := hlinked q h hlink
    rw [hmem hb hbuilt hi, hmem hb hbuilt hj]
    exact ⟨hsplit.linked b hb i j hchained, fun hj => hsplit.mem_block_of_adj hb hj hchained⟩
  · obtain ⟨i, hi, rfl⟩ := (hresults hbuilt h).mp hh
    obtain ⟨j, hj, rfl⟩ := (hresults hbuilt h').mp hh'
    exact hsplit.eq_of_mem (f := fun u => f (operationAt (sortByHandle operations) u).outputHandle)
      hb (fun u v huv => hf _ _ ⟨g, u, v, hg, huv, rfl, rfl⟩) hi hj
  · rw [hbuilt.keys, mem_exposedInputs, ← hbuilt.results]
    simp only [hops hb hbuilt, and_assoc]
  · obtain ⟨v, hv, rfl⟩ := List.mem_map.mp ((hops hb hbuilt op).mpr ⟨hop, hres⟩)
    obtain ⟨u, hu, rfl⟩ := (hresults hbuilt d).mp hdres
    have hu' := hflat.mp (List.mem_flatten_of_mem hb hu)
    have hv' := hflat.mp (List.mem_flatten_of_mem hb hv)
    obtain ⟨pos, hpos⟩ := List.mem_iff_getElem?.mp hd
    have hget : ∀ {i}, i < g.nodeCount → (sortByHandle operations)[i]? =
        some (operationAt (sortByHandle operations) i) := fun hi => by
      rw [hcount] at hi
      simp [operationAt, List.getD_eq_getElem?_getD, hi]
    have hadj : Adj (neededArcs g) u v := by
      refine List.mem_filter.mpr ⟨List.mem_map.mpr ⟨⟨u, v, pos % 256⟩, ?_, rfl⟩, ?_⟩
      · rw [(operationGraph_eq_some hg).2, mem_dependencePairs]
        exact ⟨_, _, pos, hget hv'.1, hpos,
          (producedHandles_eq_some hnd.sorted).mpr ⟨_, hget hu'.1, rfl⟩, rfl⟩
      · simp [hu'.2, hv'.2]
    exact ⟨g, u, v, hg, hsplit.chained_of_adj hb hu hv hadj, rfl, rfl⟩

end Transaction

/-! ## The components of a batch -/

/-- The output handles of a batch are distinct inside each transaction, and its
transactions are distinct. -/
structure DistinctKeys (batch : List (Handle × List (DFGOp R))) : Prop where
  transactions : (batch.map Prod.fst).Nodup
  handles : ∀ tx ∈ batch, DistinctHandles tx.2

/-- The components of a batch: those of each transaction, one after the other. -/
def Describes (batch : List (Handle × List (DFGOp R))) (cs : List (ComponentNode R)) : Prop :=
  ∃ css, List.Forall₂ (fun tx cs => DescribesTx tx.2 cs ∧
    ∀ c ∈ cs, c.transactionId = tx.1) batch css ∧ cs = css.flatten

theorem foldlM_buildBatch (T : Toposort) {batch : List (Handle × List (DFGOp R))}
    (hnd : ∀ tx ∈ batch, DistinctHandles tx.2)
    (hg : ∀ tx ∈ batch, (operationGraph (sortByHandle tx.2)).isSome)
    (done : List (ComponentNode R)) (pruned : List (Handle × Handle)) :
    ∃ cs unneeded, batch.foldlM (addTransaction T) (done, pruned) =
        .ok (done ++ cs, pruned ++ unneeded) ∧ Describes batch cs := by
  induction batch generalizing done pruned with
  | nil => exact ⟨[], [], by rw [List.append_nil, List.append_nil]; rfl, [], .nil, rfl⟩
  | cons tx batch ih =>
    have hnd₁ := hnd tx List.mem_cons_self
    obtain ⟨g, hg₁⟩ := Option.isSome_iff_exists.mp (hg tx List.mem_cons_self)
    obtain ⟨bs, cs, hsplit, hcs, hbuild⟩ := buildComponentNodes_eq_ok T tx.1 hnd₁ hg₁
    obtain ⟨cs', unneeded', hrun, css, hcss, rfl⟩ := ih
      (fun tx' h => hnd tx' (List.mem_cons_of_mem _ h))
      (fun tx' h => hg tx' (List.mem_cons_of_mem _ h)) (done ++ cs) (pruned ++ (unneeded g).map
        (fun i => ((operationAt (sortByHandle tx.2) i).outputHandle, tx.1)))
    refine ⟨cs ++ css.flatten, (unneeded g).map
      (fun i => ((operationAt (sortByHandle tx.2) i).outputHandle, tx.1)) ++ unneeded', ?_,
      cs :: css, .cons ⟨describesTx hnd₁ hg₁ hsplit hcs, fun c hc => ?_⟩ hcss, rfl⟩
    · rw [List.foldlM_cons, addTransaction, hbuild]
      simp only [bind, Except.bind]
      rw [hrun, List.append_assoc, List.append_assoc]
    · obtain ⟨k, hk⟩ := List.mem_iff_getElem?.mp hc
      rcases hcs.getElem? k with ⟨-, hnone⟩ | ⟨b, c', hb, hc', -, htid⟩
      · rw [hk] at hnone
        cases hnone
      · rw [hk] at hc'
        cases hc'
        exact htid

/-- `buildBatch` succeeds when no transaction has a cycle of its own. -/
theorem buildBatch_eq_ok (T : Toposort) {batch : List (Handle × List (DFGOp R))}
    (hkeys : DistinctKeys batch) (hg : ∀ tx ∈ batch, (operationGraph (sortByHandle tx.2)).isSome) :
    ∃ cs unneeded, buildBatch T batch = .ok (cs, unneeded) ∧ Describes batch cs := by
  obtain ⟨cs, unneeded, hrun, hdesc⟩ := foldlM_buildBatch T hkeys.handles hg [] []
  exact ⟨cs, unneeded, hrun, hdesc⟩

theorem buildBatch_eq_error (T : Toposort) {batch : List (Handle × List (DFGOp R))}
    (hkeys : DistinctKeys batch) {tx : Handle × List (DFGOp R)} (htx : tx ∈ batch)
    (hg : operationGraph (sortByHandle tx.2) = none) :
    buildBatch T batch = .error .cyclicDependence := by
  -- take the first transaction with a cycle
  obtain ⟨pre, tx, post, rfl, hnone, hpre⟩ : ∃ pre tx post, batch = pre ++ tx :: post ∧
      operationGraph (sortByHandle tx.2) = none ∧
      ∀ tx' ∈ pre, (operationGraph (sortByHandle tx'.2)).isSome := by
    clear hkeys
    induction batch with
    | nil => simp at htx
    | cons tx' batch ih =>
      cases hg' : operationGraph (sortByHandle tx'.2) with
      | none => exact ⟨[], tx', batch, rfl, hg', by simp⟩
      | some g =>
        rcases List.mem_cons.mp htx with rfl | htx
        · rw [hg] at hg'
          cases hg'
        · obtain ⟨pre, tx₁, post, rfl, hnone, hpre⟩ := ih htx
          refine ⟨tx' :: pre, tx₁, post, rfl, hnone, fun tx₂ h => ?_⟩
          rcases List.mem_cons.mp h with rfl | h
          · simp [hg']
          · exact hpre tx₂ h
  obtain ⟨cs, unneeded, hrun, -⟩ := foldlM_buildBatch T
    (fun tx' h => hkeys.handles tx' (List.mem_append_left _ h)) hpre [] []
  rw [buildBatch, List.foldlM_append, hrun]
  simp only [bind, Except.bind, List.foldlM_cons, addTransaction,
    buildComponentNodes_eq_error hnone]

end Fhevm.Scheduler
