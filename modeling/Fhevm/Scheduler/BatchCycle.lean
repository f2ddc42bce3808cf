import Fhevm.Scheduler.Batch
import Fhevm.Scheduler.SymbolicEngine

/-!
# Cycles between the components of a batch

The component graph records one producer for each handle, the first listed
component that produces it. Two transactions that are well-founded in block
order can then wait for each other: one reads a handle from the database that
the other one computes again, out of a result of the first.

## Main definitions

* `NeverCyclic` — no order of the components makes a build fail with a cycle.
* `Preference`, `Ranking` — an order of the components, and a certificate that it has no cycle.
* `neverCyclic_iff` — the exact condition.
-/

namespace Fhevm.Scheduler

open Foundation

variable {R : Type}

/-- Building the components of a batch, and the graph of the components in any
order, never fails with a dependence cycle. -/
def NeverCyclic (T : Toposort) (batch : List (Handle × List (DFGOp R))) : Prop :=
  buildBatch T batch ≠ .error .cyclicDependence ∧
    ∀ cs unneeded, buildBatch T batch = .ok (cs, unneeded) → ∀ nodes, nodes.Perm cs →
      (DFComponentGraph.build nodes : Except _ (DFComponentGraph R FhevmError)) ≠
        .error .cyclicDependence

/-- The operation of `h` in transaction `t` is needed. -/
def Produces (batch : List (Handle × List (DFGOp R))) (t h : Handle) : Prop :=
  ∃ operations, (t, operations) ∈ batch ∧ NeededHandle operations h

/-- An order of the components by a position `π` of their operations; `first` is
the transaction that the order lists first among those producing a handle. -/
structure Preference (batch : List (Handle × List (DFGOp R))) (π : Handle → Handle → ℕ)
    (first : Handle → Handle) : Prop where
  linked : ∀ tx ∈ batch, ∀ q h, Linked tx.2 q h → π tx.1 q = π tx.1 h
  least : ∀ t h, Produces batch t h →
    Produces batch (first h) h ∧ (t = first h ∨ π (first h) h < π t h)

/-- A rank of the needed operations: chained ones have the same, and an operand
that is not chained comes with the rank of its preferred producer from below. -/
structure Ranking (batch : List (Handle × List (DFGOp R))) (first : Handle → Handle)
    (rank : Handle → Handle → ℕ) : Prop where
  linked : ∀ tx ∈ batch, ∀ q h, Linked tx.2 q h → rank tx.1 q = rank tx.1 h
  uses : ∀ tx ∈ batch, ∀ op ∈ tx.2, NeededHandle tx.2 op.outputHandle →
    ∀ d, .dependence d ∈ op.inputs → ¬ Linked tx.2 d op.outputHandle →
      (∃ t, Produces batch t d) → rank (first d) d < rank tx.1 op.outputHandle

/-! ## Components of a batch -/

section Describes

variable {batch : List (Handle × List (DFGOp R))} {cs : List (ComponentNode R)}

theorem Describes.mem (h : Describes batch cs) {c : ComponentNode R} (hc : c ∈ cs) :
    ∃ operations cs', (c.transactionId, operations) ∈ batch ∧ DescribesTx operations cs' ∧
      c ∈ cs' := by
  obtain ⟨css, hall, rfl⟩ := h
  obtain ⟨cs', hcs', hc⟩ := List.mem_flatten.mp hc
  obtain ⟨k, hk⟩ := List.mem_iff_getElem?.mp hcs'
  rcases forall₂_getElem? hall k with ⟨-, hnone⟩ | ⟨tx, cs'', htx, hcs'', hdesc, htid⟩
  · rw [hk] at hnone
    cases hnone
  · rw [hk] at hcs''
    cases hcs''
    exact ⟨tx.2, cs', htid c hc ▸ List.mem_of_getElem? htx, hdesc, hc⟩

theorem Describes.exists_mem (h : Describes batch cs) {t : Handle} {operations : List (DFGOp R)}
    (ht : (t, operations) ∈ batch) :
    ∃ cs', DescribesTx operations cs' ∧ ∀ c ∈ cs', c ∈ cs ∧ c.transactionId = t := by
  obtain ⟨css, hall, rfl⟩ := h
  obtain ⟨k, hk⟩ := List.mem_iff_getElem?.mp ht
  rcases forall₂_getElem? hall k with ⟨hnone, -⟩ | ⟨tx, cs', htx, hcs', hdesc, htid⟩
  · rw [hk] at hnone
    cases hnone
  · rw [hk] at htx
    cases htx
    exact ⟨cs', hdesc, fun c hc => ⟨List.mem_flatten_of_mem (List.mem_of_getElem? hcs') hc,
      htid c hc⟩⟩

theorem DistinctKeys.operations_eq (hkeys : DistinctKeys batch) {t : Handle}
    {operations operations' : List (DFGOp R)} (h : (t, operations) ∈ batch)
    (h' : (t, operations') ∈ batch) : operations = operations' :=
  congrArg Prod.snd (List.inj_on_of_nodup_map hkeys.transactions h h' rfl)

/-- A component in terms of the operations of its transaction. -/
theorem Describes.tx (h : Describes batch cs) (hkeys : DistinctKeys batch) {c : ComponentNode R}
    (hc : c ∈ cs) {operations : List (DFGOp R)} (ht : (c.transactionId, operations) ∈ batch) :
    ∃ cs', DescribesTx operations cs' ∧ c ∈ cs' := by
  obtain ⟨operations', cs', ht', hdesc, hc'⟩ := h.mem hc
  rw [hkeys.operations_eq ht ht']
  exact ⟨cs', hdesc, hc'⟩

/-- Two components never produce the same handle for the same transaction. -/
theorem Describes.pairwise (h : Describes batch cs) (hkeys : DistinctKeys batch) :
    cs.Pairwise (fun c c' => c.transactionId = c'.transactionId → ∀ d ∈ c.results,
      d ∉ c'.results) := by
  obtain ⟨css, hall, rfl⟩ := h
  rw [List.pairwise_flatten]
  constructor
  · intro cs' hcs'
    obtain ⟨k, hk⟩ := List.mem_iff_getElem?.mp hcs'
    rcases forall₂_getElem? hall k with ⟨-, hnone⟩ | ⟨tx, cs'', htx, hcs'', hdesc, htid⟩
    · rw [hk] at hnone
      cases hnone
    · rw [hk] at hcs''
      cases hcs''
      refine List.Pairwise.imp ?_ hdesc.disjoint
      intro a b hd _
      exact hd
  · rw [List.pairwise_iff_getElem]
    intro i j hi hj hij c hc c' hc' heq
    rcases forall₂_getElem? hall i with ⟨-, hnone⟩ | ⟨tx, cs₁, htx, hcs₁, -, htid⟩
    · simp [hi] at hnone
    rcases forall₂_getElem? hall j with ⟨-, hnone⟩ | ⟨tx', cs₂, htx', hcs₂, -, htid'⟩
    · simp [hj] at hnone
    obtain ⟨_, rfl⟩ := List.getElem?_eq_some_iff.mp hcs₁
    obtain ⟨_, rfl⟩ := List.getElem?_eq_some_iff.mp hcs₂
    -- the transactions would have the same identifier
    rw [htid c hc, htid' c' hc'] at heq
    have hget : ∀ {k : ℕ} {tx : Handle × List (DFGOp R)}, batch[k]? = some tx →
        (batch.map Prod.fst)[k]? = some tx.1 := by
      intro k tx hk
      rw [List.getElem?_map, hk]
      rfl
    have hlt : i < (batch.map Prod.fst).length := by
      simpa using (List.getElem?_eq_some_iff.mp htx).1
    have := (List.getElem?_inj hlt hkeys.transactions).mp
      ((hget htx).trans (heq ▸ (hget htx').symm))
    omega

end Describes

/-! ## Places in the graph -/

/-- The index of the component that produces `h` for transaction `t`. -/
def place (L : List (ComponentNode R)) (t h : Handle) : ℕ :=
  L.findIdx (fun c => decide (c.transactionId = t ∧ h ∈ c.results))

section Place

variable {batch : List (Handle × List (DFGOp R))} {cs L : List (ComponentNode R)}

theorem getElem?_place (hdesc : Describes batch cs) (hL : L.Perm cs) {t h : Handle}
    (hp : Produces batch t h) :
    ∃ c, L[place L t h]? = some c ∧ c.transactionId = t ∧ h ∈ c.results := by
  obtain ⟨operations, ht, hneeded⟩ := hp
  obtain ⟨cs', htx, hmem⟩ := hdesc.exists_mem ht
  obtain ⟨c, hc, hh⟩ := htx.complete h hneeded
  have hlt : place L t h < L.length :=
    List.findIdx_lt_length_of_exists ⟨c, hL.mem_iff.mpr (hmem c hc).1,
      by simpa using ⟨(hmem c hc).2, hh⟩⟩
  have hget := List.findIdx_getElem (w := hlt)
  simp only [decide_eq_true_eq] at hget
  exact ⟨_, List.getElem?_eq_getElem hlt, hget⟩

theorem place_eq (hdesc : Describes batch cs) (hkeys : DistinctKeys batch) (hL : L.Perm cs) {i : ℕ}
    {c : ComponentNode R} (hc : L[i]? = some c) {h : Handle} (hh : h ∈ c.results) :
    place L c.transactionId h = i := by
  obtain ⟨hi, rfl⟩ := List.getElem?_eq_some_iff.mp hc
  refine (List.findIdx_eq hi).mpr ⟨by simpa using hh, fun j hj => ?_⟩
  have hpw : L.Pairwise (fun c c' => c.transactionId = c'.transactionId → ∀ d ∈ c.results,
      d ∉ c'.results) := by
    refine (hL.pairwise_iff fun {x y} hxy heq d hd hd' => ?_).mpr (hdesc.pairwise hkeys)
    exact hxy heq.symm d hd' hd
  rw [List.pairwise_iff_getElem] at hpw
  have := hpw j i (hj.trans hi) hi hj
  simp only [decide_eq_false_iff_not, not_and]
  exact fun heq hmem => this heq h hmem hh

theorem place_linked (hdesc : Describes batch cs) (hkeys : DistinctKeys batch) (hL : L.Perm cs)
    {tx : Handle × List (DFGOp R)} (htx : tx ∈ batch) {q h : Handle} (hlink : Linked tx.2 q h) :
    place L tx.1 q = place L tx.1 h := by
  have hcongr : ∀ l : List (ComponentNode R), (∀ c ∈ l, c ∈ cs) →
      l.findIdx (fun c => decide (c.transactionId = tx.1 ∧ q ∈ c.results)) =
        l.findIdx (fun c => decide (c.transactionId = tx.1 ∧ h ∈ c.results)) := by
    intro l hl
    induction l with
    | nil => rfl
    | cons c l ih =>
      have hiff : (c.transactionId = tx.1 ∧ q ∈ c.results) ↔
          (c.transactionId = tx.1 ∧ h ∈ c.results) := by
        refine and_congr_right fun heq => ?_
        have ht : (c.transactionId, tx.2) ∈ batch := by rwa [heq]
        obtain ⟨cs', hdtx, hc'⟩ := hdesc.tx hkeys (hl c List.mem_cons_self) ht
        exact hdtx.linked c hc' q h hlink
      rw [List.findIdx_cons, List.findIdx_cons, ih fun c hc => hl c (List.mem_cons_of_mem _ hc),
        decide_eq_decide.mpr hiff]
  exact hcongr L fun c hc => hL.mem_iff.mp hc

/-- An invariant of the links is constant on a component. -/
theorem Describes.eq_of_mem (hdesc : Describes batch cs) {f : Handle → Handle → ℕ}
    (hf : ∀ tx ∈ batch, ∀ q h, Linked tx.2 q h → f tx.1 q = f tx.1 h) {c : ComponentNode R}
    (hc : c ∈ cs) {h h' : Handle} (hh : h ∈ c.results) (hh' : h' ∈ c.results) :
    f c.transactionId h = f c.transactionId h' := by
  obtain ⟨operations, cs', ht, hdtx, hc'⟩ := hdesc.mem hc
  exact hdtx.chain c hc' (f c.transactionId) (hf (c.transactionId, operations) ht) h hh h' hh'

theorem produces_of_mem (hdesc : Describes batch cs) {c : ComponentNode R} (hc : c ∈ cs)
    {h : Handle} (hh : h ∈ c.results) : Produces batch c.transactionId h := by
  obtain ⟨operations, cs', ht, hdtx, hc'⟩ := hdesc.mem hc
  exact ⟨operations, ht, hdtx.needed c hc' h hh⟩

/-- A ranking for the producers that the graph records rules out cycles. -/
theorem Ranking.acyclic (hdesc : Describes batch cs) (hL : L.Perm cs)
    {first : Handle → Handle} {rank : Handle → Handle → ℕ} (hrank : Ranking batch first rank)
    (hfirst : ∀ d p c, (allowedMapOf L).get? d = some p → L[p]? = some c →
      c.transactionId = first d) : Acyclic (Needs L) := by
  let level : ℕ → ℕ := fun i =>
    (L[i]?.map fun c => rank c.transactionId (c.results.headD [])).getD 0
  have hlevel : ∀ {i c h}, L[i]? = some c → h ∈ c.results → level i = rank c.transactionId h := by
    intro i c h hc hh
    have hhead : c.results.headD [] ∈ c.results := by
      cases hr : c.results with
      | nil => simp [hr] at hh
      | cons a l => simp
    simp only [level, hc, Option.map_some, Option.getD_some]
    exact hdesc.eq_of_mem hrank.linked (hL.mem_iff.mp (List.mem_of_getElem? hc)) hhead hh
  refine Acyclic.of_rank level fun p c hneeds => ?_
  obtain ⟨n, hn, d, hd, hp⟩ := hneeds
  have hmem := hL.mem_iff.mp (List.mem_of_getElem? hn)
  obtain ⟨operations, cs', ht, hdtx, hn'⟩ := hdesc.mem hmem
  obtain ⟨⟨op, hop, hres, hdop⟩, hdnot⟩ := (hdtx.inputs n hn' d).mp hd
  obtain ⟨⟨np, hnp, hdp⟩, -⟩ := allowedMapOf_eq_some.mp hp
  have hnot : ¬ Linked operations d op.outputHandle := fun hlink =>
    hdnot ((hdtx.linked n hn' d _ hlink).mpr hres)
  have hproduced := produces_of_mem hdesc (hL.mem_iff.mp (List.mem_of_getElem? hnp)) hdp
  have hlt := hrank.uses (n.transactionId, operations) ht op hop (hdtx.needed n hn' _ hres) d hdop
    hnot ⟨_, hproduced⟩
  rw [hlevel hn hres, hlevel hnp hdp, hfirst d p np hp hnp]
  exact hlt

/-- Without cycles the places can be ranked. -/
theorem exists_ranking (hdesc : Describes batch cs) (hkeys : DistinctKeys batch) (hL : L.Perm cs)
    (hac : Acyclic (Needs L)) {first : Handle → Handle}
    (hfirst : ∀ d p c, (allowedMapOf L).get? d = some p → L[p]? = some c →
      c.transactionId = first d) : ∃ rank, Ranking batch first rank := by
  have hneeds : Adj ((componentDependences L).map Edge.arc) = Needs L := by
    funext p c
    exact propext adj_componentDependences
  have hbound : ∀ a ∈ (componentDependences L).map Edge.arc, a.1 < L.length ∧ a.2 < L.length := by
    intro a ha
    obtain ⟨e, he, rfl⟩ := List.mem_map.mp ha
    exact componentDependences_lt he
  obtain ⟨level, hlevel⟩ := Acyclic.exists_rank hbound (hneeds ▸ hac)
  rw [hneeds] at hlevel
  refine ⟨fun t h => level (place L t h), ?_, ?_⟩
  · intro tx htx q h hlink
    exact congrArg level (place_linked hdesc hkeys hL htx hlink)
  · intro tx htx op hop hneeded d hd hnot hproduced
    obtain ⟨c, hc, htid, hres⟩ := getElem?_place hdesc hL ⟨tx.2, htx, hneeded⟩
    have ht : (c.transactionId, tx.2) ∈ batch := by rwa [htid]
    obtain ⟨cs', hdtx, hc'⟩ := hdesc.tx hkeys (hL.mem_iff.mp (List.mem_of_getElem? hc)) ht
    have hdkey : d ∈ c.inputs.keys := (hdtx.inputs c hc' d).mpr
      ⟨⟨op, hop, hres, hd⟩, fun hmem => hnot (hdtx.internal c hc' op hop hres d hd hmem)⟩
    obtain ⟨p, hp⟩ : ∃ p, (allowedMapOf L).get? d = some p := by
      obtain ⟨t, ht⟩ := hproduced
      obtain ⟨c₁, hc₁, -, hd₁⟩ := getElem?_place hdesc hL ht
      exact Option.isSome_iff_exists.mp
        (allowedMapOf_isSome.mpr ⟨c₁, List.mem_of_getElem? hc₁, hd₁⟩)
    obtain ⟨⟨np, hnp, hdp⟩, -⟩ := allowedMapOf_eq_some.mp hp
    have hplace := place_eq hdesc hkeys hL hnp hdp
    rw [hfirst d p np hp hnp] at hplace
    rw [hplace]
    exact hlevel p _ ⟨c, hc, d, hdkey, hp⟩

end Place

/-! ## The condition -/

section Condition

variable {batch : List (Handle × List (DFGOp R))} {cs nodes : List (ComponentNode R)}

theorem build_ne_error_iff : (DFComponentGraph.build nodes :
    Except _ (DFComponentGraph R FhevmError)) ≠ .error .cyclicDependence ↔
      Acyclic (Needs nodes.reverse) := by
  have hiff : (∃ g : DFComponentGraph R FhevmError, DFComponentGraph.build nodes = .ok g) ↔
      Acyclic (Needs nodes.reverse) := DFComponentGraph.build_isOk_iff
  rw [← hiff]
  constructor
  · intro h
    cases hb : (DFComponentGraph.build nodes : Except _ (DFComponentGraph R FhevmError)) with
    | ok g => exact ⟨g, rfl⟩
    | error e => exact absurd (by rw [hb, DFComponentGraph.build_eq_error hb]) h
  · rintro ⟨g, hg⟩ herr
    rw [hg] at herr
    cases herr

/-- The transaction of the recorded producer of a handle. -/
def recordedTransaction (L : List (ComponentNode R)) (h : Handle) : Handle :=
  match ((allowedMapOf L).get? h).bind (L[·]?) with
  | some c => c.transactionId
  | none => []

/-- Every list of the components is an order by position. -/
theorem preference_of_perm (hdesc : Describes batch cs) (hkeys : DistinctKeys batch)
    {L : List (ComponentNode R)} (hL : L.Perm cs) :
    Preference batch (fun t h => L.length - place L t h) (recordedTransaction L) where
  linked tx htx q h hlink := by
    simp only [place_linked hdesc hkeys hL htx hlink]
  least t h hp := by
    obtain ⟨c, hc, htid, hh⟩ := getElem?_place hdesc hL hp
    obtain ⟨p, hrec⟩ := Option.isSome_iff_exists.mp
      (allowedMapOf_isSome.mpr ⟨c, List.mem_of_getElem? hc, hh⟩)
    obtain ⟨⟨np, hnp, hhp⟩, hlast⟩ := allowedMapOf_eq_some.mp hrec
    have hfirst : recordedTransaction L h = np.transactionId := by
      simp [recordedTransaction, hrec, hnp]
    have hplace := place_eq hdesc hkeys hL hnp hhp
    refine ⟨hfirst ▸ produces_of_mem hdesc (hL.mem_iff.mp (List.mem_of_getElem? hnp)) hhp, ?_⟩
    rw [hfirst, hplace]
    have hle : place L t h ≤ p := by
      by_contra hlt
      exact hlast _ c (Nat.lt_of_not_le hlt) hc hh
    have hp := (List.getElem?_eq_some_iff.mp hnp).1
    rcases Nat.lt_or_eq_of_le hle with hlt | heq
    · right
      omega
    · left
      rw [heq, hnp] at hc
      cases hc
      exact htid.symm

/-- Every order by position is the order of some list of the components. -/
theorem exists_perm_of_preference (hdesc : Describes batch cs) {π : Handle → Handle → ℕ}
    {first : Handle → Handle} (hpref : Preference batch π first) :
    ∃ nodes : List (ComponentNode R), nodes.Perm cs ∧
      ∀ d p c, (allowedMapOf nodes.reverse).get? d = some p →
      nodes.reverse[p]? = some c → c.transactionId = first d := by
  let key : ComponentNode R → ℕ := fun c => π c.transactionId (c.results.headD [])
  have hkey : ∀ c ∈ cs, ∀ h ∈ c.results, key c = π c.transactionId h := by
    intro c hc h hh
    have hhead : c.results.headD [] ∈ c.results := by
      cases hr : c.results with
      | nil => simp [hr] at hh
      | cons a l => simp
    exact hdesc.eq_of_mem hpref.linked hc hhead hh
  let nodes := cs.insertionSort (fun a b => key a ≤ key b)
  have hperm : nodes.Perm cs := List.perm_insertionSort _ _
  have htotal : Std.Total (fun a b : ComponentNode R => key a ≤ key b) :=
    ⟨fun a b => Nat.le_total (key a) (key b)⟩
  have htrans : IsTrans (ComponentNode R) (fun a b => key a ≤ key b) :=
    ⟨fun _ _ _ h h' => Nat.le_trans h h'⟩
  have hsorted : nodes.reverse.Pairwise (fun a b => key b ≤ key a) :=
    List.pairwise_reverse.mpr (List.pairwise_insertionSort _ cs)
  have hL : nodes.reverse.Perm cs := (List.reverse_perm nodes).trans hperm
  refine ⟨nodes, hperm, fun d p c hp hc => ?_⟩
  obtain ⟨⟨c', hc', hd⟩, hlast⟩ := allowedMapOf_eq_some.mp hp
  rw [hc] at hc'
  cases hc'
  have hcmem := hL.mem_iff.mp (List.mem_of_getElem? hc)
  obtain ⟨hfirst, heq | hlt⟩ := hpref.least _ d (produces_of_mem hdesc hcmem hd)
  · exact heq
  -- the component of the preferred transaction would be listed earlier
  exfalso
  obtain ⟨c₁, hc₁, htid, hd₁⟩ := getElem?_place hdesc hL hfirst
  have hle : place nodes.reverse (first d) d ≤ p := by
    by_contra hgt
    exact hlast _ c₁ (Nat.lt_of_not_le hgt) hc₁ hd₁
  have hk₁ := hkey c₁ (hL.mem_iff.mp (List.mem_of_getElem? hc₁)) d hd₁
  have hk := hkey c hcmem d hd
  rw [htid] at hk₁
  rcases Nat.lt_or_eq_of_le hle with hplt | hpeq
  · rw [List.pairwise_iff_getElem] at hsorted
    obtain ⟨hi, rfl⟩ := List.getElem?_eq_some_iff.mp hc₁
    obtain ⟨hj, rfl⟩ := List.getElem?_eq_some_iff.mp hc
    have := hsorted _ _ hi hj hplt
    omega
  · rw [hpeq, hc] at hc₁
    cases hc₁
    rw [htid] at hlt
    exact lt_irrefl _ hlt

/-- Whatever the order of the components, no cycle is reported exactly when no
transaction has a cycle of its own and the operations can be ranked for every
preference between producers. -/
theorem neverCyclic_iff (T : Toposort) (hkeys : DistinctKeys batch) :
    NeverCyclic T batch ↔
      (∀ tx ∈ batch, Acyclic (Adj ((dependencePairs (sortByHandle tx.2)).map Edge.arc))) ∧
        ∀ π first, Preference batch π first → ∃ rank, Ranking batch first rank := by
  simp only [← operationGraph_isSome_iff]
  by_cases hg : ∀ tx ∈ batch, (operationGraph (sortByHandle tx.2)).isSome
  · obtain ⟨cs, unneeded, hbuild, hdesc⟩ := buildBatch_eq_ok T hkeys hg
    constructor
    · rintro ⟨-, hall⟩
      refine ⟨hg, fun π first hpref => ?_⟩
      obtain ⟨nodes, hperm, hfirst⟩ := exists_perm_of_preference hdesc hpref
      have hac := build_ne_error_iff.mp (hall cs unneeded hbuild nodes hperm)
      exact exists_ranking hdesc hkeys ((List.reverse_perm nodes).trans hperm) hac hfirst
    · rintro ⟨-, hrank⟩
      refine ⟨by simp [hbuild], fun cs' unneeded' hbuild' nodes hperm => ?_⟩
      rw [hbuild] at hbuild'
      cases hbuild'
      have hL := (List.reverse_perm nodes).trans hperm
      obtain ⟨rank, hr⟩ := hrank _ _ (preference_of_perm hdesc hkeys hL)
      refine build_ne_error_iff.mpr (hr.acyclic hdesc hL fun d p c hp hc => ?_)
      simp [recordedTransaction, hp, hc]
  · have hg' := hg
    push Not at hg
    obtain ⟨tx, htx, hnone⟩ := hg
    constructor
    · rintro ⟨hne, -⟩
      exact absurd (buildBatch_eq_error T hkeys htx (by simpa using hnone)) hne
    · rintro ⟨hall, -⟩
      exact absurd hall hg'

end Condition

/-! ## A batch that is well-founded in block order -/

/-- Every operand of a list of operations is known before or produced by an
earlier operation. -/
def blockOrdered (known : List Handle) : List (DFGOp R) → Bool
  | [] => true
  | op :: ops =>
    op.inputs.all (fun i =>
      match i with
      | .dependence d => decide (d ∈ known)
      | .value _ | .compressed _ _ => true) &&
      blockOrdered (op.outputHandle :: known) ops

/-- The first transaction encrypts `[1]` and adds it to `[3]`, which is in the
database; the second computes `[3]` again out of `[1]`. -/
def recomputedBatch : List (Handle × List (DFGOp Term)) :=
  [([10], [⟨[1], .fheTrivialEncrypt, [.value (.scalar [5]), .value (.scalar [2])], true⟩,
      ⟨[4], .fheAdd, [.dependence [1], .dependence [3]], true⟩]),
    ([11], [⟨[2], .fheNeg, [.dependence [1]], false⟩, ⟨[3], .fheNot, [.dependence [2]], true⟩])]

theorem neverCyclic_iff_recomputed : NeverCyclic Toposort.kahn recomputedBatch ↔
    (∀ tx ∈ recomputedBatch,
      Acyclic (Adj ((dependencePairs (sortByHandle tx.2)).map Edge.arc))) ∧
      ∀ π first, Preference recomputedBatch π first →
        ∃ rank, Ranking recomputedBatch first rank :=
  neverCyclic_iff Toposort.kahn ⟨by decide, by unfold DistinctHandles; decide⟩

/-- The two components of the batch wait for each other. -/
theorem recomputed_batch_is_cyclic : DistinctKeys recomputedBatch ∧
    blockOrdered [[3]] (recomputedBatch.flatMap Prod.snd) = true ∧
    ¬ NeverCyclic Toposort.kahn recomputedBatch := by
  refine ⟨⟨by decide, by unfold DistinctHandles; decide⟩, by decide, ?_⟩
  rintro ⟨hne, hall⟩
  have hfail : (buildBatchGraph Toposort.kahn recomputedBatch :
      Except _ (DFComponentGraph Term FhevmError)).isOk = false := by decide
  unfold buildBatchGraph at hfail
  cases hbuild : buildBatch Toposort.kahn recomputedBatch with
  | error e =>
    have hok : (buildBatch Toposort.kahn recomputedBatch).isOk = true := by decide
    rw [hbuild] at hok
    cases hok
  | ok s =>
    obtain ⟨cs, unneeded⟩ := s
    rw [hbuild] at hfail
    cases hgraph : (DFComponentGraph.build cs : Except _ (DFComponentGraph Term FhevmError)) with
    | error e =>
      exact hall cs unneeded hbuild cs (.refl cs)
        (by rw [hgraph, DFComponentGraph.build_eq_error hgraph])
    | ok g =>
      simp only [hgraph] at hfail
      cases hfail

end Fhevm.Scheduler
