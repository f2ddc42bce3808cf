import Fhevm.Listener.Waiting

/-!
# Pages of the catch-up

The logs of a page are those of the canonical blocks of a range, in order, so they split into these
blocks again. The blocks of a page come behind their ancestors if the chain below the page does.

## Main definitions

* `splitByBlock_chainLogs` — the blocks of a page.
* `queueOk_page` — they can wait in this order.
-/

namespace Fhevm.Listener

open Foundation Host Worker InfiniteLogIter

/-! ## Splitting the logs of a page -/

theorem groupByBlock_cons (log : ChainLog) (logs : List ChainLog) :
    ∃ group groups, groupByBlock (log :: logs) = (log :: group) :: groups := by
  rw [groupByBlock]
  split
  · split_ifs
    · exact ⟨_, _, rfl⟩
    · exact ⟨_, _, rfl⟩
  · exact ⟨_, _, rfl⟩

/-- The logs of one block are one group. -/
theorem groupByBlock_append {n : ℕ} {first : ChainLog} {logs rest : List ChainLog}
    (hfirst : first.blockNumber = n) (hlogs : ∀ log ∈ logs, log.blockNumber = n)
    (hrest : ∀ log ∈ rest, log.blockNumber ≠ n) :
    groupByBlock (first :: logs ++ rest) = (first :: logs) :: groupByBlock rest := by
  induction logs generalizing first with
  | nil =>
    cases rest with
    | nil => rfl
    | cons log rest =>
      obtain ⟨group, groups, hgroup⟩ := groupByBlock_cons log rest
      have hne : log.blockNumber ≠ first.blockNumber := by
        rw [hfirst]
        exact hrest log List.mem_cons_self
      rw [List.cons_append, List.nil_append, groupByBlock, hgroup]
      exact if_neg hne
  | cons second logs ih =>
    have hsecond : second.blockNumber = n := hlogs second List.mem_cons_self
    have htail := ih hsecond (fun log hlog => hlogs log (List.mem_cons_of_mem _ hlog))
    rw [List.cons_append, groupByBlock, htail]
    exact if_pos (hsecond.trans hfirst.symm)

theorem groupByBlock_flatMap {blocks : List BlockLogs}
    (hsorted : blocks.Pairwise fun b c => b.summary.number < c.summary.number) :
    groupByBlock (blocks.flatMap BlockLogs.chainLogs) =
      (blocks.filter fun b => b.logs ≠ []).map BlockLogs.chainLogs := by
  induction blocks with
  | nil => rfl
  | cons b blocks ih =>
    obtain ⟨hb, hsorted⟩ := List.pairwise_cons.mp hsorted
    have ih := ih hsorted
    rw [List.flatMap_cons]
    cases hlogs : b.logs with
    | nil =>
      have hnil : b.chainLogs = [] := by simp [BlockLogs.chainLogs, hlogs]
      rw [hnil, List.nil_append, ih, List.filter_cons_of_neg (by simp [hlogs])]
    | cons log logs =>
      have hcons : b.chainLogs = ⟨log, b.summary.number, b.summary.hash⟩ ::
          logs.map fun log => ⟨log, b.summary.number, b.summary.hash⟩ := by
        simp [BlockLogs.chainLogs, hlogs]
      rw [hcons, groupByBlock_append (n := b.summary.number) rfl (by simp) ?_, ih,
        List.filter_cons_of_pos (by simp [hlogs]), List.map_cons, hcons]
      intro log hlog
      obtain ⟨c, hc, hlog⟩ := List.mem_flatMap.mp hlog
      obtain ⟨_, -, rfl⟩ := List.mem_map.mp hlog
      exact (hb c hc).ne'

/-- The summary of a block has the number of its logs. -/
theorem number_deduceBlockSummary {W : World} {tip : BlockLogs} {node : Node}
    (hnode : Honest W tip node) (it : InfiniteLogIter) (log : ChainLog)
    (previous : Option BlockLogs) :
    (it.deduceBlockSummary node log previous).number = log.blockNumber := by
  unfold deduceBlockSummary
  split
  · next summary h => simpa using List.find?_some h
  · split
    · next summary h => exact hnode.getBlockByNumber h
    · rfl

/-- The blocks that the groups of logs become, behind those of earlier groups. -/
theorem foldl_groups {W : World} {tip : BlockLogs} {node : Node} (hnode : Honest W tip node)
    (it : InfiniteLogIter) (blocks : List BlockLogs) (hlogs : ∀ b ∈ blocks, b.logs ≠ [])
    (earlier : List BlockLogs) :
    ∃ page, (blocks.map BlockLogs.chainLogs).foldl (it.appendGroup node) earlier =
        earlier ++ page ∧
      List.Forall₂ (fun b q : BlockLogs => q.logs = b.logs ∧ q.summary.number = b.summary.number)
        blocks page := by
  induction blocks generalizing earlier with
  | nil => exact ⟨[], by simp, .nil⟩
  | cons b blocks ih =>
    have hne : b.chainLogs ≠ [] := by simpa [BlockLogs.chainLogs] using hlogs b List.mem_cons_self
    have hlast : b.chainLogs.getLast? = some (b.chainLogs.getLast hne) :=
      List.getLast?_eq_some_getLast hne
    have hnumber : (b.chainLogs.getLast hne).blockNumber = b.summary.number := by
      obtain ⟨_, -, h⟩ := List.mem_map.mp (List.getLast_mem hne)
      rw [← h]
    obtain ⟨page, hpage, hall⟩ := ih (fun c hc => hlogs c (List.mem_cons_of_mem _ hc))
      (earlier ++ [⟨b.chainLogs.map ChainLog.log,
        it.deduceBlockSummary node (b.chainLogs.getLast hne) earlier.getLast?⟩])
    refine ⟨⟨b.chainLogs.map ChainLog.log,
      it.deduceBlockSummary node (b.chainLogs.getLast hne) earlier.getLast?⟩ :: page, ?_, ?_⟩
    · rw [List.map_cons, List.foldl_cons, appendGroup, hlast]
      exact hpage.trans (by simp)
    · refine .cons ⟨?_, (number_deduceBlockSummary hnode it _ _).trans hnumber⟩ hall
      simp [BlockLogs.chainLogs, Function.comp_def]

/-- The logs of canonical blocks split into the blocks that have logs. -/
theorem splitByBlock_chainLogs {W : World} {tip : BlockLogs} {node : Node}
    (hnode : Honest W tip node) (it : InfiniteLogIter) {blocks : List BlockLogs}
    (hsorted : blocks.Pairwise fun b c => b.summary.number < c.summary.number) :
    List.Forall₂ (fun b q : BlockLogs => q.logs = b.logs ∧ q.summary.number = b.summary.number)
      (blocks.filter fun b => b.logs ≠ [])
      (it.splitByBlock node (blocks.flatMap BlockLogs.chainLogs)) := by
  have hordered : (blocks.flatMap BlockLogs.chainLogs).Pairwise
      fun x y => x.blockNumber ≤ y.blockNumber := by
    rw [List.pairwise_flatMap]
    refine ⟨fun b _ => ?_, hsorted.imp fun {b c} hbc x hx y hy => ?_⟩
    · rw [BlockLogs.chainLogs, List.pairwise_map]
      exact List.pairwise_of_forall fun _ _ => le_rfl
    · obtain ⟨_, -, rfl⟩ := List.mem_map.mp hx
      obtain ⟨_, -, rfl⟩ := List.mem_map.mp hy
      exact hbc.le
  have hflag : decide (((blocks.flatMap BlockLogs.chainLogs).dropLast.map
      ChainLog.blockNumber).Pairwise (· ≤ ·)) = true := by
    rw [decide_eq_true_eq, List.pairwise_map]
    exact hordered.sublist (List.dropLast_sublist _)
  obtain ⟨page, hpage, hall⟩ := foldl_groups hnode it (blocks.filter fun b => b.logs ≠ [])
    (fun b hb => by simpa using (List.mem_filter.mp hb).2) []
  rw [splitByBlock]
  simp only [hflag, if_true]
  rw [groupByBlock_flatMap hsorted, hpage]
  exact hall

/-! ## The blocks of a page wait behind their ancestors -/

section Page

variable {W : World} {margin : ℕ} {tip : BlockLogs} {R : List HostLog → Prop}

/-- Canonical blocks in order can wait, if the ancestors that are not among them are ahead. -/
theorem queueOk_canonical {blocks page : List BlockLogs} (htip : W.Contains tip)
    (hpage : List.Forall₂ (fun b q : BlockLogs => q.logs = b.logs ∧
      q.summary.number = b.summary.number) blocks page)
    (hsorted : blocks.Pairwise fun b c => b.summary.number < c.summary.number)
    (hcanonical : ∀ b ∈ blocks, W.tree.Ancestor b tip)
    (hcover : ∀ b ∈ blocks, ∀ a, W.tree.Ancestor a b → R a.logs ∨ a ∈ blocks) :
    QueueOk W margin tip R page := by
  induction hpage generalizing R with
  | nil => trivial
  | @cons b q blocks page hbq _ ih =>
    obtain ⟨hb, hsorted⟩ := List.pairwise_cons.mp hsorted
    have hbtip := hcanonical b List.mem_cons_self
    refine ⟨⟨b, W.contains_of_ancestor hbtip htip, hbq.1.symm, hbq.2.symm, fun a ha => ?_,
      fun a ha hle => ha.of_number_le hbtip ?_⟩, ih hsorted
        (fun c hc => hcanonical c (List.mem_cons_of_mem _ hc)) fun c hc a ha => ?_⟩
    · rcases hcover b List.mem_cons_self a ha with hR | hmem
      · exact .inl hR
      · rcases List.mem_cons.mp hmem with rfl | hmem
        · exact .inr hbq.1.symm
        · -- a later block is no ancestor
          have hle : a.summary.number ≤ b.summary.number := ha.number_le
          have hlt := hb a hmem
          omega
    · change a.summary.number ≤ b.summary.number
      omega
    · rcases hcover c (List.mem_cons_of_mem _ hc) a ha with hR | hmem
      · exact .inl (.inl hR)
      · rcases List.mem_cons.mp hmem with rfl | hmem
        · exact .inl (.inr hbq.1.symm)
        · exact .inr hmem

variable {blocks page : List BlockLogs} {fromBlock toBlock : ℕ}

/-- The blocks of a page can wait if the canonical chain below the page is ahead. -/
theorem queueOk_page (htip : W.Contains tip)
    (hblocks : ∀ b, b ∈ blocks ↔
      W.tree.Ancestor b tip ∧ fromBlock ≤ b.summary.number ∧ b.summary.number ≤ toBlock)
    (hsorted : blocks.Pairwise fun b c => b.summary.number < c.summary.number)
    (hpage : List.Forall₂ (fun b q : BlockLogs => q.logs = b.logs ∧
      q.summary.number = b.summary.number) (blocks.filter fun b => b.logs ≠ []) page)
    (hnil : R []) (hbelow : blocks ≠ [] → ∀ a, W.tree.Ancestor a tip →
      a.summary.number < fromBlock → R a.logs) :
    QueueOk W margin tip R page := by
  refine queueOk_canonical htip hpage (hsorted.filter _)
    (fun b hb => ((hblocks b).mp (List.mem_of_mem_filter hb)).1) fun b hb a ha => ?_
  have hb := List.mem_of_mem_filter hb
  obtain ⟨hbtip, -, hto⟩ := (hblocks b).mp hb
  have hatip := ha.trans hbtip
  have hle : a.summary.number ≤ b.summary.number := ha.number_le
  by_cases hfrom : a.summary.number < fromBlock
  · exact .inl (hbelow (List.ne_nil_of_mem hb) a hatip hfrom)
  · by_cases hlogs : a.logs = []
    · exact .inl (hlogs ▸ hnil)
    · exact .inr (List.mem_filter.mpr ⟨(hblocks a).mpr ⟨hatip, by omega, by omega⟩, by simpa⟩)

/-- With the page, the canonical chain is ahead up to its end. -/
theorem ahead_of_page
    (hblocks : ∀ b, b ∈ blocks ↔
      W.tree.Ancestor b tip ∧ fromBlock ≤ b.summary.number ∧ b.summary.number ≤ toBlock)
    (hpage : List.Forall₂ (fun b q : BlockLogs => q.logs = b.logs ∧
      q.summary.number = b.summary.number) (blocks.filter fun b => b.logs ≠ []) page)
    (hnil : R []) {a : BlockLogs} (ha : W.tree.Ancestor a tip)
    (hfrom : fromBlock ≤ a.summary.number) (hto : a.summary.number ≤ toBlock) :
    Ahead R page a.logs := by
  by_cases hlogs : a.logs = []
  · exact .inl (hlogs ▸ hnil)
  · have hmem : a ∈ blocks.filter fun b => b.logs ≠ [] :=
      List.mem_filter.mpr ⟨(hblocks a).mpr ⟨ha, hfrom, hto⟩, by simpa⟩
    obtain ⟨i, rfl⟩ := List.mem_iff_get.mp hmem
    obtain ⟨hlength, hget⟩ := List.forall₂_iff_get.mp hpage
    exact .inr ⟨_, List.get_mem page ⟨i, hlength ▸ i.isLt⟩, (hget i i.isLt _).1⟩

end Page

end Fhevm.Listener
