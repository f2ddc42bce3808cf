import Fhevm.Listener.Waiting

/-!
# Missing ancestors

A block of the stream waits behind its ancestors back to one that is in the history. If these can
be read, all blocks that then wait come behind their ancestors.

## Main definitions

* `HistoryOk` — the ancestors of the blocks of a history are recorded or wait.
* `missings_ok` — the walk back from a block.
* `arrive_ok` — the queue and the history when a block has arrived.
-/

namespace Fhevm.Listener

open Foundation Host Worker InfiniteLogIter

variable {W : World} {margin : ℕ} {tip : BlockLogs} {node : Node} {R : List HostLog → Prop}

/-! ## The history -/

section History

variable (W)

/-- The ancestors of the blocks of a history are ahead. -/
def HistoryOk (R : List HostLog → Prop) (h : BlockHistory) : Prop :=
  ∀ summary ∈ h, ∃ b, W.Contains b ∧ b.summary = summary ∧ ∀ a, W.tree.Ancestor a b → R a.logs

variable {W} {h : BlockHistory} {b p : BlockLogs}

theorem HistoryOk.mono {R' : List HostLog → Prop} (hh : HistoryOk W R h)
    (hR : ∀ logs, R logs → R' logs) : HistoryOk W R' h := by
  intro summary hsummary
  obtain ⟨b, hb, heq, hancestors⟩ := hh summary hsummary
  exact ⟨b, hb, heq, fun a ha => hR _ (hancestors a ha)⟩

theorem HistoryOk.addBlock (hh : HistoryOk W R h) (hb : W.Contains b)
    (hancestors : ∀ a, W.tree.Ancestor a b → R a.logs) (capacity : ℕ) :
    HistoryOk W R (h.addBlock capacity b.summary) := by
  intro summary hsummary
  rcases List.mem_append.mp hsummary with hold | hnew
  · refine hh summary ?_
    split at hold
    · exact List.mem_of_mem_drop hold
    · exact hold
  · obtain rfl := List.mem_singleton.mp hnew
    exact ⟨b, hb, rfl, hancestors⟩

/-- The ancestors of a known block are ahead. -/
theorem HistoryOk.of_isKnown (hh : HistoryOk W R h) (hp : W.Contains p)
    (hknown : h.isKnown p.summary.hash = true) {a : BlockLogs} (ha : W.tree.Ancestor a p) :
    R a.logs := by
  obtain ⟨summary, hsummary, hhash⟩ := List.any_eq_true.mp hknown
  obtain ⟨b, hb, rfl, hancestors⟩ := hh summary hsummary
  have hhash : b.summary.hash = p.summary.hash := by simpa using hhash
  obtain rfl : b = p := Option.some.inj (hb.symm.trans (by rw [hhash]; exact hp))
  exact hancestors a ha

end History

/-! ## The walk back -/

theorem contains_parent {b p : BlockLogs} (h : W.tree.parent b = some p) :
    W.Contains p ∧ p.summary.hash = b.summary.parentHash := by
  obtain ⟨-, hp⟩ := W.parent_eq_some.mp h
  exact ⟨W.contains_of_block hp, W.hash_block hp⟩

theorem World.Contains.hash_ne_zero {p : BlockLogs} (h : W.Contains p) :
    p.summary.hash ≠ BLOCK_HASH_ZERO := by
  intro hzero
  rw [World.Contains, hzero, W.block_zero] at h
  cases h

/-- Where the walk ends, there is nothing left to find. -/
theorem HistoryOk.of_end {h : BlockHistory} (hh : HistoryOk W R h) {b : BlockLogs}
    (hend : h.isKnown b.summary.parentHash = true ∨ b.summary.parentHash = BLOCK_HASH_ZERO)
    {a : BlockLogs} (ha : W.tree.Ancestor a b) : a = b ∨ R a.logs := by
  obtain rfl | ⟨p, hparent, ha⟩ := ha.eq_or_parent
  · exact .inl rfl
  · obtain ⟨hp, hhash⟩ := contains_parent hparent
    rcases hend with hknown | hzero
    · exact .inr (hh.of_isKnown hp (hhash ▸ hknown) ha)
    · exact absurd (hhash.trans hzero) hp.hash_ne_zero

/-- The node attaches its own logs to a block. -/
theorem attachLogsTo_eq_some (hnode : Honest W tip node) {b blockLogs : BlockLogs}
    (hb : W.Contains b) (h : attachLogsTo node b.summary = some blockLogs) : blockLogs = b := by
  obtain ⟨logs, hlogs, rfl⟩ := Option.map_eq_some_iff.mp h
  obtain ⟨b', hb', rfl⟩ := hnode.getLogsAtHash hlogs
  rw [Option.some.inj (hb'.symm.trans hb)]

theorem Ahead.append {l l' : List BlockLogs} {logs : List HostLog} (h : Ahead R l logs) :
    Ahead R (l ++ l') logs :=
  h.imp_right fun ⟨q, hq, hlogs⟩ => ⟨q, List.mem_append_left _ hq, hlogs⟩

/-- The missing ancestors of a block can wait, and then its ancestors are ahead. -/
theorem missings_ok (hnode : Honest W tip node) {h : BlockHistory} (hh : HistoryOk W R h) {n : ℕ}
    {b : BlockLogs} (hb : W.Contains b) (hreaches : ReachesKnown node h n b.summary)
    (hshallow : ∀ a, W.tree.Ancestor a tip → a.summary.number + margin ≤ b.summary.number →
      W.tree.Ancestor a b) :
    ∃ missing : List BlockLogs,
      missingsAncestorsFrom h node n b.summary = (missing.map BlockLogs.summary).reverse ∧
      (∀ c ∈ missing, attachLogsTo node c.summary = some c) ∧
      QueueOk W margin tip R missing ∧
      (∀ a, W.tree.Ancestor a b → a = b ∨ Ahead R missing a.logs) ∧
      ∀ c ∈ missing, W.Contains c ∧ ∀ a, W.tree.Ancestor a c → Ahead R missing a.logs := by
  induction n generalizing b with
  | zero =>
    have hend : h.isKnown b.summary.parentHash = true ∨
        b.summary.parentHash = BLOCK_HASH_ZERO := by
      unfold ReachesKnown at hreaches
      rcases hreaches with hknown | hzero | hfalse
      · exact .inl hknown
      · exact .inr hzero
      · cases hfalse
    exact ⟨[], rfl, by simp, trivial, fun a ha => (hh.of_end hend ha).imp_right .inl, by simp⟩
  | succ n ih =>
    by_cases hend : h.isKnown b.summary.parentHash = true ∨ b.summary.parentHash = BLOCK_HASH_ZERO
    · have hnone : missingsAncestorsFrom h node (n + 1) b.summary = [] := by
        rw [missingsAncestorsFrom]
        rcases hend with hknown | hzero
        · rw [if_pos hknown]
        · split_ifs <;> rfl
      exact ⟨[], hnone, by simp, trivial, fun a ha => (hh.of_end hend ha).imp_right .inl, by simp⟩
    · -- the parent is fetched, and the walk goes on from there
      unfold ReachesKnown at hreaches
      obtain ⟨hunknown, hnonzero⟩ := not_or.mp hend
      obtain ⟨parent, hget, hlogs, hreaches⟩ :=
        (hreaches.resolve_left hunknown).resolve_left hnonzero
      obtain ⟨p, hblock, rfl⟩ := hnode.getBlock hget
      have hp : W.Contains p := W.contains_of_block hblock
      have hparent : W.tree.parent b = some p := W.parent_eq_some.mpr ⟨hb, hblock⟩
      have hnumber : p.summary.number + 1 = b.summary.number := W.tree.number_parent hparent
      obtain ⟨logs, hlogs⟩ := Option.isSome_iff_exists.mp hlogs
      have hattach : attachLogsTo node p.summary = some p := by
        have hsome : attachLogsTo node p.summary = some ⟨logs, p.summary⟩ := by
          simp [attachLogsTo, hlogs]
        rw [hsome, attachLogsTo_eq_some hnode hp hsome]
      have hpshallow : ∀ a, W.tree.Ancestor a tip →
          a.summary.number + margin ≤ p.summary.number → W.tree.Ancestor a p := fun a ha hle =>
        (hshallow a ha (by omega)).of_number_le (.parent hparent)
          (show a.summary.number ≤ p.summary.number by omega)
      obtain ⟨missing, hwalk, hattached, hqueue, hancestors, hall⟩ := ih hp hreaches hpshallow
      have hahead : ∀ a, W.tree.Ancestor a p → Ahead R (missing ++ [p]) a.logs := by
        intro a ha
        rcases hancestors a ha with rfl | h
        · exact .inr ⟨a, by simp, rfl⟩
        · exact h.append
      refine ⟨missing ++ [p], ?_, ?_, ?_, ?_, ?_⟩
      · rw [missingsAncestorsFrom, if_neg hunknown, if_neg hnonzero, hget]
        simp [hwalk]
      · intro c hc
        rcases List.mem_append.mp hc with hc | hc
        · exact hattached c hc
        · rw [List.mem_singleton.mp hc, hattach]
      · refine queueOk_append.mpr ⟨hqueue, ⟨p, hp, rfl, rfl, fun a ha => ?_, hpshallow⟩, trivial⟩
        rcases hancestors a ha with rfl | h
        · exact .inr rfl
        · exact .inl h
      · intro a ha
        obtain rfl | ⟨p', hparent', ha⟩ := ha.eq_or_parent
        · exact .inl rfl
        · obtain rfl := Option.some.inj (hparent'.symm.trans hparent)
          exact .inr (hahead a ha)
      · intro c hc
        rcases List.mem_append.mp hc with hc | hc
        · exact ⟨(hall c hc).1, fun a ha => ((hall c hc).2 a ha).append⟩
        · rw [List.mem_singleton.mp hc]
          exact ⟨hp, hahead⟩

/-! ## The arrival of a block -/

section Arrival

variable (A : Args)

/-- The missing blocks wait behind the others, and join the history in this order. -/
theorem populateCatchupLogs_eq {missing : List BlockLogs} (it : InfiniteLogIter)
    (hattached : ∀ c ∈ missing, attachLogsTo node c.summary = some c) :
    populateCatchupLogsFromMissingBlocks A it node (missing.map BlockLogs.summary) =
      { it with
        nextBlocklogs := it.nextBlocklogs ++ missing
        blockHistory := (missing.map BlockLogs.summary).foldl
          (BlockHistory.addBlock (historyCapacity A)) it.blockHistory } := by
  induction missing generalizing it with
  | nil => simp [populateCatchupLogsFromMissingBlocks]
  | cons c missing ih =>
    obtain ⟨logs, hlogs, hattach⟩ :=
      Option.map_eq_some_iff.mp (hattached c List.mem_cons_self)
    -- the first block joins, the others follow
    have hrest := ih (addBlock A { it with nextBlocklogs := it.nextBlocklogs ++ [c] } c.summary)
      (fun c hc => hattached c (List.mem_cons_of_mem _ hc))
    rw [populateCatchupLogsFromMissingBlocks, List.map_cons, List.foldl_cons, hlogs]
    simp only [hattach]
    refine hrest.trans ?_
    simp [addBlock]

theorem HistoryOk.addBlocks {missing : List BlockLogs} {h : BlockHistory} (hh : HistoryOk W R h)
    (hancestors : ∀ c ∈ missing, W.Contains c ∧ ∀ a, W.tree.Ancestor a c → R a.logs)
    (capacity : ℕ) : HistoryOk W R
      ((missing.map BlockLogs.summary).foldl (BlockHistory.addBlock capacity) h) := by
  induction missing generalizing h with
  | nil => exact hh
  | cons c missing ih =>
    obtain ⟨hc, hca⟩ := hancestors c List.mem_cons_self
    exact ih (hh.addBlock hc hca capacity) fun c hc => hancestors c (List.mem_cons_of_mem _ hc)

/-- The history stays well founded when the missing blocks join. -/
theorem populateCatchupLogs_ok {missing : List BlockLogs} (it : InfiniteLogIter)
    (hattached : ∀ c ∈ missing, attachLogsTo node c.summary = some c)
    (hancestors : ∀ c ∈ missing, W.Contains c ∧ ∀ a, W.tree.Ancestor a c → R a.logs)
    (hh : HistoryOk W R it.blockHistory) :
    ∃ history, HistoryOk W R history ∧
      populateCatchupLogsFromMissingBlocks A it node (missing.map BlockLogs.summary) =
        { it with nextBlocklogs := it.nextBlocklogs ++ missing, blockHistory := history } :=
  ⟨_, hh.addBlocks hancestors _, populateCatchupLogs_eq A it hattached⟩

/-- A block that has arrived waits behind its missing ancestors. -/
theorem arrive_ok (hnode : Honest W tip node) {it : InfiniteLogIter} {b : BlockLogs}
    (hempty : it.nextBlocklogs = []) (hh : HistoryOk W R it.blockHistory) (hb : W.Contains b)
    (hready : it.blockHistory.isReadyToDetectReorg = true →
      ReachesKnown node it.blockHistory A.reorgMaximumDurationInBlocks b.summary)
    (hunready : it.blockHistory.isReadyToDetectReorg = false →
      ∀ p, W.tree.parent b = some p → ∀ a, W.tree.Ancestor a p → R a.logs)
    (hshallow : ∀ a, W.tree.Ancestor a tip → a.summary.number + margin ≤ b.summary.number →
      W.tree.Ancestor a b) :
    ∃ missing history, QueueOk W margin tip R (missing ++ [b]) ∧
      HistoryOk W (Ahead R (missing ++ [b])) history ∧
      it.arrive A node b =
        { it with nextBlocklogs := missing ++ [b], blockHistory := history } := by
  cases hcase : it.blockHistory.isReadyToDetectReorg with
  | false =>
    have hancestors : ∀ a, W.tree.Ancestor a b → R a.logs ∨ a.logs = b.logs := by
      intro a ha
      obtain rfl | ⟨p, hparent, ha⟩ := ha.eq_or_parent
      · exact .inr rfl
      · exact .inl (hunready hcase p hparent a ha)
    refine ⟨[], it.blockHistory.addBlock (historyCapacity A) b.summary,
      ⟨⟨b, hb, rfl, rfl, hancestors, hshallow⟩, trivial⟩,
      (hh.mono fun logs => .inl).addBlock hb (fun a ha => ?_) _, ?_⟩
    · rcases hancestors a ha with hR | hlogs
      · exact .inl hR
      · exact .inr ⟨b, by simp, hlogs.symm⟩
    · simp [arrive, checkMissingAncestors, hcase, addBlock, hempty]
  | true =>
    obtain ⟨missing, hwalk, hattached, hqueue, hancestors, hall⟩ :=
      missings_ok hnode hh hb (hready hcase) hshallow
    have hahead : ∀ a, W.tree.Ancestor a b → Ahead R (missing ++ [b]) a.logs := by
      intro a ha
      rcases hancestors a ha with rfl | h
      · exact .inr ⟨a, by simp, rfl⟩
      · exact h.append
    have hmissings : ∀ c ∈ missing, W.Contains c ∧
        ∀ a, W.tree.Ancestor a c → Ahead R (missing ++ [b]) a.logs :=
      fun c hc => ⟨(hall c hc).1, fun a ha => ((hall c hc).2 a ha).append⟩
    obtain ⟨history, hhistory, hpopulate⟩ := populateCatchupLogs_ok A it hattached hmissings
      (hh.mono fun logs => .inl)
    refine ⟨missing, history.addBlock (historyCapacity A) b.summary,
      queueOk_append.mpr ⟨hqueue, ⟨b, hb, rfl, rfl, fun a ha => ?_, hshallow⟩, trivial⟩,
      hhistory.addBlock hb hahead _, ?_⟩
    · rcases hancestors a ha with rfl | h
      · exact .inr rfl
      · exact .inl h
    · have hmissing : it.getMissingsAncestors A node b.summary =
          missing.map BlockLogs.summary := by
        rw [getMissingsAncestors, hwalk, List.reverse_reverse]
      simp [arrive, checkMissingAncestors, hcase, hmissing, hpopulate, addBlock, hempty]

end Arrival

end Fhevm.Listener
