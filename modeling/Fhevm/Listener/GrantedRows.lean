import Fhevm.Listener.NoEventLoss

/-!
# Permissions come from the chain

Whatever the node skips and whatever the chain replaces, the listener records only what some block
of the chain has logged. The block may be one that a reorganisation has replaced.

## Main definitions

* `LoggedIn` — a block of the chain has these logs.
* `RowsGranted` — all that waits and all that is recorded is from blocks of the chain.
* `rowsGranted_step` — every step keeps it.
-/

namespace Fhevm.Listener

open Foundation Host Worker InfiniteLogIter

/-! ## Blocks that wait -/

section Iterator

variable (W : World)

/-- A block of the chain, canonical or not, has these logs. -/
def LoggedIn (q : BlockLogs) : Prop := ∃ b, W.Contains b ∧ b.logs = q.logs

def InfiniteLogIter.Logged (it : InfiniteLogIter) : Prop := ∀ q ∈ it.nextBlocklogs, LoggedIn W q

/-- What a turn gives is from the chain, and what waits after it. -/
def LoggedResult : InfiniteLogIter × NextResult → Prop
  | (it, .block q) => LoggedIn W q ∧ it.Logged W
  | (it, _) => it.Logged W

variable {W} {A : Args} {tip q : BlockLogs} {it it' : InfiniteLogIter} {node : Node}

theorem fetchPage_logs {toBlock : Option ℕ} {attempts pagingSize fromBlock fromBlock' : ℕ}
    {pagingToBlock : ℕ} {logs : List ChainLog}
    (h : fetchPage node toBlock attempts pagingSize fromBlock =
      some (fromBlock', some (pagingToBlock, logs))) :
    node.getLogs fromBlock' pagingToBlock = .ok logs := by
  induction attempts generalizing pagingSize fromBlock with
  | zero => cases h
  | succ attempts ih =>
    obtain ⟨toPage, -, hattempt⟩ := @fetchPage_succ node toBlock attempts pagingSize fromBlock
    rw [hattempt] at h
    split at h
    · next hlogs =>
      cases h
      exact hlogs
    · split_ifs at h
      · exact ih h
      · exact ih h
    · cases h

theorem logged_append {l : List BlockLogs} (hit : it.Logged W) (hl : ∀ q ∈ l, LoggedIn W q) :
    ∀ q ∈ it.nextBlocklogs ++ l, LoggedIn W q := by
  intro q hq
  obtain hq | hq := List.mem_append.mp hq
  · exact hit q hq
  · exact hl q hq

theorem consumeCatchupBlocks_logged {attempts : ℕ} (htip : W.Contains tip)
    (hnode : Honest W tip node) (hit : it.Logged W)
    (h : it.consumeCatchupBlocks A attempts node = some it') : it'.Logged W := by
  rw [consumeCatchupBlocks] at h
  split at h
  · obtain rfl := Option.some.inj h
    exact hit
  · split at h
    · cases h
    · obtain rfl := Option.some.inj h
      exact hit
    · next hpage =>
      obtain rfl := Option.some.inj h
      obtain ⟨blocks, hblocks, hsorted, rfl⟩ := hnode.getLogs (fetchPage_logs hpage)
      refine logged_append hit fun q hq => ?_
      obtain ⟨hlength, hget⟩ := List.forall₂_iff_get.mp (splitByBlock_chainLogs hnode it hsorted)
      obtain ⟨⟨n, hn⟩, rfl⟩ := List.mem_iff_get.mp hq
      have hlt := hn
      rw [← hlength] at hlt
      refine ⟨_, ?_, (hget n hlt hn).1.symm⟩
      have hmem := List.mem_of_mem_filter (List.get_mem _ ⟨n, hlt⟩)
      exact W.contains_of_ancestor ((hblocks _).mp hmem).1 htip

/-- The logs that a node attaches to a block are those of a block of the chain. -/
theorem attachLogsTo_logged {summary : BlockSummary} (hnode : Honest W tip node)
    (h : attachLogsTo node summary = some q) : LoggedIn W q := by
  obtain ⟨logs, hlogs, rfl⟩ := Option.map_eq_some_iff.mp h
  obtain ⟨b, hb, rfl⟩ := hnode.getLogsAtHash hlogs
  exact ⟨b, W.contains_of_block hb, rfl⟩

theorem populateCatchupLogs_logged (hnode : Honest W tip node) {missing : List BlockSummary}
    (hit : it.Logged W) : (populateCatchupLogsFromMissingBlocks A it node missing).Logged W := by
  refine List.foldlRecOn missing _ hit fun it hit summary _ => ?_
  split
  · next logs hlogs =>
    obtain ⟨b, hb, rfl⟩ := hnode.getLogsAtHash hlogs
    refine logged_append hit fun q hq => ?_
    obtain rfl := List.mem_singleton.mp hq
    exact ⟨b, W.contains_of_block hb, rfl⟩
  · exact hit

theorem arrive_logged (hnode : Honest W tip node) (hit : it.Logged W) (hq : LoggedIn W q) :
    (it.arrive A node q).Logged W := by
  refine logged_append ?_ fun q' hq' => List.mem_singleton.mp hq' ▸ hq
  unfold checkMissingAncestors
  split_ifs
  · exact populateCatchupLogs_logged (A := A) hnode hit
  · exact hit

theorem popFront_logged (hit : it.Logged W) : LoggedResult W it.popFront := by
  rw [popFront]
  split
  · next q rest hqueue =>
    rw [Logged, hqueue] at hit
    exact ⟨hit q List.mem_cons_self, fun q' hq' => hit q' (List.mem_cons_of_mem _ hq')⟩
  · exact hit

theorem readStream_logged (hnode : Honest W tip node) (hit : it.Logged W) :
    LoggedResult W (it.readStream A node) := by
  rw [readStream]
  split
  · exact hit
  · split
    · next q hlast =>
      obtain ⟨summary, -, hattach⟩ := Option.bind_eq_some_iff.mp hlast
      exact popFront_logged (arrive_logged hnode hit (attachLogsTo_logged hnode hattach))
    · exact hit
  · split
    · next q hattach =>
      exact popFront_logged (arrive_logged hnode hit (attachLogsTo_logged hnode hattach))
    · exact hit

/-- One turn of the loop. -/
theorem next_logged {attempts : ℕ} {result : InfiniteLogIter × NextResult}
    (htip : W.Contains tip) (hnode : Honest W tip node) (hit : it.Logged W)
    (h : it.next A attempts node = some result) : LoggedResult W result := by
  rw [InfiniteLogIter.next] at h
  split_ifs at h with hstream hempty
  · obtain rfl := Option.some.inj h
    exact hit
  · obtain ⟨it', hconsume, rfl⟩ := Option.map_eq_some_iff.mp h
    have hit' := consumeCatchupBlocks_logged htip hnode hit hconsume
    split_ifs
    · exact popFront_logged hit'
    · exact hit'
    · exact readStream_logged hnode hit'
  · obtain ⟨it', hsame, rfl⟩ := Option.map_eq_some_iff.mp h
    obtain rfl := Option.some.inj hsame
    rw [if_pos hempty]
    exact popFront_logged hit

end Iterator

/-! ## Rows -/

section System

variable (K : ListenerConfig) (A : Args) (W : World)

/-- A listener that has not started yet. -/
def ListenerSystem.fresh (tip : BlockLogs) : ListenerSystem := ⟨.empty, none, tip, tip, 0⟩

/-- All permissions that are recorded are from blocks of the chain, and what waits to be. -/
structure RowsGranted (s : ListenerSystem) : Prop where
  contains_tip : W.Contains s.tip
  waiting : ∀ it, s.listener = some it → it.Logged W
  rows : ∀ row ∈ s.db.allowedHandles.rows, ∃ b, W.Contains b ∧ row ∈ allowedHandleRows K b

variable {K A W} {s s' : ListenerSystem}

theorem rowsGranted_fresh {tip : BlockLogs} (h : W.Contains tip) :
    RowsGranted K W (.fresh tip) where
  contains_tip := h
  waiting := by rintro _ ⟨⟩
  rows := by rintro _ ⟨⟩

theorem allowedHandleRows_congr {b q : BlockLogs} (h : b.logs = q.logs) :
    allowedHandleRows K b = allowedHandleRows K q := by
  unfold allowedHandleRows aclEvents
  rw [h]

theorem allowedHandles_insert {q : BlockLogs} {now failures : ℕ}
    (hs : ∀ row ∈ s.db.allowedHandles.rows, ∃ b, W.Contains b ∧ row ∈ allowedHandleRows K b)
    (hq : LoggedIn W q) : ∀ row ∈ (dbInsertBlock K now s.db q failures).allowedHandles.rows,
      ∃ b, W.Contains b ∧ row ∈ allowedHandleRows K b := by
  rw [dbInsertBlock_eq]
  split_ifs
  · rw [dbInsertBlockNoRetry_eq]
    intro row hrow
    obtain hold | hnew := Table.mem_insertAll hrow
    · exact hs row hold
    · obtain ⟨b, hb, hlogs⟩ := hq
      exact ⟨b, hb, allowedHandleRows_congr hlogs ▸ hnew⟩
  · exact hs

theorem rowsGranted_turn {it : InfiniteLogIter} {node : Node} {attempts now failures : ℕ}
    (hs : RowsGranted K W s) (hlistener : s.listener = some it) (hnode : Honest W s.tip node)
    (h : s.turn K A it node attempts now failures = some s') : RowsGranted K W s' := by
  obtain ⟨⟨it', result⟩, hnext, rfl⟩ := Option.map_eq_some_iff.mp h
  have hlogged := next_logged hs.contains_tip hnode (hs.waiting it hlistener) hnext
  cases result with
  | block q =>
    obtain ⟨hq, hit'⟩ := hlogged
    refine ⟨hs.contains_tip, ?_, allowedHandles_insert hs.rows hq⟩
    rintro _ ⟨⟩
    exact hit'
  | finished => exact ⟨hs.contains_tip, by rintro _ ⟨⟩, hs.rows⟩
  | again =>
    refine ⟨hs.contains_tip, ?_, hs.rows⟩
    rintro _ ⟨⟩
    exact hlogged

/-- Every step of the listener and every change of the chain keeps it. -/
theorem rowsGranted_step {i : ListenerInput} (hs : RowsGranted K W s)
    (hpossible : Possible W s i) (h : s.step K A i = some s') : RowsGranted K W s' := by
  cases i with
  | chain tip =>
    obtain rfl := Option.some.inj h
    exact ⟨hpossible, hs.waiting, hs.rows⟩
  | start startAtBlock readable =>
    cases hlistener : s.listener with
    | some it => simp [ListenerSystem.step, hlistener] at h
    | none =>
      simp only [ListenerSystem.step, hlistener, Option.some.injEq] at h
      subst h
      refine ⟨hs.contains_tip, ?_, hs.rows⟩
      rintro _ ⟨⟩ _ ⟨⟩
  | kill =>
    obtain rfl := Option.some.inj h
    exact ⟨hs.contains_tip, by rintro _ ⟨⟩, hs.rows⟩
  | turn node attempts now failures =>
    cases hlistener : s.listener with
    | some it =>
      simp only [ListenerSystem.step, hlistener] at h
      exact rowsGranted_turn hs hlistener hpossible h
    | none => simp [ListenerSystem.step, hlistener] at h

end System

end Fhevm.Listener
