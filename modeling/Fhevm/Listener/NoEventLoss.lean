import Fhevm.Listener.CatchupPages
import Fhevm.Listener.MissingAncestors

/-!
# No event is lost

A restart resumes a margin below the last block that is recorded, so it loses nothing if the blocks
below have their events recorded. They do in every run that skips nothing: all blocks wait behind
their ancestors, and what has been read is recorded or waits.

## Main definitions

* `IteratorOk` — the invariant of the iterator, relative to the logs that are recorded.
* `next_ok` — one turn of its loop.
* `ListenerInvariant` — the invariant of the system.
* `no_event_loss` — the runs in which every step is good.
-/

namespace Fhevm.Listener

open Foundation Host Worker InfiniteLogIter

/-! ## The iterator -/

section Iterator

variable (W : World) (margin : ℕ) (tip : BlockLogs) (R : List HostLog → Prop)
  (seen : BlockLogs × ℕ)

/-- What waits can be recorded in this order, and what has been read is recorded or waits. -/
structure IteratorOk (it : InfiniteLogIter) : Prop where
  queue : QueueOk W margin tip R it.nextBlocklogs
  history : HistoryOk W (Ahead R it.nextBlocklogs) it.blockHistory
  seen : ∀ a, W.tree.Ancestor a seen.1 → a.summary.number < seen.2 →
    Ahead R it.nextBlocklogs a.logs

/-- A block is given when its ancestors are recorded, and then the others wait for it. -/
def NextOk : InfiniteLogIter × NextResult → Prop
  | (it, .block q) => Follows W margin tip R q ∧
      IteratorOk W margin tip (fun logs => R logs ∨ logs = q.logs) seen it
  | (it, .again) => IteratorOk W margin tip R seen it
  | (_, .finished) => True

variable {W margin tip R seen} {it it' : InfiniteLogIter} {node : Node}

theorem Ahead.mono {R' : List HostLog → Prop} {l : List BlockLogs} {logs : List HostLog}
    (h : Ahead R l logs) (hR : ∀ logs, R logs → R' logs) : Ahead R' l logs :=
  h.imp_left (hR logs)

theorem IteratorOk.mono {R' : List HostLog → Prop} (h : IteratorOk W margin tip R seen it)
    (hR : ∀ logs, R logs → R' logs) : IteratorOk W margin tip R' seen it :=
  ⟨h.queue.mono hR, h.history.mono fun _ hahead => hahead.mono hR,
    fun a ha hlt => (h.seen a ha hlt).mono hR⟩

theorem ahead_cons {q : BlockLogs} {l : List BlockLogs} {logs : List HostLog} :
    Ahead R (q :: l) logs ↔ Ahead (fun logs => R logs ∨ logs = q.logs) l logs := by
  simp [Ahead, or_assoc, eq_comm]

theorem popFront_ok (h : IteratorOk W margin tip R seen it) :
    NextOk W margin tip R seen it.popFront := by
  rw [popFront]
  split
  · next q rest hqueue =>
    obtain ⟨hq, hhistory, hseen⟩ := h
    rw [hqueue] at hq hhistory hseen
    exact ⟨hq.1, hq.2, hhistory.mono fun _ => ahead_cons.mp,
      fun a ha hlt => ahead_cons.mp (hseen a ha hlt)⟩
  · trivial

/-! ### The catch-up -/

/-- One attempt to fetch a page. -/
theorem fetchPage_succ (toBlock : Option ℕ) (attempts pagingSize fromBlock : ℕ) :
    ∃ pagingToBlock ≤ fromBlock + pagingSize,
      fetchPage node toBlock (attempts + 1) pagingSize fromBlock =
        match node.getLogs fromBlock pagingToBlock with
        | .ok logs => some (fromBlock, some (pagingToBlock, logs))
        | .error .limited =>
          if pagingSize = 1 then fetchPage node toBlock attempts pagingSize (fromBlock + 1)
          else fetchPage node toBlock attempts (max (pagingSize / 2) 1) fromBlock
        | .error .other => some (fromBlock, none) := by
  cases toBlock with
  | none => exact ⟨fromBlock + pagingSize, le_rfl, rfl⟩
  | some toBlock => exact ⟨min toBlock (fromBlock + pagingSize), min_le_right _ _, rfl⟩

/-- If the smallest pages are never limited, a page starts where it was asked for. -/
theorem fetchPage_start {toBlock : Option ℕ} {attempts pagingSize fromBlock fromBlock' : ℕ}
    {result : Option (ℕ × List ChainLog)}
    (hfetches : ∀ fromBlock toBlock, toBlock ≤ fromBlock + 1 →
      node.getLogs fromBlock toBlock ≠ .error .limited)
    (h : fetchPage node toBlock attempts pagingSize fromBlock = some (fromBlock', result)) :
    fromBlock' = fromBlock ∧ ∀ pagingToBlock logs, result = some (pagingToBlock, logs) →
      node.getLogs fromBlock pagingToBlock = .ok logs := by
  induction attempts generalizing pagingSize with
  | zero => cases h
  | succ attempts ih =>
    obtain ⟨toPage, hle, hattempt⟩ := fetchPage_succ toBlock attempts pagingSize fromBlock
    rw [hattempt] at h
    split at h
    · next logs hlogs =>
      obtain ⟨rfl, rfl⟩ : fromBlock = fromBlock' ∧ _ = result := by simpa using h
      refine ⟨rfl, fun pagingToBlock logs hresult => ?_⟩
      obtain ⟨rfl, rfl⟩ : _ = pagingToBlock ∧ _ = logs := by simpa using hresult
      exact hlogs
    · next hlimited =>
      split_ifs at h with hsize
      · -- a smallest page is not limited
        subst hsize
        exact absurd hlimited (hfetches fromBlock toPage hle)
      · exact ih h
    · obtain ⟨rfl, rfl⟩ : fromBlock = fromBlock' ∧ _ = result := by simpa using h
      exact ⟨rfl, by simp⟩

variable {A : Args} {s : ListenerSystem} {attempts : ℕ}

/-- After a page, the canonical chain has been read up to its end. -/
theorem consumeCatchupBlocks_ok (htip : W.Contains s.tip) (hnode : Honest W s.tip node)
    (hnil : R []) (hit : IteratorOk W margin s.tip R (s.seenTip, s.seenTo) it)
    (hfetches : ∀ fromBlock toBlock, toBlock ≤ fromBlock + 1 →
      node.getLogs fromBlock toBlock ≠ .error .limited)
    (hcontinues : ∀ fromBlock toBlock, it.catchupBlocks = some (fromBlock, toBlock) →
      fromBlock ≤ s.tip.summary.number → ∀ a, W.tree.Ancestor a s.tip →
        a.summary.number < fromBlock → W.tree.Ancestor a s.seenTip ∧ a.summary.number < s.seenTo)
    (hstream : it.stream = true) (hempty : it.nextBlocklogs = [])
    (h : it.consumeCatchupBlocks A attempts node = some it') :
    IteratorOk W margin s.tip R (seenAfter A s it attempts node) it' ∧
      it'.blockHistory = it.blockHistory := by
  rw [consumeCatchupBlocks] at h
  rw [seenAfter, if_neg (by simp [hstream]), if_pos hempty]
  cases hcatchup : it.catchupBlocks with
  | none =>
    obtain rfl : it = it' := by simpa [hcatchup] using h
    exact ⟨hit, rfl⟩
  | some range =>
    obtain ⟨fromBlock, toBlock⟩ := range
    simp only [hcatchup] at h
    cases hfetch : fetchPage node toBlock attempts A.catchupPaging fromBlock with
    | none => simp [hfetch] at h
    | some answer =>
      obtain ⟨fromBlock', result⟩ := answer
      obtain ⟨rfl, hresult⟩ := fetchPage_start hfetches hfetch
      simp only [hfetch] at h ⊢
      cases result with
      | none =>
        obtain rfl := Option.some.inj h
        exact ⟨⟨hit.queue, hit.history, hit.seen⟩, rfl⟩
      | some page =>
        obtain ⟨pagingToBlock, logs⟩ := page
        obtain rfl := Option.some.inj h
        obtain ⟨blocks, hblocks, hsorted, rfl⟩ :=
          hnode.getLogs (hresult pagingToBlock logs rfl)
        have hpage := splitByBlock_chainLogs hnode it hsorted
        have hnothing : ∀ {logs}, Ahead R it.nextBlocklogs logs → R logs := by
          intro logs hahead
          simpa [Ahead, hempty] using hahead
        have hbelow : fromBlock' ≤ s.tip.summary.number → ∀ a, W.tree.Ancestor a s.tip →
            a.summary.number < fromBlock' → R a.logs := by
          intro hle a ha hlt
          obtain ⟨hseen, hto⟩ := hcontinues _ _ hcatchup hle a ha hlt
          exact hnothing (hit.seen a hseen hto)
        have hmono : ∀ logs, Ahead R it.nextBlocklogs logs → Ahead R
            (it.splitByBlock node (blocks.flatMap BlockLogs.chainLogs)) logs :=
          fun logs hahead => .inl (hnothing hahead)
        refine ⟨⟨?_, ?_, ?_⟩, rfl⟩ <;> simp only [hempty, List.nil_append]
        · refine queueOk_page htip hblocks hsorted hpage hnil fun hne => hbelow ?_
          obtain ⟨b, hb⟩ := List.exists_mem_of_ne_nil _ hne
          obtain ⟨hbtip, hfrom, -⟩ := (hblocks b).mp hb
          have hle : b.summary.number ≤ s.tip.summary.number := hbtip.number_le
          omega
        · exact hit.history.mono hmono
        · intro a ha hlt
          split_ifs at ha hlt with hle
          · by_cases hfrom : a.summary.number < fromBlock'
            · exact .inl (hbelow hle a ha hfrom)
            · exact ahead_of_page hblocks hpage hnil ha (by omega)
                (by simpa [Nat.lt_succ_iff] using hlt)
          · exact hmono _ (hit.seen a ha hlt)

/-! ### The stream -/

/-- A block of the stream that attaches is given behind its ancestors. -/
theorem readStream_ok (hnode : Honest W tip node)
    (hit : IteratorOk W margin tip R seen it) (hempty : it.nextBlocklogs = [])
    (hattaches : ∀ b, W.Contains b → Streamed node b →
      (it.blockHistory.isReadyToDetectReorg = true →
        ReachesKnown node it.blockHistory A.reorgMaximumDurationInBlocks b.summary) ∧
      (it.blockHistory.isReadyToDetectReorg = false → ∀ p, W.tree.parent b = some p →
        it.blockHistory.isKnown p.summary.hash = true ∨
          W.tree.Ancestor p seen.1 ∧ p.summary.number < seen.2) ∧
      ∀ a, W.tree.Ancestor a tip → a.summary.number + margin ≤ b.summary.number →
        W.tree.Ancestor a b) :
    NextOk W margin tip R seen (it.readStream A node) := by
  have hnothing : ∀ {logs}, Ahead R it.nextBlocklogs logs → R logs := by
    intro logs hahead
    simpa [Ahead, hempty] using hahead
  have hhistory : HistoryOk W R it.blockHistory := hit.history.mono fun _ => hnothing
  -- the block of the stream joins the queue
  have harrive : ∀ b, W.Contains b → Streamed node b →
      NextOk W margin tip R seen (it.arrive A node b).popFront := by
    intro b hb hstreamed
    obtain ⟨hready, hunready, hshallow⟩ := hattaches b hb hstreamed
    have hparents : it.blockHistory.isReadyToDetectReorg = false →
        ∀ p, W.tree.parent b = some p → ∀ a, W.tree.Ancestor a p → R a.logs := by
      intro hcase p hparent a ha
      rcases hunready hcase p hparent with hknown | ⟨hp, hlt⟩
      · exact hhistory.of_isKnown (contains_parent hparent).1 hknown ha
      · have hle : a.summary.number ≤ p.summary.number := ha.number_le
        exact hnothing (hit.seen a (ha.trans hp) (by omega))
    obtain ⟨missing, history, hqueue, hhistory', harrive⟩ :=
      arrive_ok A hnode hempty hhistory hb hready hparents hshallow
    rw [harrive]
    exact popFront_ok ⟨hqueue, hhistory', fun a ha hlt => .inl (hnothing (hit.seen a ha hlt))⟩
  rw [readStream]
  split
  · exact ⟨hit.queue, hit.history, hit.seen⟩
  · next htimeout =>
    split
    · next blockLogs hlast =>
      obtain ⟨summary, hcurrent, hattach⟩ := Option.bind_eq_some_iff.mp hlast
      obtain ⟨b, hb, rfl⟩ := hnode.getCurrentBlock hcurrent
      rw [attachLogsTo_eq_some hnode hb hattach]
      exact harrive b hb (.inr ⟨htimeout, hcurrent⟩)
    · exact hit
  · next summary hheader =>
    split
    · next blockLogs hattach =>
      obtain ⟨b, hb, rfl⟩ := hnode.next hheader
      rw [attachLogsTo_eq_some hnode hb hattach]
      exact harrive b hb (.inl hheader)
    · exact ⟨hit.queue, hit.history, hit.seen⟩

end Iterator

/-! ## The system -/

section System

variable (K : ListenerConfig) (A : Args) (W : World)

/-- The logs that are recorded. -/
def RecordedLogs (db : ListenerDb) (logs : List HostLog) : Prop :=
  Recorded K db ⟨logs, ⟨0, [], []⟩⟩

structure ListenerInvariant (s : ListenerSystem) : Prop where
  contains_tip : W.Contains s.tip
  noEventLoss : NoEventLoss K A W s
  iterator : ∀ it, s.listener = some it →
    IteratorOk W A.catchupMargin s.tip (RecordedLogs K s.db) (s.seenTip, s.seenTo) it

variable {K A W} {s s' : ListenerSystem} {db : ListenerDb} {i : ListenerInput}

theorem recordedLogs_iff {b : BlockLogs} : RecordedLogs K db b.logs ↔ Recorded K db b :=
  ⟨fun h => h.congr rfl, fun h => h.congr rfl⟩

theorem recordedLogs_nil : RecordedLogs K db [] := recorded_of_logs_eq_nil rfl

/-- One turn of the loop gives a block whose ancestors are recorded. -/
theorem next_ok {it : InfiniteLogIter} {node : Node} {attempts failures : ℕ}
    {result : InfiniteLogIter × NextResult} (hs : ListenerInvariant K A W s)
    (hlistener : s.listener = some it) (hnode : Honest W s.tip node)
    (hgood : GoodTurn K A W s it node attempts failures)
    (h : it.next A attempts node = some result) :
    NextOk W A.catchupMargin s.tip (RecordedLogs K s.db) (seenAfter A s it attempts node) result := by
  have hit := hs.iterator it hlistener
  rw [InfiniteLogIter.next] at h
  split_ifs at h with hstream hempty
  · -- the listener connects, and the catch-up starts below what is recorded
    obtain rfl := Option.some.inj h
    refine ⟨hit.queue, hit.history, fun a ha hlt => .inl ?_⟩
    rw [seenAfter, if_pos hstream] at ha hlt
    have hreaches := hgood.connects hstream
    unfold CatchupReaches at hreaches
    cases hlast : readLastValidBlock K s.db with
    | some m =>
      rw [hlast] at hreaches
      refine recordedLogs_iff.mpr (hs.noEventLoss a ha m hlast ?_)
      have hlt : (a.summary.number : ℤ) < it.catchupBlockFrom A node := by exact_mod_cast hlt
      have hreaches : (it.catchupBlockFrom A node : ℤ) ≤ m - A.catchupMargin + 1 := hreaches
      omega
    | none =>
      rw [hlast] at hreaches
      rw [hreaches a ha hlt]
      exact recordedLogs_nil
  · -- nothing waits, so a page is read
    rw [Bool.not_eq_false] at hstream
    obtain ⟨it', hconsume, rfl⟩ := Option.map_eq_some_iff.mp h
    obtain ⟨hit', hhistory⟩ := consumeCatchupBlocks_ok hs.contains_tip hnode recordedLogs_nil hit
      hgood.fetches (hgood.continues hstream hempty) hstream hempty hconsume
    by_cases hwaiting : it'.nextBlocklogs = []
    · rw [if_neg (not_not.mpr hwaiting)]
      split_ifs with hend
      · trivial
      · refine readStream_ok hnode hit' hwaiting fun b hb hstreamed => ?_
        rw [hhistory]
        have hattaches := hgood.attaches b hb hstreamed
        exact ⟨hattaches.ready, hattaches.unready, hattaches.shallow⟩
    · rw [if_pos hwaiting]
      exact popFront_ok hit'
  · -- a waiting block is given
    rw [Bool.not_eq_false] at hstream
    obtain rfl : _ = result := by simpa [hempty] using h
    rw [seenAfter, if_neg (by simp [hstream]), if_neg hempty]
    exact popFront_ok hit

/-- The insertion of a given block loses nothing, if it is made or has nothing to insert. -/
theorem insert_ok {q : BlockLogs} (now : ℕ) {failures : ℕ} (hs : NoEventLoss K A W s)
    (hq : Follows W A.catchupMargin s.tip (RecordedLogs K s.db) q)
    (hfailures : q.logs ≠ [] → failures ≤ DB_INSERT_RETRIES) :
    NoEventLoss K A W { s with db := dbInsertBlock K now s.db q failures } ∧
      ∀ logs, RecordedLogs K s.db logs ∨ logs = q.logs →
        RecordedLogs K (dbInsertBlock K now s.db q failures) logs := by
  rw [dbInsertBlock_eq]
  split_ifs with hmade
  · have hrecorded : ∀ logs, RecordedLogs K s.db logs ∨ logs = q.logs →
        RecordedLogs K (dbInsertBlockNoRetry K now s.db q) logs := by
      rintro logs (h | rfl)
      · exact h.insert
      · exact recordedLogs_iff.mpr recorded_insert
    refine ⟨fun a ha m hm hle => recordedLogs_iff.mp (hrecorded _ ?_), hrecorded⟩
    rcases readLastValidBlock_insert hm with hold | rfl
    · exact .inl (recordedLogs_iff.mpr (hs a ha m hold hle))
    · -- the block is the last valid one now, and its ancestors are recorded
      obtain ⟨b, -, -, hnumber, hancestors, hshallow⟩ := hq
      exact hancestors a (hshallow a ha (by omega))
  · have hlogs : q.logs = [] := by
      by_contra hne
      exact hmade (hfailures hne)
    refine ⟨hs, ?_⟩
    rintro logs (h | rfl)
    · exact h
    · rw [hlogs]
      exact recordedLogs_nil

theorem turn_invariant {it : InfiniteLogIter} {node : Node} {attempts now failures : ℕ}
    (hs : ListenerInvariant K A W s) (hlistener : s.listener = some it)
    (hnode : Honest W s.tip node) (hgood : GoodTurn K A W s it node attempts failures)
    (h : s.turn K A it node attempts now failures = some s') : ListenerInvariant K A W s' := by
  obtain ⟨⟨it', result⟩, hnext, rfl⟩ := Option.map_eq_some_iff.mp h
  have hok := next_ok hs hlistener hnode hgood hnext
  cases result with
  | block q =>
    obtain ⟨hq, hit'⟩ := hok
    obtain ⟨hloss, hrecorded⟩ := insert_ok now hs.noEventLoss hq (hgood.inserts it' q hnext)
    refine ⟨hs.contains_tip, hloss, ?_⟩
    rintro _ ⟨⟩
    exact hit'.mono hrecorded
  | finished => exact ⟨hs.contains_tip, hs.noEventLoss, by rintro _ ⟨⟩⟩
  | again =>
    refine ⟨hs.contains_tip, hs.noEventLoss, ?_⟩
    rintro _ ⟨⟩
    exact hok

/-- A good step keeps the invariant. -/
theorem step_invariant (hs : ListenerInvariant K A W s) (hpossible : Possible W s i)
    (hgood : GoodStep K A W s i) (h : s.step K A i = some s') : ListenerInvariant K A W s' := by
  cases i with
  | chain tip =>
    obtain rfl := Option.some.inj h
    refine ⟨hpossible, fun a ha m hm hle => hs.noEventLoss a (hgood a ha (.inl ⟨m, hm, ?_⟩)) m hm hle,
      fun it hit => ?_⟩
    · omega
    · obtain ⟨hqueue, hhistory, hseen⟩ := hs.iterator it hit
      exact ⟨hqueue.move fun a ha q hq hle => hgood a ha (.inr ⟨it, q, hit, hq, hle⟩),
        hhistory, hseen⟩
  | start startAtBlock readable =>
    cases hlistener : s.listener with
    | some it => simp [ListenerSystem.step, hlistener] at h
    | none =>
      simp only [ListenerSystem.step, hlistener, Option.some.injEq] at h
      subst h
      refine ⟨hs.contains_tip, hs.noEventLoss, ?_⟩
      rintro _ ⟨⟩
      exact ⟨trivial, by rintro _ ⟨⟩, fun a _ hlt => absurd hlt (Nat.not_lt_zero _)⟩
  | kill =>
    obtain rfl := Option.some.inj h
    exact ⟨hs.contains_tip, hs.noEventLoss, by rintro _ ⟨⟩⟩
  | turn node attempts now failures =>
    cases hlistener : s.listener with
    | some it =>
      simp only [ListenerSystem.step, hlistener] at h
      exact turn_invariant hs hlistener hpossible (hgood it hlistener) h
    | none => simp [ListenerSystem.step, hlistener] at h

theorem Initial.invariant (h : Initial K W s) : ListenerInvariant K A W s where
  contains_tip := h.contains_tip
  noEventLoss := by
    intro a _ m hm
    rw [h.last] at hm
    cases hm
  iterator := by
    intro it hit
    rw [h.stopped] at hit
    cases hit

theorem GoodRun.invariant {s₀ : ListenerSystem} {is : List ListenerInput} (h₀ : Initial K W s₀)
    (hrun : GoodRun K A W s₀ is s) : ListenerInvariant K A W s := by
  induction hrun with
  | nil => exact h₀.invariant
  | snoc _ hallowed hstep ih => exact step_invariant ih hallowed.1 hallowed.2 hstep

/-- In a run whose steps skip nothing, a restart from the last valid block loses no event. -/
theorem no_event_loss {s₀ : ListenerSystem} {is : List ListenerInput} (h₀ : Initial K W s₀)
    (hrun : GoodRun K A W s₀ is s) : NoEventLoss K A W s :=
  (hrun.invariant h₀).noEventLoss

end System

/-! ## A run over six blocks -/

section Sample

/-- The first and the sixth block have an event. -/
def sampleBlock (n : ℕ) : BlockLogs where
  logs := if n = 1 ∨ n = 6 then [encryption n.toUInt8] else []
  summary := ⟨n, [n.toUInt8], [(n - 1).toUInt8]⟩

def sampleBlocks : List BlockLogs := (List.range' 1 6).map sampleBlock

def sampleWorld : World where
  block h := sampleBlocks.find? fun b => b.summary.hash = h
  hash_block h := by simpa using List.find?_some h
  number_parent := by
    intro h b p hb hp
    have hnumbers : ∀ b ∈ sampleBlocks, ∀ p ∈ sampleBlocks,
        p.summary.hash = b.summary.parentHash → p.summary.number + 1 = b.summary.number := by
      decide
    exact hnumbers b (List.mem_of_find?_eq_some hb) p (List.mem_of_find?_eq_some hp)
      (by simpa using List.find?_some hp)
  block_zero := by decide

theorem mem_sampleBlocks {a : BlockLogs} (ha : sampleWorld.tree.Ancestor a (sampleBlock 6)) :
    a ∈ sampleBlocks := by
  have hcontains : sampleWorld.Contains a := sampleWorld.contains_of_ancestor ha (by decide)
  have hfind : sampleBlocks.find? (fun b => b.summary.hash = a.summary.hash) = some a := hcontains
  exact List.mem_of_find?_eq_some hfind

theorem ancestor_sampleBlock {a : BlockLogs} (ha : a ∈ sampleBlocks) :
    sampleWorld.tree.Ancestor a (sampleBlock 6) := by
  have hparents : ∀ n < 6, 0 < n →
      sampleWorld.tree.parent (sampleBlock (n + 1)) = some (sampleBlock n) := by decide
  have hchain : ∀ k n, 0 < n → n + k ≤ 6 →
      sampleWorld.tree.Ancestor (sampleBlock n) (sampleBlock (n + k)) := by
    intro k
    induction k with
    | zero => exact fun n _ _ => .refl
    | succ k ih =>
      exact fun n hn hle => .step (hparents (n + k) (by omega) (by omega)) (ih n hn (by omega))
  obtain ⟨n, hn, rfl⟩ := List.mem_map.mp ha
  obtain ⟨hpos, hle⟩ := List.mem_range'_1.mp hn
  have h := hchain (6 - n) n (by omega) (by omega)
  rwa [show n + (6 - n) = 6 by omega] at h

/-- A node that answers the question for the first hundred blocks only. -/
def sampleNode : Node where
  getBlockNumber := none
  getLogs fromBlock toBlock :=
    if fromBlock = 1 ∧ toBlock = 101 then .ok (sampleBlocks.flatMap BlockLogs.chainLogs)
    else .error .other
  getBlockByNumber _ := none
  getBlock _ := none
  getLogsAtHash _ := none
  getCurrentBlock := none
  next := .ended

theorem honest_sampleNode : Honest sampleWorld (sampleBlock 6) sampleNode where
  getLogs := by
    intro fromBlock toBlock logs h
    simp only [sampleNode] at h
    split_ifs at h with hrange
    obtain ⟨rfl, rfl⟩ := hrange
    have hnumbers : ∀ b ∈ sampleBlocks, 1 ≤ b.summary.number ∧ b.summary.number ≤ 101 := by decide
    exact ⟨sampleBlocks, fun b => ⟨fun hb => ⟨ancestor_sampleBlock hb, hnumbers b hb⟩,
      fun hb => mem_sampleBlocks hb.1⟩, by decide, by simpa using h.symm⟩
  getBlockByNumber := by rintro _ _ ⟨⟩
  getBlock := by rintro _ _ ⟨⟩
  getLogsAtHash := by rintro _ _ ⟨⟩
  getCurrentBlock := by rintro _ ⟨⟩
  next := by rintro _ ⟨⟩

def sampleArgs : Args := ⟨none, 5, 100, 50⟩

/-- The insertion of the first block fails some times. -/
def sampleDb (failures : ℕ) : ListenerDb :=
  dbInsertBlock sampleListener 0 .empty ⟨[encryption 1], ⟨1, [1], BLOCK_HASH_ZERO⟩⟩ failures

def sampleStopped : ListenerSystem :=
  ⟨.empty, none, sampleBlock 6, sampleBlock 6, 0⟩

def sampleStarted : ListenerSystem :=
  ⟨.empty, some (InfiniteLogIter.new (some 1)), sampleBlock 6, sampleBlock 6, 0⟩

def sampleConnected : ListenerSystem where
  db := .empty
  listener := some ⟨some (1, none), [], true, none, some 1, []⟩
  tip := sampleBlock 6
  seenTip := sampleBlock 6
  seenTo := 1

def sampleHalf (failures : ℕ) : ListenerSystem where
  db := sampleDb failures
  listener := some ⟨some (102, none), [⟨[encryption 6], ⟨6, [6], [1]⟩⟩], true, none, some 1, []⟩
  tip := sampleBlock 6
  seenTip := sampleBlock 6
  seenTo := 102

def sampleDone (failures : ℕ) : ListenerSystem where
  db := dbInsertBlock sampleListener 0 (sampleDb failures) ⟨[encryption 6], ⟨6, [6], [1]⟩⟩ 0
  listener := some ⟨some (102, none), [], true, none, some 1, []⟩
  tip := sampleBlock 6
  seenTip := sampleBlock 6
  seenTo := 102

def sampleInputs (failures : ℕ) : List ListenerInput :=
  [.start (some 1) true, .turn sampleNode 1 0 0, .turn sampleNode 1 0 failures,
    .turn sampleNode 1 0 0]

/-- The listener connects, reads a page and inserts its two blocks. -/
theorem sample_run {allowed : ListenerSystem → ListenerInput → Prop} (failures : ℕ)
    (hstart : allowed sampleStopped (.start (some 1) true))
    (hconnect : allowed sampleStarted (.turn sampleNode 1 0 0))
    (hpage : allowed sampleConnected (.turn sampleNode 1 0 failures))
    (hrest : allowed (sampleHalf failures) (.turn sampleNode 1 0 0)) :
    Run sampleListener sampleArgs allowed sampleStopped (sampleInputs failures)
      (sampleDone failures) := by
  have hstarted : Run sampleListener sampleArgs allowed sampleStopped [.start (some 1) true]
      sampleStarted := .snoc .nil hstart rfl
  have hconnected : Run sampleListener sampleArgs allowed sampleStopped
      [.start (some 1) true, .turn sampleNode 1 0 0] sampleConnected :=
    .snoc hstarted hconnect rfl
  have hhalf : Run sampleListener sampleArgs allowed sampleStopped
      [.start (some 1) true, .turn sampleNode 1 0 0, .turn sampleNode 1 0 failures]
      (sampleHalf failures) := .snoc hconnected hpage rfl
  exact .snoc hhalf hrest rfl

/-- The node streams nothing, so a turn is good if the catch-up starts at the first block. -/
theorem good_sampleTurn {s : ListenerSystem} {it : InfiniteLogIter} (htip : s.tip = sampleBlock 6)
    (hconnects : it.stream = false → readLastValidBlock sampleListener s.db = none ∧
      it.catchupBlockFrom sampleArgs sampleNode = 1)
    (hcontinues : it.stream = true → it.nextBlocklogs = [] → it.catchupBlocks = some (1, none)) :
    GoodTurn sampleListener sampleArgs sampleWorld s it sampleNode 1 0 := by
  have hpositive : ∀ a, sampleWorld.tree.Ancestor a (sampleBlock 6) → 1 ≤ a.summary.number := by
    intro a ha
    have hall : ∀ a ∈ sampleBlocks, 1 ≤ a.summary.number := by decide
    exact hall a (mem_sampleBlocks ha)
  refine ⟨fun hstream => ?_, fun fromBlock toBlock _ hlimited => ?_,
    fun hstream hempty fromBlock toBlock hcatchup _ a ha hlt => ?_, fun b _ hstreamed => ?_,
    fun _ _ _ _ => Nat.zero_le _⟩
  · obtain ⟨hnone, hfrom⟩ := hconnects hstream
    rw [CatchupReaches, hnone]
    intro a ha hlt
    have hle := hpositive a (htip ▸ ha)
    omega
  · simp only [sampleNode] at hlimited
    split_ifs at hlimited
    cases hlimited
  · obtain ⟨rfl, rfl⟩ : 1 = fromBlock ∧ none = toBlock := by
      simpa [hcontinues hstream hempty] using hcatchup
    have hle := hpositive a (htip ▸ ha)
    omega
  · rcases hstreamed with h | ⟨h, -⟩ <;> cases h

/-- Without failures, the event of the first block is recorded when the sixth block is. -/
theorem sample_not_lost :
    readLastValidBlock sampleListener (sampleDone 0).db = some 6 ∧
      NoEventLoss sampleListener sampleArgs sampleWorld (sampleDone 0) := by
  have hrun : GoodRun sampleListener sampleArgs sampleWorld sampleStopped (sampleInputs 0)
      (sampleDone 0) := by
    refine sample_run 0 ⟨trivial, trivial⟩ ⟨honest_sampleNode, ?_⟩ ⟨honest_sampleNode, ?_⟩
      ⟨honest_sampleNode, ?_⟩ <;> rintro _ ⟨⟩
    · exact good_sampleTurn rfl (fun _ => ⟨rfl, rfl⟩) (by rintro ⟨⟩)
    · exact good_sampleTurn rfl (by rintro ⟨⟩) fun _ _ => rfl
    · exact good_sampleTurn rfl (by rintro ⟨⟩) (by rintro _ ⟨⟩)
  exact ⟨by decide +kernel, no_event_loss ⟨by decide, rfl, rfl⟩ hrun⟩

/-- When the insertion of the first block fails eleven times, the sixth block is inserted
nevertheless, and a restart resumes behind the first one. -/
theorem sample_lost :
    ¬ ∀ (K : ListenerConfig) (A : Args) (W : World) (s₀ s : ListenerSystem)
      (is : List ListenerInput), Initial K W s₀ → Run K A (Possible W) s₀ is s →
        NoEventLoss K A W s := by
  intro h
  have hrun : Run sampleListener sampleArgs (Possible sampleWorld) sampleStopped (sampleInputs 11)
      (sampleDone 11) :=
    sample_run 11 trivial honest_sampleNode honest_sampleNode honest_sampleNode
  have hrecorded := h _ _ _ _ _ _ ⟨by decide, rfl, rfl⟩ hrun (sampleBlock 1)
    (ancestor_sampleBlock (by decide)) 6 (by decide +kernel) (by decide)
  have hlost : ¬ ∀ c ∈ computationRows sampleListener 0 (sampleBlock 1),
      c.key ∈ (sampleDone 11).db.computations.rows.map Computation.key := by
    decide +kernel
  exact hlost hrecorded.computations

end Sample

end Fhevm.Listener
