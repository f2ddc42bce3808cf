import Fhevm.Foundation.System
import Fhevm.Listener.CatchupPages
import Fhevm.Worker.QueryForWork

/-!
# Pages whose logs are out of order or without block numbers

The node may leave block numbers out, and it may send the logs of a page in any order. The pass over
a page numbers the logs and looks whether they are in order, but it leaves out the last one.

## Main definitions

* `RpcLog` — a log as the node sends it.
* `splitRpcLogs` — the pass, which may panic.
* `SplitsByBlock` — the blocks are those of the logs.
* `LastInOrder` — the pages that are split so.
* `splitRpcLogs_rpc` — where the node leaves no number out, the pass is that over numbered logs.
-/

namespace Fhevm.Listener

open Foundation InfiniteLogIter

/-! ## The pass -/

structure RpcLog where
  log : HostLog
  blockNumber : Option ℕ
  blockHash : Option Handle
deriving DecidableEq, Repr

/-- The first loop. A log without block number is taken to be of the block before it. The result is
whether the numbers are in order. -/
def numberLogs : List RpcLog → ℕ → List RpcLog × Bool
  | [], _ => ([], true)
  | log :: logs, prevBlockNumber =>
    let logBlockNumber := log.blockNumber.getD prevBlockNumber
    let (logs, isSorted) := numberLogs logs logBlockNumber
    ({ log with blockNumber := some logBlockNumber } :: logs,
      decide (prevBlockNumber ≤ logBlockNumber) && isSorted)

/-- `logs.sort_by_key(|log| log.block_number.unwrap())` -/
def sortByBlockNumber (logs : List RpcLog) : Option (List RpcLog) := do
  guard (∀ log ∈ logs, log.blockNumber.isSome)
  return logs.mergeSort fun a b => decide (a.blockNumber.getD 0 ≤ b.blockNumber.getD 0)

/-- The second loop. -/
def lastOfBlock : List RpcLog → List Bool
  | [] => []
  | [_] => [true]
  | log :: next :: logs => (next.blockNumber != log.blockNumber) :: lastOfBlock (next :: logs)

/-- The block of the logs up to the last one. -/
def rpcBlock (it : InfiniteLogIter) (node : Node) (logs : List RpcLog) (last : RpcLog) (number : ℕ)
    (previousBlock : Option BlockLogs) : BlockLogs where
  logs := logs.map RpcLog.log
  summary := it.deduceBlockSummary node
    ⟨last.log, number, last.blockHash.getD BLOCK_HASH_ZERO⟩ previousBlock

/-- The third loop, with the assertion behind it. -/
def regroup (it : InfiniteLogIter) (node : Node) :
    List (RpcLog × Bool) → List RpcLog → List BlockLogs → Option (List BlockLogs)
  | [], currentLogs, blocksLogs => do
    guard (currentLogs = [])
    return blocksLogs
  | (log, false) :: logs, currentLogs, blocksLogs =>
    regroup it node logs (currentLogs ++ [log]) blocksLogs
  | (log, true) :: logs, currentLogs, blocksLogs => do
    let number ← log.blockNumber
    let blockLogs := rpcBlock it node (currentLogs ++ [log]) log number blocksLogs.getLast?
    regroup it node logs [] (blocksLogs ++ [blockLogs])

/-- `split_by_block`. There is no result when it panics. -/
def splitRpcLogs (it : InfiniteLogIter) (node : Node) (logs : List RpcLog) :
    Option (List BlockLogs) :=
  match logs.getLast? with
  | none => some []
  | some last => do
    let (numbered, isSorted) := numberLogs logs.dropLast 0
    let logs := numbered ++ [last]
    let logs ← if isSorted then some logs else sortByBlockNumber logs
    regroup it node (logs.zip (lastOfBlock logs)) [] []

/-! ## What it is for -/

/-- The logs of a page, with the number of the block before them where they have none. -/
def numberedLogs (logs : List RpcLog) : List RpcLog := (numberLogs logs 0).1

/-- The blocks have increasing numbers, and each has the logs with its number in their order. No log
is left out. -/
structure BlocksOf (logs : List RpcLog) (blocks : List BlockLogs) : Prop where
  increasing : blocks.Pairwise fun b c => b.summary.number < c.summary.number
  logs_eq : ∀ b ∈ blocks, b.logs =
    (logs.filter fun log => log.blockNumber = some b.summary.number).map RpcLog.log
  complete : ∀ log ∈ logs, ∃ b ∈ blocks, log.blockNumber = some b.summary.number

/-- There are blocks, and they are those of the logs. -/
def SplitsByBlock (result : Option (List BlockLogs)) (logs : List RpcLog) : Prop :=
  ∃ blocks, result = some blocks ∧ BlocksOf (numberedLogs logs) blocks

def blockNumbers (logs : List RpcLog) : List ℕ := (numberedLogs logs).filterMap RpcLog.blockNumber

/-- The last log has a block number, which is not below those before it if these are in order. -/
def LastInOrder (logs : List RpcLog) : Prop :=
  ∀ last, logs.getLast? = some last → ∃ n, last.blockNumber = some n ∧
    ((blockNumbers logs.dropLast).Pairwise (· ≤ ·) → ∀ m ∈ blockNumbers logs.dropLast, m ≤ n)

/-! ## Numbers -/

section Numbers

variable {logs : List RpcLog} {prev : ℕ}

/-- The number of a log that has one. -/
def RpcLog.number (log : RpcLog) : ℕ := log.blockNumber.getD 0

/-- All logs have numbers. -/
def Numbered (logs : List RpcLog) : Prop := ∀ log ∈ logs, log.blockNumber = some log.number

theorem RpcLog.number_eq_iff {log : RpcLog} {n : ℕ} (h : log.blockNumber = some log.number) :
    log.number = n ↔ log.blockNumber = some n := by
  rw [h, Option.some.injEq]

theorem numberLogs_cons (log : RpcLog) : (numberLogs (log :: logs) prev).1 =
    { log with blockNumber := some (log.blockNumber.getD prev) } ::
      (numberLogs logs (log.blockNumber.getD prev)).1 := rfl

theorem numbered_numberLogs : Numbered (numberLogs logs prev).1 := by
  induction logs generalizing prev with
  | nil => exact fun log hlog => absurd hlog List.not_mem_nil
  | cons log logs ih => exact List.forall_mem_cons.mpr ⟨rfl, ih⟩

theorem Numbered.filterMap (h : Numbered logs) :
    logs.filterMap RpcLog.blockNumber = logs.map RpcLog.number := by
  rw [← List.filterMap_eq_map]
  exact List.filterMap_congr h

/-- Numbers that are not below the one before them are in order. -/
theorem isSorted_numberLogs : (numberLogs logs prev).2 = true ↔
    (prev :: (numberLogs logs prev).1.map RpcLog.number).Pairwise (· ≤ ·) := by
  induction logs generalizing prev with
  | nil => simp [numberLogs]
  | cons log logs ih =>
    rw [numberLogs, Bool.and_eq_true, decide_eq_true_eq, ih, List.map_cons]
    change prev ≤ log.blockNumber.getD prev ∧ (log.blockNumber.getD prev :: _).Pairwise (· ≤ ·) ↔
      (prev :: log.blockNumber.getD prev :: _).Pairwise (· ≤ ·)
    simp only [← List.isChain_iff_pairwise, List.isChain_cons_cons]

theorem numberLogs_append_singleton (last : RpcLog) {n : ℕ} (hlast : last.blockNumber = some n) :
    (numberLogs (logs ++ [last]) prev).1 = (numberLogs logs prev).1 ++ [last] := by
  induction logs generalizing prev with
  | nil =>
    cases last
    cases hlast
    rfl
  | cons log logs ih =>
    rw [List.cons_append, numberLogs_cons, numberLogs_cons, ih, List.cons_append]

end Numbers

/-! ## Regrouping -/

section Regroup

variable {it : InfiniteLogIter} {node : Node} {logs : List RpcLog}

/-- A last log without number is met at the latest in the end. -/
theorem regroup_eq_none {last : RpcLog} (hlast : last.blockNumber = none)
    (h : logs.getLast? = some last) (currentLogs : List RpcLog) (blocksLogs : List BlockLogs) :
    regroup it node (logs.zip (lastOfBlock logs)) currentLogs blocksLogs = none := by
  induction logs generalizing currentLogs blocksLogs with
  | nil => cases h
  | cons log logs ih =>
    cases logs with
    | nil =>
      obtain rfl : log = last := Option.some.inj h
      simp [lastOfBlock, regroup, hlast]
    | cons next logs =>
      rw [List.getLast?_cons_cons] at h
      rw [lastOfBlock, List.zip_cons_cons]
      cases next.blockNumber != log.blockNumber with
      | false => exact ih h _ _
      | true =>
        cases hnumber : log.blockNumber with
        | none => simp [regroup, hnumber]
        | some n => simpa [regroup, hnumber] using ih h _ _

/-- The block of a run of logs with one number. -/
structure BlockOfRun (run : List RpcLog) (b : BlockLogs) : Prop where
  nonempty : run ≠ []
  logs_eq : b.logs = run.map RpcLog.log
  number : ∀ log ∈ run, log.blockNumber = some b.summary.number

theorem BlockOfRun.number_eq {run : List RpcLog} {b : BlockLogs} (h : BlockOfRun run b)
    {log : RpcLog} (hlog : log ∈ run) : log.number = b.summary.number := by
  rw [RpcLog.number, h.number log hlog, Option.getD_some]

/-- What the node says about a number is about the block with this number. -/
def NumbersAnswered (node : Node) : Prop :=
  ∀ n summary, node.getBlockByNumber n = some summary → summary.number = n

theorem number_rpcBlock (hnode : NumbersAnswered node) (run : List RpcLog) (last : RpcLog) (n : ℕ)
    (previousBlock : Option BlockLogs) :
    (rpcBlock it node run last n previousBlock).summary.number = n := by
  unfold rpcBlock deduceBlockSummary
  dsimp only
  split
  · next summary h => simpa using List.find?_some h
  · split
    · next summary h => exact hnode n summary h
    · rfl

theorem blockOfRun_rpcBlock (hnode : NumbersAnswered node) {run : List RpcLog} {last : RpcLog}
    {n : ℕ} (hne : run ≠ []) (hrun : ∀ log ∈ run, log.blockNumber = some n)
    (previousBlock : Option BlockLogs) :
    BlockOfRun run (rpcBlock it node run last n previousBlock) where
  nonempty := hne
  logs_eq := rfl
  number log hlog := by rw [number_rpcBlock hnode, hrun log hlog]

/-- The third loop puts out one block for each run. The induction is on the logs that are left, and
the current logs have the number of the first of these. -/
theorem regroup_runs (hnode : NumbersAnswered node) (hlogs : Numbered logs)
    {currentLogs : List RpcLog} (hcurrent : ∀ log ∈ currentLogs, ∃ first ∈ logs.head?,
      log.blockNumber = first.blockNumber) (blocksLogs : List BlockLogs) :
    ∃ blocks, regroup it node (logs.zip (lastOfBlock logs)) currentLogs blocksLogs =
        some (blocksLogs ++ blocks) ∧
      List.Forall₂ BlockOfRun (runs RpcLog.number (currentLogs ++ logs)) blocks := by
  induction logs generalizing currentLogs blocksLogs with
  | nil =>
    have hnil : currentLogs = [] := by
      rw [List.eq_nil_iff_forall_not_mem]
      intro log hlog
      obtain ⟨_, hfirst, -⟩ := hcurrent log hlog
      cases hfirst
    subst hnil
    exact ⟨[], by simp [lastOfBlock, regroup], .nil⟩
  | cons log logs ih =>
    obtain ⟨hlog, hlogs⟩ := List.forall_mem_cons.mp hlogs
    have hrun : ∀ l ∈ currentLogs ++ [log], l.blockNumber = some log.number := by
      intro l hl
      obtain hl | hl := List.mem_append.mp hl
      · obtain ⟨_, hfirst, heq⟩ := hcurrent l hl
        obtain rfl := Option.some.inj hfirst
        exact heq.trans hlog
      · obtain rfl := List.mem_singleton.mp hl
        exact hlog
    have hnumber : ∀ l ∈ currentLogs ++ [log], l.number = log.number := by
      intro l hl
      rw [RpcLog.number, hrun l hl, Option.getD_some]
    have hsingle : runs RpcLog.number (currentLogs ++ [log]) = [currentLogs ++ [log]] :=
      runs_of_const (by simp) fun a ha b hb => (hnumber a ha).trans (hnumber b hb).symm
    have hblock : ∀ previousBlock, BlockOfRun (currentLogs ++ [log])
        (rpcBlock it node (currentLogs ++ [log]) log log.number previousBlock) :=
      blockOfRun_rpcBlock hnode (by simp) hrun
    cases logs with
    | nil =>
      refine ⟨[rpcBlock it node (currentLogs ++ [log]) log log.number blocksLogs.getLast?], ?_, ?_⟩
      · simp [lastOfBlock, regroup, hlog]
      · rw [hsingle]
        exact .cons (hblock _) .nil
    | cons next logs =>
      have hnext : next.blockNumber = some next.number := hlogs next List.mem_cons_self
      rw [lastOfBlock, List.zip_cons_cons]
      by_cases hsame : next.blockNumber = log.blockNumber
      · have hmark : (next.blockNumber != log.blockNumber) = false := by simp [hsame]
        rw [hmark, List.append_cons]
        apply ih hlogs
        intro l hl
        exact ⟨next, rfl, (hrun l hl).trans (hlog.symm.trans hsame.symm)⟩
      · have hmark : (next.blockNumber != log.blockNumber) = true := by simpa using hsame
        have hne : log.number ≠ next.number := by
          intro heq
          rw [hnext, hlog, heq] at hsame
          exact hsame rfl
        have hsplit : runs RpcLog.number (currentLogs ++ log :: next :: logs) =
            (currentLogs ++ [log]) :: runs RpcLog.number (next :: logs) := by
          rw [List.append_cons, runs_append, hsingle, List.singleton_append]
          intro a ha b hb
          obtain rfl : b = next := (Option.some.inj hb).symm
          rwa [hnumber a (List.mem_of_mem_getLast? ha)]
        obtain ⟨blocks, hblocks, hall⟩ := ih hlogs (List.forall_mem_nil _)
          (blocksLogs ++ [rpcBlock it node (currentLogs ++ [log]) log log.number
            blocksLogs.getLast?])
        refine ⟨rpcBlock it node (currentLogs ++ [log]) log log.number
          blocksLogs.getLast? :: blocks, ?_, ?_⟩
        · rw [hmark, regroup, hlog, Option.bind_eq_bind, Option.bind_some, hblocks,
            List.append_assoc, List.singleton_append]
        · rw [hsplit]
          exact .cons (hblock _) hall

end Regroup

/-! ## The pass as a whole -/

section Pass

variable {it : InfiniteLogIter} {node : Node} {logs : List RpcLog} {blocks : List BlockLogs}

theorem pairwise_iff_of_forall₂ {α β : Type} {r : α → β → Prop} {p : α → α → Prop}
    {q : β → β → Prop} (hpq : ∀ a a' b b', r a b → r a' b' → (p a a' ↔ q b b')) {as : List α}
    {bs : List β} (h : List.Forall₂ r as bs) : as.Pairwise p ↔ bs.Pairwise q := by
  induction h with
  | nil => simp
  | cons hab htail ih =>
    rw [List.pairwise_cons, List.pairwise_cons, ih]
    apply and_congr_left'
    constructor
    · intro hall b' hb'
      obtain ⟨a', ha', hr⟩ := Worker.forall₂_exists_left htail hb'
      exact (hpq _ _ _ _ hab hr).mp (hall a' ha')
    · intro hall a' ha'
      obtain ⟨b', hb', hr⟩ := Worker.forall₂_exists_right htail ha'
      exact (hpq _ _ _ _ hab hr).mpr (hall b' hb')

theorem BlockOfRun.keysBelow_iff {run run' : List RpcLog} {b b' : BlockLogs} (h : BlockOfRun run b)
    (h' : BlockOfRun run' b') :
    KeysBelow RpcLog.number run run' ↔ b.summary.number < b'.summary.number := by
  constructor
  · intro hbelow
    obtain ⟨log, hlog⟩ := List.exists_mem_of_ne_nil run h.nonempty
    obtain ⟨log', hlog'⟩ := List.exists_mem_of_ne_nil run' h'.nonempty
    have hlt := hbelow log hlog log' hlog'
    rwa [h.number_eq hlog, h'.number_eq hlog'] at hlt
  · intro hlt log hlog log' hlog'
    rwa [h.number_eq hlog, h'.number_eq hlog']

theorem filter_number (hlogs : Numbered logs) (n : ℕ) :
    logs.filter (fun log => log.number = n) = logs.filter fun log => log.blockNumber = some n := by
  apply List.filter_congr
  intro log hlog
  exact decide_eq_decide.mpr (RpcLog.number_eq_iff (hlogs log hlog))

/-- The blocks of the runs are those of the logs just if the logs are in order. -/
theorem blocksOf_iff (hlogs : Numbered logs)
    (h : List.Forall₂ BlockOfRun (runs RpcLog.number logs) blocks) :
    BlocksOf logs blocks ↔ logs.Pairwise fun a b => a.number ≤ b.number := by
  have hpairwise : (runs RpcLog.number logs).Pairwise (KeysBelow RpcLog.number) ↔
      blocks.Pairwise fun b c => b.summary.number < c.summary.number :=
    pairwise_iff_of_forall₂ (fun _ _ _ _ h h' => h.keysBelow_iff h') h
  rw [← pairwise_runs_iff, hpairwise]
  refine ⟨fun hblocks => hblocks.increasing, fun hincreasing => ⟨hincreasing, ?_, ?_⟩⟩
  · intro b hb
    obtain ⟨run, hrun, hblock⟩ := Worker.forall₂_exists_left h hb
    obtain ⟨log, hlog⟩ := List.exists_mem_of_ne_nil run hblock.nonempty
    have hordered := pairwise_runs_iff.mp (hpairwise.mpr hincreasing)
    rw [hblock.logs_eq, ← filter_of_mem_runs hordered hrun hlog, hblock.number_eq hlog,
      filter_number hlogs]
  · intro log hlog
    rw [← @flatten_runs _ _ _ RpcLog.number logs] at hlog
    obtain ⟨run, hrun, hlog⟩ := List.mem_flatten.mp hlog
    obtain ⟨b, hb, hblock⟩ := Worker.forall₂_exists_right h hrun
    exact ⟨b, hb, hblock.number log hlog⟩

/-- The same blocks are those of the logs in another order, if the logs of each block stay in
theirs. -/
theorem BlocksOf.congr {logs' : List RpcLog}
    (hfilter : ∀ n, (logs.filter fun log => log.blockNumber = some n) =
      logs'.filter fun log => log.blockNumber = some n)
    (hmem : ∀ log, log ∈ logs ↔ log ∈ logs') : BlocksOf logs blocks ↔ BlocksOf logs' blocks := by
  constructor
  · intro h
    exact ⟨h.increasing, fun b hb => hfilter _ ▸ h.logs_eq b hb,
      fun log hlog => h.complete log ((hmem log).mpr hlog)⟩
  · intro h
    exact ⟨h.increasing, fun b hb => (hfilter _).symm ▸ h.logs_eq b hb,
      fun log hlog => h.complete log ((hmem log).mp hlog)⟩

/-- The pass panics at the latest on a last log without number. -/
theorem splitRpcLogs_eq_none {last : RpcLog} {before : List RpcLog}
    (hlast : last.blockNumber = none) :
    splitRpcLogs it node (before ++ [last]) = none := by
  simp only [splitRpcLogs, List.getLast?_concat, List.dropLast_concat]
  split_ifs
  · exact regroup_eq_none hlast List.getLast?_concat [] []
  · have hsort : sortByBlockNumber ((numberLogs before 0).1 ++ [last]) = none := by
      simp [sortByBlockNumber, hlast]
    rw [hsort]
    rfl

/-- The logs that the third loop gets from a page with a numbered last log. -/
theorem splitRpcLogs_eq {last : RpcLog} {before : List RpcLog} {n : ℕ}
    (hlast : last.blockNumber = some n) : splitRpcLogs it node (before ++ [last]) =
      let logs := if (numberLogs before 0).2 then numberedLogs (before ++ [last])
        else (numberedLogs (before ++ [last])).mergeSort fun a b => decide (a.number ≤ b.number)
      regroup it node (logs.zip (lastOfBlock logs)) [] [] := by
  have hlogs : numberedLogs (before ++ [last]) = (numberLogs before 0).1 ++ [last] :=
    numberLogs_append_singleton last hlast
  simp only [splitRpcLogs, List.getLast?_concat, List.dropLast_concat, hlogs]
  split_ifs
  · rfl
  · have hall : ∀ log ∈ (numberLogs before 0).1 ++ [last], log.blockNumber.isSome = true := by
      intro log hlog
      obtain hlog | hlog := List.mem_append.mp hlog
      · rw [numbered_numberLogs log hlog]
        rfl
      · rw [List.mem_singleton.mp hlog, hlast]
        rfl
    rw [sortByBlockNumber, guard, if_pos hall]
    rfl

/-- The numbers before the last log are in order just if the first loop finds them so. -/
theorem isSorted_iff (before : List RpcLog) :
    (numberLogs before 0).2 = true ↔ (blockNumbers before).Pairwise (· ≤ ·) := by
  rw [isSorted_numberLogs, List.pairwise_cons, blockNumbers, numberedLogs,
    numbered_numberLogs.filterMap]
  exact and_iff_right fun _ _ => Nat.zero_le _

end Pass

/-! ## Logs with block numbers -/

section Chain

variable {it : InfiniteLogIter} {node : Node}

/-- A log with its block number and block hash, as the node sends it. -/
def ChainLog.rpc (log : ChainLog) : RpcLog := ⟨log.log, some log.blockNumber, some log.blockHash⟩

theorem regroup_last (log : ChainLog) (logs : List (RpcLog × Bool)) (currentLogs : List ChainLog)
    (blocksLogs : List BlockLogs) :
    regroup it node ((log.rpc, true) :: logs) (currentLogs.map ChainLog.rpc) blocksLogs =
      regroup it node logs [] (it.appendGroup node blocksLogs (currentLogs ++ [log])) := by
  have hcurrent : currentLogs.map ChainLog.rpc ++ [log.rpc] =
      (currentLogs ++ [log]).map ChainLog.rpc := by simp
  rw [appendGroup, List.getLast?_concat, regroup, hcurrent]
  simp only [rpcBlock, List.map_map]
  rfl

/-- The third loop makes a block of each group, where the first one has the current logs too. -/
theorem regroup_rpc (log : ChainLog) (logs currentLogs : List ChainLog)
    (blocksLogs : List BlockLogs) {group : List ChainLog} {groups : List (List ChainLog)}
    (hgroups : groupByBlock (log :: logs) = group :: groups) :
    regroup it node (((log :: logs).map ChainLog.rpc).zip
        (lastOfBlock ((log :: logs).map ChainLog.rpc))) (currentLogs.map ChainLog.rpc) blocksLogs =
      some (((currentLogs ++ group) :: groups).foldl (it.appendGroup node) blocksLogs) := by
  induction logs generalizing log currentLogs blocksLogs group groups with
  | nil =>
    obtain ⟨rfl, rfl⟩ := List.cons.inj hgroups
    exact regroup_last log [] currentLogs blocksLogs
  | cons next logs ih =>
    obtain ⟨nextGroup, nextGroups, hnext⟩ := groupByBlock_cons next logs
    rw [groupByBlock, hnext] at hgroups
    have hmarks : ((log :: next :: logs).map ChainLog.rpc).zip
        (lastOfBlock ((log :: next :: logs).map ChainLog.rpc)) =
        (log.rpc, some next.blockNumber != some log.blockNumber) ::
          ((next :: logs).map ChainLog.rpc).zip
            (lastOfBlock ((next :: logs).map ChainLog.rpc)) := rfl
    rw [hmarks]
    by_cases hsame : next.blockNumber = log.blockNumber
    · obtain ⟨rfl, rfl⟩ := List.cons.inj ((if_pos hsame).symm.trans hgroups)
      have hmark : (some next.blockNumber != some log.blockNumber) = false := by simpa using hsame
      have hregroup := ih next (currentLogs ++ [log]) blocksLogs hnext
      rw [List.append_assoc, List.singleton_append, List.map_append] at hregroup
      rw [hmark]
      exact hregroup
    · obtain ⟨rfl, rfl⟩ := List.cons.inj ((if_neg hsame).symm.trans hgroups)
      have hmark : (some next.blockNumber != some log.blockNumber) = true := by simpa using hsame
      rw [hmark, regroup_last, List.foldl_cons]
      exact ih next [] _ hnext

theorem numberLogs_rpc (logs : List ChainLog) (prev : ℕ) :
    (numberLogs (logs.map ChainLog.rpc) prev).1 = logs.map ChainLog.rpc := by
  induction logs generalizing prev with
  | nil => rfl
  | cons log logs ih => rw [List.map_cons, numberLogs_cons, ih]; rfl

/-- Where the node leaves no block number out, the pass is that over numbered logs. -/
theorem splitRpcLogs_rpc (it : InfiniteLogIter) (node : Node) (logs : List ChainLog) :
    splitRpcLogs it node (logs.map ChainLog.rpc) = some (it.splitByBlock node logs) := by
  obtain rfl | ⟨before, last, rfl⟩ := List.eq_nil_or_concat' logs
  · rfl
  have hregroup (logs : List ChainLog) : regroup it node ((logs.map ChainLog.rpc).zip
      (lastOfBlock (logs.map ChainLog.rpc))) [] [] =
        some ((groupByBlock logs).foldl (it.appendGroup node) []) := by
    cases logs with
    | nil => rfl
    | cons log logs =>
      obtain ⟨group, groups, hgroups⟩ := groupByBlock_cons log logs
      rw [hgroups]
      exact regroup_rpc log logs [] [] hgroups
  have hsorted : (numberLogs (before.map ChainLog.rpc) 0).2 =
      decide ((before.map ChainLog.blockNumber).Pairwise (· ≤ ·)) := by
    have hnumbers : RpcLog.blockNumber ∘ ChainLog.rpc = some ∘ ChainLog.blockNumber := rfl
    rw [Bool.eq_iff_iff, isSorted_iff, decide_eq_true_eq, blockNumbers, numberedLogs,
      numberLogs_rpc, List.filterMap_map, hnumbers, List.filterMap_eq_map]
  have hnumbered : numberedLogs ((before ++ [last]).map ChainLog.rpc) =
      (before ++ [last]).map ChainLog.rpc := numberLogs_rpc _ _
  rw [splitByBlock, List.dropLast_concat, ← hregroup]
  rw [List.map_append, List.map_cons, List.map_nil] at hnumbered ⊢
  have hsplit := @splitRpcLogs_eq it node last.rpc (before.map ChainLog.rpc) _ rfl
  rw [hsplit, hsorted, hnumbered]
  split_ifs
  · simp only [List.map_append, List.map_cons, List.map_nil]
  · have hsort := @List.map_mergeSort _ _ (fun a b => decide (a.blockNumber ≤ b.blockNumber))
      (fun a b : RpcLog => decide (a.number ≤ b.number)) ChainLog.rpc (before ++ [last])
      fun _ _ _ _ => rfl
    rw [hsort, List.map_append, List.map_cons, List.map_nil]

end Chain

/-! ## The pages that split -/

section Pages

/-- A page splits into its blocks just if its last log is numbered and not below the others, unless
these are out of order themselves. -/
theorem splitsByBlock_iff (hnode : NumbersAnswered node) (it : InfiniteLogIter)
    (logs : List RpcLog) : SplitsByBlock (splitRpcLogs it node logs) logs ↔ LastInOrder logs := by
  obtain rfl | ⟨before, last, rfl⟩ := List.eq_nil_or_concat' logs
  · refine iff_of_true ⟨[], rfl, .nil, ?_, ?_⟩ (fun _ h => by cases h)
    · simp
    · simp [numberedLogs, numberLogs]
  have hgetLast : (before ++ [last]).getLast? = some last := List.getLast?_concat
  have hdropLast : (before ++ [last]).dropLast = before := List.dropLast_concat
  cases hlast : last.blockNumber with
  | none =>
    refine iff_of_false ?_ ?_
    · rintro ⟨blocks, hsplit, -⟩
      rw [splitRpcLogs_eq_none hlast] at hsplit
      cases hsplit
    · intro h
      obtain ⟨n, hn, -⟩ := h last hgetLast
      rw [hlast] at hn
      cases hn
  | some n =>
    have hnumbered : Numbered (numberedLogs (before ++ [last])) := numbered_numberLogs
    have hlogs : numberedLogs (before ++ [last]) = numberedLogs before ++ [last] :=
      numberLogs_append_singleton last hlast
    have hlastInOrder : LastInOrder (before ++ [last]) ↔
        ((blockNumbers before).Pairwise (· ≤ ·) → ∀ m ∈ blockNumbers before, m ≤ n) := by
      simp [LastInOrder, hlast]
    rw [SplitsByBlock, splitRpcLogs_eq hlast, hlastInOrder]
    by_cases hsorted : (blockNumbers before).Pairwise (· ≤ ·)
    · rw [if_pos ((isSorted_iff before).mpr hsorted)]
      obtain ⟨blocks, hblocks, hall⟩ :=
        @regroup_runs it node _ hnode hnumbered [] (List.forall_mem_nil _) []
      have hbefore : blockNumbers before = (numberedLogs before).map RpcLog.number :=
        numbered_numberLogs.filterMap
      have hlastNumber : last.number = n := by rw [RpcLog.number, hlast, Option.getD_some]
      simp only [hblocks, List.nil_append, Option.some.injEq, exists_eq_left']
      rw [blocksOf_iff hnumbered hall, hlogs, List.pairwise_append, forall_prop_of_true hsorted]
      rw [hbefore, List.pairwise_map] at hsorted
      simp [hsorted, hbefore, hlastNumber]
    · rw [if_neg (mt (isSorted_iff before).mp hsorted)]
      refine iff_of_true ?_ fun h => absurd h hsorted
      have hmem : ∀ log, log ∈ (numberedLogs (before ++ [last])).mergeSort
          (fun a b => decide (a.number ≤ b.number)) ↔ log ∈ numberedLogs (before ++ [last]) :=
        fun log => List.mem_mergeSort
      have hnumbered' : Numbered ((numberedLogs (before ++ [last])).mergeSort
          fun a b => decide (a.number ≤ b.number)) :=
        fun log hlog => hnumbered log ((hmem log).mp hlog)
      obtain ⟨blocks, hblocks, hall⟩ :=
        @regroup_runs it node _ hnode hnumbered' [] (List.forall_mem_nil _) []
      refine ⟨blocks, hblocks, (BlocksOf.congr ?_ hmem).mp
        ((blocksOf_iff hnumbered' hall).mpr (pairwise_mergeSort_key _))⟩
      intro m
      have hfilter := @filter_mergeSort _ _ _ RpcLog.number (numberedLogs (before ++ [last])) m
      rw [← filter_number hnumbered, ← filter_number hnumbered', hfilter]

/-! ### Two pages -/

def silentNode : Node where
  getBlockNumber := none
  getLogs _ _ := .error .other
  getBlockByNumber _ := none
  getBlock _ := none
  getLogsAtHash _ := none
  getCurrentBlock := none
  next := .timeout

theorem numbersAnswered_silentNode : NumbersAnswered silentNode := fun _ _ h => by cases h

def sampleLog (blockNumber : Option ℕ) : RpcLog := ⟨⟨1, .other, []⟩, blockNumber, some [7]⟩

/-- The log without number is of block 4. -/
theorem splitsByBlock_iff_sample : SplitsByBlock
    (splitRpcLogs (.new none) silentNode [sampleLog (some 4), sampleLog none, sampleLog (some 5)])
    [sampleLog (some 4), sampleLog none, sampleLog (some 5)] := by
  rw [splitsByBlock_iff numbersAnswered_silentNode]
  rintro _ ⟨⟩
  exact ⟨5, rfl, fun _ => by decide⟩

/-- If the last two blocks come the other way round, they stay so. If the last log has no number,
the pass panics. -/
theorem not_splitsByBlock :
    ¬ SplitsByBlock (splitRpcLogs (.new none) silentNode [sampleLog (some 5), sampleLog (some 4)])
      [sampleLog (some 5), sampleLog (some 4)] ∧
    ¬ SplitsByBlock (splitRpcLogs (.new none) silentNode [sampleLog (some 4), sampleLog none])
      [sampleLog (some 4), sampleLog none] := by
  constructor
  · rintro ⟨blocks, hblocks, hsplits⟩
    obtain rfl := Option.some.inj hblocks
    exact absurd hsplits.increasing (by decide)
  · rintro ⟨blocks, hblocks, -⟩
    cases hblocks

end Pages

end Fhevm.Listener
