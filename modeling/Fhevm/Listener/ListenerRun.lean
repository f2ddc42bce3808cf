import Fhevm.Foundation.ForkTree
import Fhevm.Listener.LogIter

/-!
# Runs of the host listener

The listener reads blocks, records them, and may be killed and started again at any time. On a
start it resumes a margin below the last block that it has recorded. Around it the chain grows and
is reorganised, and the node and the database fail.

## Main definitions

* `World`, `Honest` — the blocks of the chain with all forks, and a node that does not lie.
* `ListenerSystem`, `ListenerSystem.step` — the database, the listener and the chain.
* `Recorded`, `NoEventLoss` — the events of a block are in the tables, and none is lost.
* `GoodStep`, `GoodRun` — a step that skips nothing, and runs of such steps.
-/

namespace Fhevm.Listener

open Foundation Host Worker

/-! ## The chain -/

/-- All blocks that ever exist, with the logs of the contracts. -/
structure World where
  block : Handle → Option BlockLogs
  hash_block : ∀ {h b}, block h = some b → b.summary.hash = h
  number_parent : ∀ {h b p}, block h = some b → block b.summary.parentHash = some p →
    p.summary.number + 1 = b.summary.number
  block_zero : block BLOCK_HASH_ZERO = none

namespace World

variable (W : World)

def Contains (b : BlockLogs) : Prop := W.block b.summary.hash = some b

instance (b : BlockLogs) : Decidable (W.Contains b) := inferInstanceAs (Decidable (_ = _))

def tree : ForkTree BlockLogs where
  parent b := if W.Contains b then W.block b.summary.parentHash else none
  number b := b.summary.number
  number_parent := by
    intro b p h
    split at h
    · next hb => exact W.number_parent hb h
    · cases h

variable {W}

theorem parent_eq_some {b p : BlockLogs} :
    W.tree.parent b = some p ↔ W.Contains b ∧ W.block b.summary.parentHash = some p := by
  change (if W.Contains b then W.block b.summary.parentHash else none) = some p ↔ _
  split_ifs with hb <;> simp [hb]

theorem contains_of_block {h : Handle} {b : BlockLogs} (hb : W.block h = some b) : W.Contains b := by
  rw [Contains, W.hash_block hb]
  exact hb

theorem contains_of_ancestor {a b : BlockLogs} (h : W.tree.Ancestor a b) (hb : W.Contains b) :
    W.Contains a := by
  induction h with
  | refl => exact hb
  | step hparent _ ih => exact ih (contains_of_block (parent_eq_some.mp hparent).2)

end World

/-- The logs of a block as a node sends them. -/
def BlockLogs.chainLogs (b : BlockLogs) : List ChainLog :=
  b.logs.map fun log => ⟨log, b.summary.number, b.summary.hash⟩

/-- A node answers with blocks of the chain, or not at all. Ranges are of the canonical chain. -/
structure Honest (W : World) (tip : BlockLogs) (node : Node) : Prop where
  getLogs : ∀ {fromBlock toBlock logs}, node.getLogs fromBlock toBlock = .ok logs →
    ∃ blocks : List BlockLogs,
      (∀ b, b ∈ blocks ↔
        W.tree.Ancestor b tip ∧ fromBlock ≤ b.summary.number ∧ b.summary.number ≤ toBlock) ∧
      blocks.Pairwise (fun b c => b.summary.number < c.summary.number) ∧
      logs = blocks.flatMap BlockLogs.chainLogs
  getBlockByNumber : ∀ {n summary}, node.getBlockByNumber n = some summary → summary.number = n
  getBlock : ∀ {h summary}, node.getBlock h = some summary →
    ∃ b, W.block h = some b ∧ b.summary = summary
  getLogsAtHash : ∀ {h logs}, node.getLogsAtHash h = some logs →
    ∃ b, W.block h = some b ∧ b.logs = logs
  getCurrentBlock : ∀ {summary}, node.getCurrentBlock = some summary →
    ∃ b, W.Contains b ∧ b.summary = summary
  next : ∀ {summary}, node.next = .header summary → ∃ b, W.Contains b ∧ b.summary = summary

/-! ## The database -/

variable (K : ListenerConfig)

/-- `SELECT MAX(block_number) FROM host_chain_blocks_valid WHERE chain_id = $1` -/
def readLastValidBlock (db : ListenerDb) : Option ℤ :=
  ((db.hostChainBlocksValid.rows.filter fun row => row.chainId = K.chainId).map
    BlockValid.blockNumber).max?

/-- The transaction of a block with its retries, when the first attempts fail. -/
def dbInsertBlockFrom (now : ℕ) (db : ListenerDb) (block : BlockLogs) : ℕ → ℕ → ListenerDb
  | _, 0 => dbInsertBlockNoRetry K now db block
  | 0, _ + 1 => db
  | retries + 1, failures + 1 => dbInsertBlockFrom now db block retries failures

def DB_INSERT_RETRIES : ℕ := 10

def dbInsertBlock (now : ℕ) (db : ListenerDb) (block : BlockLogs) (failures : ℕ) : ListenerDb :=
  dbInsertBlockFrom K now db block DB_INSERT_RETRIES failures

/-- All rows of a block are in the tables, or rows that were there before under their keys. -/
structure Recorded (db : ListenerDb) (b : BlockLogs) : Prop where
  computations : ∀ c ∈ computationRows K 0 b, c.key ∈ db.computations.rows.map Computation.key
  allowedHandles : ∀ a ∈ allowedHandleRows K b, a.key ∈ db.allowedHandles.rows.map AllowedHandle.key
  pbsComputations :
    ∀ p ∈ pbsComputationRows K b, p.key ∈ db.pbsComputations.rows.map PbsComputation.key

/-! ## The system -/

variable (A : Args)

/-- The database, the listener if it runs, and the last block of the canonical chain. What the
catch-up has asked for is kept to state what may go wrong: the canonical chain at that time, and
the number up to which its blocks have been read. -/
structure ListenerSystem where
  db : ListenerDb
  listener : Option InfiniteLogIter
  tip : BlockLogs
  seenTip : BlockLogs
  seenTo : ℕ

inductive ListenerInput
  /-- The chain grows or is reorganised. -/
  | chain (tip : BlockLogs)
  /-- The listener is started; the last valid block can be read or not. -/
  | start (startAtBlock : Option ℤ) (readable : Bool)
  | kill
  /-- A turn of the loop, and the insertion of the block that it gives, after some failures. -/
  | turn (node : Node) (attempts now failures : ℕ)

/-- What has been asked for after a turn. A page above the chain brings nothing. -/
def seenAfter (s : ListenerSystem) (it : InfiniteLogIter) (attempts : ℕ) (node : Node) :
    BlockLogs × ℕ :=
  if it.stream = false then (s.tip, it.catchupBlockFrom A node)
  else if it.nextBlocklogs = [] then
    match it.catchupBlocks with
    | none => (s.seenTip, s.seenTo)
    | some (fromBlock, toBlock) =>
      match InfiniteLogIter.fetchPage node toBlock attempts A.catchupPaging fromBlock with
      | some (fromBlock, some (pagingToBlock, _)) =>
        if fromBlock ≤ s.tip.summary.number then (s.tip, pagingToBlock + 1)
        else (s.seenTip, s.seenTo)
      | _ => (s.seenTip, s.seenTo)
  else (s.seenTip, s.seenTo)

def ListenerSystem.turn (s : ListenerSystem) (it : InfiniteLogIter) (node : Node)
    (attempts now failures : ℕ) : Option ListenerSystem :=
  (it.next A attempts node).map fun (it', result) =>
    let seen := seenAfter A s it attempts node
    match result with
    | .block blockLogs =>
      ⟨dbInsertBlock K now s.db blockLogs failures, some it', s.tip, seen.1, seen.2⟩
    | .finished => ⟨s.db, none, s.tip, seen.1, seen.2⟩
    | .again => ⟨s.db, some it', s.tip, seen.1, seen.2⟩

def ListenerSystem.step (s : ListenerSystem) : ListenerInput → Option ListenerSystem
  | .chain tip => some { s with tip := tip }
  | .start startAtBlock readable =>
    match s.listener with
    | some _ => none
    | none =>
      let startAtBlock :=
        match startAtBlock with
        | some n => some n
        | none =>
          (if readable then readLastValidBlock K s.db else none).map fun n => n - A.catchupMargin
      some { s with
        listener := some (InfiniteLogIter.new startAtBlock)
        seenTip := s.tip
        seenTo := 0 }
  | .kill => some { s with listener := none }
  | .turn node attempts now failures =>
    match s.listener with
    | some it => s.turn K A it node attempts now failures
    | none => none

/-- Every canonical block at least the margin below the last valid one has its events recorded. -/
def NoEventLoss (W : World) (s : ListenerSystem) : Prop :=
  ∀ b, W.tree.Ancestor b s.tip → ∀ m, readLastValidBlock K s.db = some m →
    (b.summary.number : ℤ) ≤ m - A.catchupMargin → Recorded K s.db b

/-- The chain stays within the world, and the node answers with what is there. -/
def Possible (W : World) (s : ListenerSystem) : ListenerInput → Prop
  | .chain tip => W.Contains tip
  | .turn node _ _ _ => Honest W s.tip node
  | _ => True

/-! ## Steps that skip nothing -/

/-- A reorganisation replaces no block that is the margin or more below a block that is recorded or
waits. -/
def ReorgWithinMargin (W : World) (s : ListenerSystem) (tip : BlockLogs) : Prop :=
  ∀ a, W.tree.Ancestor a tip →
    ((∃ m, readLastValidBlock K s.db = some m ∧
        (a.summary.number : ℤ) + A.catchupMargin ≤ m) ∨
      ∃ it q, s.listener = some it ∧ q ∈ it.nextBlocklogs ∧
        a.summary.number + A.catchupMargin ≤ q.summary.number) →
    W.tree.Ancestor a s.tip

/-- The catch-up starts no later than the margin below the last valid block; the first one of all
starts below all events. -/
def CatchupReaches (W : World) (s : ListenerSystem) (fromBlock : ℕ) : Prop :=
  match readLastValidBlock K s.db with
  | some m => (fromBlock : ℤ) ≤ m - A.catchupMargin + 1
  | none => ∀ a, W.tree.Ancestor a s.tip → a.summary.number < fromBlock → a.logs = []

/-- A block has a known ancestor not too far back, and the blocks in between can be read. -/
def ReachesKnown (node : Node) (h : BlockHistory) : ℕ → BlockSummary → Prop
  | n, block =>
    h.isKnown block.parentHash = true ∨ block.parentHash = BLOCK_HASH_ZERO ∨
      match n with
      | 0 => False
      | n + 1 => ∃ parent, node.getBlock block.parentHash = some parent ∧
          (node.getLogsAtHash parent.hash).isSome ∧ ReachesKnown node h n parent

/-- The block that the node streams, or its last one when it streams nothing. -/
def Streamed (node : Node) (b : BlockLogs) : Prop :=
  node.next = .header b.summary ∨ node.next = .timeout ∧ node.getCurrentBlock = some b.summary

/-- A streamed block continues what has been read, and is not on a fork deeper than the margin. -/
structure Attaches (W : World) (s : ListenerSystem) (h : BlockHistory) (seen : BlockLogs × ℕ)
    (node : Node) (b : BlockLogs) : Prop where
  /-- Once there is a history, the missing ancestors can be read. -/
  ready : h.isReadyToDetectReorg = true → ReachesKnown node h A.reorgMaximumDurationInBlocks b.summary
  /-- Before that, the parent is known or the catch-up has asked for it. -/
  unready : h.isReadyToDetectReorg = false → ∀ p, W.tree.parent b = some p →
    h.isKnown p.summary.hash = true ∨ W.tree.Ancestor p seen.1 ∧ p.summary.number < seen.2
  shallow : ∀ a, W.tree.Ancestor a s.tip →
    a.summary.number + A.catchupMargin ≤ b.summary.number → W.tree.Ancestor a b

structure GoodTurn (W : World) (s : ListenerSystem) (it : InfiniteLogIter) (node : Node)
    (attempts failures : ℕ) : Prop where
  connects : it.stream = false → CatchupReaches K A W s (it.catchupBlockFrom A node)
  /-- The node sends the logs of a smallest page, so the catch-up gives no block up. -/
  fetches : ∀ fromBlock toBlock, toBlock ≤ fromBlock + 1 →
    node.getLogs fromBlock toBlock ≠ .error .limited
  /-- Unless a page is above the chain, the chain below it has been asked for. -/
  continues : it.stream = true → it.nextBlocklogs = [] → ∀ fromBlock toBlock,
    it.catchupBlocks = some (fromBlock, toBlock) → fromBlock ≤ s.tip.summary.number →
      ∀ a, W.tree.Ancestor a s.tip → a.summary.number < fromBlock →
        W.tree.Ancestor a s.seenTip ∧ a.summary.number < s.seenTo
  attaches : ∀ b, W.Contains b → Streamed node b →
    Attaches A W s it.blockHistory (seenAfter A s it attempts node) node b
  /-- The insertion of a block with events fails at most as often as it is retried. -/
  inserts : ∀ it' blockLogs, it.next A attempts node = some (it', .block blockLogs) →
    blockLogs.logs ≠ [] → failures ≤ DB_INSERT_RETRIES

def GoodStep (W : World) (s : ListenerSystem) : ListenerInput → Prop
  | .chain tip => ReorgWithinMargin K A W s tip
  | .turn node attempts _ failures =>
    ∀ it, s.listener = some it → GoodTurn K A W s it node attempts failures
  | _ => True

/-- Nothing is recorded and the listener does not run. -/
structure Initial (W : World) (s : ListenerSystem) : Prop where
  contains_tip : W.Contains s.tip
  last : readLastValidBlock K s.db = none
  stopped : s.listener = none

/-- The states that allowed steps lead to. -/
inductive Run (allowed : ListenerSystem → ListenerInput → Prop) (s₀ : ListenerSystem) :
    List ListenerInput → ListenerSystem → Prop
  | nil : Run allowed s₀ [] s₀
  | snoc {is : List ListenerInput} {i : ListenerInput} {s s' : ListenerSystem} :
      Run allowed s₀ is s → allowed s i → s.step K A i = some s' →
        Run allowed s₀ (is ++ [i]) s'

/-- A run of which all steps skip nothing. -/
def GoodRun (W : World) : ListenerSystem → List ListenerInput → ListenerSystem → Prop :=
  Run K A fun s i => Possible W s i ∧ GoodStep K A W s i

end Fhevm.Listener
