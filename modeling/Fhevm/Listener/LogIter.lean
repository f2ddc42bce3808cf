import Fhevm.Listener.Ingestion

/-!
# Reading the blocks of a host chain

The listener reads a host chain through a node. When it connects it catches up: it asks for the
logs of ranges of block numbers, page by page. Then it follows the headers that the node streams,
and asks for the ancestors of a block that it does not know.

## Main definitions

* `Node` — what a node answers.
* `InfiniteLogIter` — the state of the iterator over the blocks.
* `catchupBlockFrom`, `consumeCatchupBlocks` — where the catch-up starts, and one page of it.
* `getMissingsAncestors`, `checkMissingAncestors` — the walk back from a block to a known one.
* `next` — one turn of the loop that waits for a block.
-/

namespace Fhevm.Listener

open Foundation

/-! ## The node -/

/-- A log as a node sends it for a range of blocks. -/
structure ChainLog where
  log : HostLog
  blockNumber : ℕ
  blockHash : Handle
deriving DecidableEq, Repr

inductive RpcError
  | limited | other
deriving DecidableEq, Repr

inductive StreamItem
  | header (summary : BlockSummary)
  | timeout
  /-- The node has closed the stream. -/
  | ended
deriving DecidableEq, Repr

/-- What a node answers during one turn of the loop. A question that has no answer has failed after
all retries. -/
structure Node where
  getBlockNumber : Option ℕ
  getLogs : ℕ → ℕ → Except RpcError (List ChainLog)
  getBlockByNumber : ℕ → Option BlockSummary
  getBlock : Handle → Option BlockSummary
  getLogsAtHash : Handle → Option (List HostLog)
  getCurrentBlock : Option BlockSummary
  next : StreamItem

/-! ## The history of blocks -/

def BLOCK_HASH_ZERO : Handle := List.replicate 32 0

def MAXIMUM_NUMBER_OF_COMPETING_CHAIN : ℕ := 5

def MINIMUM_HISTORY_SIZE : ℕ := 2

/-- Oldest block first. -/
abbrev BlockHistory := List BlockSummary

namespace BlockHistory

def isReadyToDetectReorg (h : BlockHistory) : Bool := decide (MINIMUM_HISTORY_SIZE ≤ h.length)

def isKnown (h : BlockHistory) (blockHash : Handle) : Bool := h.any fun b => b.hash = blockHash

def findBlockByNumber (h : BlockHistory) (number : ℕ) : Option BlockSummary :=
  h.reverse.find? fun b => b.number = number

def addBlock (capacity : ℕ) (h : BlockHistory) (block : BlockSummary) : BlockHistory :=
  (if h.length = capacity then h.drop 1 else h) ++ [block]

end BlockHistory

/-! ## The iterator -/

structure Args where
  endAtBlock : Option ℕ
  catchupMargin : ℕ
  catchupPaging : ℕ
  reorgMaximumDurationInBlocks : ℕ

structure InfiniteLogIter where
  /-- Where the next page of the catch-up starts, and where the catch-up ends. -/
  catchupBlocks : Option (ℕ × Option ℕ)
  nextBlocklogs : List BlockLogs
  stream : Bool
  /-- Nothing sets it. -/
  lastValidBlock : Option ℕ
  startAtBlock : Option ℤ
  blockHistory : BlockHistory

def InfiniteLogIter.new (startAtBlock : Option ℤ) : InfiniteLogIter where
  catchupBlocks := none
  nextBlocklogs := []
  stream := false
  lastValidBlock := none
  startAtBlock := startAtBlock
  blockHistory := []

variable (A : Args)

def historyCapacity : ℕ :=
  A.reorgMaximumDurationInBlocks * 2 * MAXIMUM_NUMBER_OF_COMPETING_CHAIN

namespace InfiniteLogIter

/-! ### Catching up -/

/-- A start that is negative counts from the last block of the node. -/
def catchupBlockFrom (it : InfiniteLogIter) (node : Node) : ℕ :=
  match it.lastValidBlock with
  | some lastSeenBlock => lastSeenBlock - A.catchupMargin + 1
  | none =>
    let fromLast (catchSize : ℕ) : ℕ :=
      match node.getBlockNumber with
      | some lastBlock => lastBlock - min catchSize lastBlock
      | none => 0
    match it.startAtBlock with
    | some startAtBlock =>
      if 0 ≤ startAtBlock then startAtBlock.toNat else fromLast (-startAtBlock).toNat
    | none => fromLast A.catchupMargin

def newLogStream (it : InfiniteLogIter) (node : Node) : InfiniteLogIter :=
  { it with
    catchupBlocks := some (it.catchupBlockFrom A node, A.endAtBlock)
    stream := true }

/-- The summary of a block of which only logs are known. -/
def deduceBlockSummary (it : InfiniteLogIter) (node : Node) (log : ChainLog)
    (previousBlock : Option BlockLogs) : BlockSummary :=
  match it.blockHistory.findBlockByNumber log.blockNumber with
  | some summary => summary
  | none =>
    match node.getBlockByNumber log.blockNumber with
    | some summary => summary
    | none =>
      ⟨log.blockNumber, log.blockHash,
        (previousBlock.map fun b => b.summary.hash).getD BLOCK_HASH_ZERO⟩

/-- Runs of logs with the same block number. -/
def groupByBlock : List ChainLog → List (List ChainLog)
  | [] => []
  | log :: logs =>
    match groupByBlock logs with
    | (first :: group) :: groups =>
      if first.blockNumber = log.blockNumber then (log :: first :: group) :: groups
      else [log] :: (first :: group) :: groups
    | groups => [log] :: groups

/-- The block of a group of logs, behind the blocks of earlier groups. -/
def appendGroup (it : InfiniteLogIter) (node : Node) (blocksLogs : List BlockLogs)
    (group : List ChainLog) : List BlockLogs :=
  match group.getLast? with
  | some last =>
    blocksLogs ++ [⟨group.map ChainLog.log, it.deduceBlockSummary node last blocksLogs.getLast?⟩]
  | none => blocksLogs

/-- The logs of a page by blocks. They are sorted first if they look unsorted. -/
def splitByBlock (it : InfiniteLogIter) (node : Node) (logs : List ChainLog) : List BlockLogs :=
  let isSorted := decide ((logs.dropLast.map ChainLog.blockNumber).Pairwise (· ≤ ·))
  let logs :=
    if isSorted then logs else logs.mergeSort fun a b => decide (a.blockNumber ≤ b.blockNumber)
  (groupByBlock logs).foldl (it.appendGroup node) []

/-- Ask for a page until there is an answer: smaller pages when the node limits them, and at size
one the block is given up. The start comes back with the end of the page and its logs, unless the
node has failed. -/
def fetchPage (node : Node) (toBlock : Option ℕ) :
    ℕ → ℕ → ℕ → Option (ℕ × Option (ℕ × List ChainLog))
  | 0, _, _ => none
  | attempts + 1, pagingSize, fromBlock =>
    let pagingToBlock :=
      match toBlock with
      | some toBlock => min toBlock (fromBlock + pagingSize)
      | none => fromBlock + pagingSize
    match node.getLogs fromBlock pagingToBlock with
    | .ok logs => some (fromBlock, some (pagingToBlock, logs))
    | .error .limited =>
      if pagingSize = 1 then fetchPage node toBlock attempts pagingSize (fromBlock + 1)
      else fetchPage node toBlock attempts (max (pagingSize / 2) 1) fromBlock
    | .error .other => some (fromBlock, none)

/-- The catch-up ends with the last page, or where there are no blocks yet. -/
def catchupEnds (node : Node) (toBlock : Option ℕ) (pagingToBlock nbLogs : ℕ) : Bool :=
  match toBlock with
  | some toBlock => pagingToBlock = toBlock || decide (toBlock < pagingToBlock + 1)
  | none =>
    decide (nbLogs = 0) &&
      match node.getBlockNumber with
      | some currentBlock => decide (currentBlock < pagingToBlock + 1)
      | none => false

/-- One page of the catch-up, in at most so many attempts. -/
def consumeCatchupBlocks (it : InfiniteLogIter) (attempts : ℕ) (node : Node) :
    Option InfiniteLogIter :=
  match it.catchupBlocks with
  | none => some it
  | some (fromBlock, toBlock) =>
    match fetchPage node toBlock attempts A.catchupPaging fromBlock with
    | none => none
    | some (fromBlock, none) => some { it with catchupBlocks := some (fromBlock, toBlock) }
    | some (_, some (pagingToBlock, logs)) =>
      let nextBlocklogs := it.nextBlocklogs ++ it.splitByBlock node logs
      some { it with
        nextBlocklogs := nextBlocklogs
        catchupBlocks :=
          if catchupEnds node toBlock pagingToBlock nextBlocklogs.length then none
          else some (pagingToBlock + 1, toBlock) }

/-! ### Missing ancestors -/

/-- The ancestors of a block back to a known one, youngest first. -/
def missingsAncestorsFrom (h : BlockHistory) (node : Node) : ℕ → BlockSummary → List BlockSummary
  | 0, _ => []
  | n + 1, currentBlock =>
    if h.isKnown currentBlock.parentHash then []
    else if currentBlock.parentHash = BLOCK_HASH_ZERO then []
    else
      match node.getBlock currentBlock.parentHash with
      | some parentBlock => parentBlock :: missingsAncestorsFrom h node n parentBlock
      | none => []

def getMissingsAncestors (it : InfiniteLogIter) (node : Node) (currentBlock : BlockSummary) :
    List BlockSummary :=
  (missingsAncestorsFrom it.blockHistory node A.reorgMaximumDurationInBlocks currentBlock).reverse

def addBlock (it : InfiniteLogIter) (block : BlockSummary) : InfiniteLogIter :=
  { it with blockHistory := it.blockHistory.addBlock (historyCapacity A) block }

/-- The missing blocks wait for their turn. One whose logs cannot be read is skipped. -/
def populateCatchupLogsFromMissingBlocks (it : InfiniteLogIter) (node : Node)
    (missingBlocks : List BlockSummary) : InfiniteLogIter :=
  missingBlocks.foldl (fun it missingBlock =>
    match node.getLogsAtHash missingBlock.hash with
    | some logs =>
      addBlock A { it with nextBlocklogs := it.nextBlocklogs ++ [⟨logs, missingBlock⟩] }
        missingBlock
    | none => it) it

def checkMissingAncestors (it : InfiniteLogIter) (node : Node)
    (currentBlockSummary : BlockSummary) : InfiniteLogIter :=
  if it.blockHistory.isReadyToDetectReorg then
    let missingBlocks := it.getMissingsAncestors A node currentBlockSummary
    addBlock A (populateCatchupLogsFromMissingBlocks A it node missingBlocks) currentBlockSummary
  else
    -- at fresh restart no ancestor are known
    addBlock A it currentBlockSummary

/-! ### Waiting for a block -/

inductive NextResult
  | block (blockLogs : BlockLogs)
  | finished
  | again

def endAtBlockReached (it : InfiniteLogIter) (node : Node) : Bool :=
  match A.endAtBlock with
  | none => false
  | some endAtBlock =>
    match it.blockHistory.getLast? with
    | some tip => decide (endAtBlock < tip.number)
    | none =>
      match node.getCurrentBlock with
      | some currentBlock => decide (endAtBlock < currentBlock.number)
      | none => false

def attachLogsTo (node : Node) (summary : BlockSummary) : Option BlockLogs :=
  (node.getLogsAtHash summary.hash).map fun logs => ⟨logs, summary⟩

def findLastBlockAndLogs (node : Node) : Option BlockLogs :=
  node.getCurrentBlock.bind (attachLogsTo node)

def popFront (it : InfiniteLogIter) : InfiniteLogIter × NextResult :=
  match it.nextBlocklogs with
  | block :: rest => ({ it with nextBlocklogs := rest }, .block block)
  | [] => (it, .finished)

/-- A block of the stream goes behind its missing ancestors. -/
def arrive (it : InfiniteLogIter) (node : Node) (blockLogs : BlockLogs) : InfiniteLogIter :=
  let it := it.checkMissingAncestors A node blockLogs.summary
  { it with nextBlocklogs := it.nextBlocklogs ++ [blockLogs] }

/-- What is done when nothing waits: the stream is read. -/
def readStream (it : InfiniteLogIter) (node : Node) : InfiniteLogIter × NextResult :=
  match node.next with
  | .ended => ({ it with stream := false }, .again)
  | .timeout =>
    match findLastBlockAndLogs node with
    | some blockLogs => (it.arrive A node blockLogs).popFront
    | none => (it, .again)
  | .header summary =>
    match attachLogsTo node summary with
    | some blockLogs => (it.arrive A node blockLogs).popFront
    | none => ({ it with stream := false }, .again)

/-- One turn of the loop. -/
def next (it : InfiniteLogIter) (attempts : ℕ) (node : Node) :
    Option (InfiniteLogIter × NextResult) :=
  if it.stream = false then some (it.newLogStream A node, .again)
  else
    let caughtUp :=
      if it.nextBlocklogs = [] then it.consumeCatchupBlocks A attempts node else some it
    caughtUp.map fun it =>
      if it.nextBlocklogs ≠ [] then it.popFront
      else if it.endAtBlockReached A node then (it, .finished)
      else it.readStream A node

end InfiniteLogIter

end Fhevm.Listener
