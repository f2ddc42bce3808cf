import Fhevm.Foundation.System
import Fhevm.Listener.LogIter

/-!
# What a catch-up covers

The pages of a catch-up are asked for over many calls, and the node may answer every request
differently. A page has both its ends, so at size one it is a page of two blocks, and one block is
given up when it is limited.

## Main definitions

* `Catchup`, `CatchupInput`, `catchup` — the requests of a catch-up, one by one.
* `consumeCatchupBlocks_run` — a call of the iterator is a run of them.
* `CoversRange`, `LeftOutAlone` — no block is left out or comes twice, and those that were given up had
  been asked for alone.
* `covers_leftOutAlone_iff` — when this is so.
-/

namespace Fhevm.Listener

open Foundation InfiniteLogIter

/-! ## The requests of a catch-up -/

/-- The iterator in the middle of a catch-up, and what has become of the blocks so far. -/
structure Catchup where
  it : InfiniteLogIter
  /-- The page size of a call that has begun, and where the range started then. -/
  call : Option (ℕ × ℕ)
  /-- Pages that were read, newest first, with both ends. -/
  pages : List (ℕ × ℕ)
  limited : List (ℕ × ℕ)
  givenUp : List ℕ
  /-- The last block of the node, as it answered after the last page. -/
  head : Option ℕ

inductive CatchupInput
  | call
  | answer (node : Node)
  /-- The rest of the listener between two calls. -/
  | between (nextBlocklogs : List BlockLogs) (blockHistory : BlockHistory)

/-- The end of the page that is asked for. -/
def pagingTo (toBlock : Option ℕ) (pagingSize fromBlock : ℕ) : ℕ :=
  match toBlock with
  | some toBlock => min toBlock (fromBlock + pagingSize)
  | none => fromBlock + pagingSize

namespace Catchup

variable (A : Args)

def start (it : InfiniteLogIter) (firstBlock : ℕ) (toBlock : Option ℕ) : Catchup :=
  ⟨{ it with catchupBlocks := some (firstBlock, toBlock) }, none, [], [], [], none⟩

/-- The page is in the queue. -/
def readPage (s : Catchup) (node : Node) (fromBlock pagingToBlock : ℕ) (toBlock : Option ℕ)
    (logs : List ChainLog) : Catchup :=
  let nextBlocklogs := s.it.nextBlocklogs ++ s.it.splitByBlock node logs
  { s with
    it := { s.it with
      nextBlocklogs := nextBlocklogs
      catchupBlocks :=
        if catchupEnds node toBlock pagingToBlock nextBlocklogs.length then none
        else some (pagingToBlock + 1, toBlock) }
    call := none
    pages := (fromBlock, pagingToBlock) :: s.pages
    head := node.getBlockNumber }

/-- The first block of a page that was limited at size one. -/
def giveUp (s : Catchup) (fromBlock : ℕ) (toBlock : Option ℕ) : Catchup :=
  { s with
    it := { s.it with catchupBlocks := some (fromBlock + 1, toBlock) }
    givenUp := fromBlock :: s.givenUp }

/-- The answer to a request of a call. -/
def answer (s : Catchup) (node : Node) (pagingSize start fromBlock : ℕ) (toBlock : Option ℕ) :
    Catchup :=
  let pagingToBlock := pagingTo toBlock pagingSize fromBlock
  match node.getLogs fromBlock pagingToBlock with
  | .ok logs => s.readPage node fromBlock pagingToBlock toBlock logs
  | .error .limited =>
    let s := { s with limited := (fromBlock, pagingToBlock) :: s.limited }
    if pagingSize = 1 then s.giveUp fromBlock toBlock
    else { s with call := some (max (pagingSize / 2) 1, start) }
  | .error .other => { s with call := none }

def step (s : Catchup) : CatchupInput → Option Catchup
  | .call =>
    match s.call, s.it.catchupBlocks with
    | none, some (fromBlock, _) => some { s with call := some (A.catchupPaging, fromBlock) }
    | _, _ => none
  | .answer node =>
    match s.call, s.it.catchupBlocks with
    | some (pagingSize, start), some (fromBlock, toBlock) =>
      some (s.answer node pagingSize start fromBlock toBlock)
    | _, _ => none
  | .between nextBlocklogs blockHistory =>
    if s.call = none then some { s with it := { s.it with nextBlocklogs, blockHistory } } else none

end Catchup

def catchup (A : Args) (it : InfiniteLogIter) (firstBlock : ℕ) (toBlock : Option ℕ) :
    System Catchup CatchupInput where
  init := .start it firstBlock toBlock
  step := Catchup.step A

/-- What a step can do, with the answer of the node. -/
inductive CatchupStep (A : Args) (s : Catchup) : CatchupInput → Catchup → Prop
  | call {fromBlock : ℕ} {toBlock : Option ℕ} (hcall : s.call = none)
      (hrange : s.it.catchupBlocks = some (fromBlock, toBlock)) :
      CatchupStep A s .call { s with call := some (A.catchupPaging, fromBlock) }
  | between {nextBlocklogs : List BlockLogs} {blockHistory : BlockHistory} (hcall : s.call = none) :
      CatchupStep A s (.between nextBlocklogs blockHistory)
        { s with it := { s.it with nextBlocklogs, blockHistory } }
  | page {node : Node} {pagingSize start fromBlock : ℕ} {toBlock : Option ℕ} {logs : List ChainLog}
      (hcall : s.call = some (pagingSize, start))
      (hrange : s.it.catchupBlocks = some (fromBlock, toBlock))
      (hlogs : node.getLogs fromBlock (pagingTo toBlock pagingSize fromBlock) = .ok logs) :
      CatchupStep A s (.answer node)
        (s.readPage node fromBlock (pagingTo toBlock pagingSize fromBlock) toBlock logs)
  | giveUp {node : Node} {start fromBlock : ℕ} {toBlock : Option ℕ}
      (hcall : s.call = some (1, start))
      (hrange : s.it.catchupBlocks = some (fromBlock, toBlock))
      (hlogs : node.getLogs fromBlock (pagingTo toBlock 1 fromBlock) = .error .limited) :
      CatchupStep A s (.answer node)
        ({ s with limited := (fromBlock, pagingTo toBlock 1 fromBlock) :: s.limited }.giveUp fromBlock
          toBlock)
  | shrink {node : Node} {pagingSize start fromBlock : ℕ} {toBlock : Option ℕ}
      (hcall : s.call = some (pagingSize, start))
      (hrange : s.it.catchupBlocks = some (fromBlock, toBlock)) (hsize : pagingSize ≠ 1) :
      CatchupStep A s (.answer node)
        { s with
          limited := (fromBlock, pagingTo toBlock pagingSize fromBlock) :: s.limited
          call := some (max (pagingSize / 2) 1, start) }
  | fail {node : Node} {pagingSize start fromBlock : ℕ} {toBlock : Option ℕ}
      (hcall : s.call = some (pagingSize, start))
      (hrange : s.it.catchupBlocks = some (fromBlock, toBlock))
      (hlogs : node.getLogs fromBlock (pagingTo toBlock pagingSize fromBlock) = .error .other) :
      CatchupStep A s (.answer node) { s with call := none }

theorem Catchup.step_spec {A : Args} {s s' : Catchup} {input : CatchupInput}
    (h : s.step A input = some s') : CatchupStep A s input s' := by
  cases input with
  | call =>
    simp only [Catchup.step] at h
    split at h
    · next hcall hrange =>
      obtain rfl := Option.some.inj h
      exact .call hcall hrange
    · cases h
  | between nextBlocklogs blockHistory =>
    simp only [Catchup.step] at h
    split_ifs at h with hcall
    obtain rfl := Option.some.inj h
    exact .between hcall
  | answer node =>
    simp only [Catchup.step] at h
    split at h
    · next pagingSize start fromBlock toBlock hcall hrange =>
      obtain rfl := Option.some.inj h
      simp only [Catchup.answer]
      split
      · next logs hlogs => exact .page hcall hrange hlogs
      · next hlogs =>
        split_ifs with hsize
        · subst hsize
          exact .giveUp hcall hrange hlogs
        · exact .shrink hcall hrange hsize
      · next hlogs => exact .fail hcall hrange hlogs
    · cases h

/-! ## The calls of the iterator -/

/-- The run of a catch-up, whatever its environment does. -/
abbrev CatchupRun (A : Args) (it : InfiniteLogIter) (firstBlock : ℕ) (toBlock : Option ℕ) :
    List CatchupInput → Catchup → Prop :=
  (catchup A it firstBlock toBlock).Run fun _ _ => True

section Calls

variable {A : Args} {it₀ it : InfiniteLogIter} {firstBlock : ℕ} {toBlock : Option ℕ}
  {past : List CatchupInput} {s : Catchup} {node : Node}

/-- An answer of the node is a step of the run. -/
theorem CatchupRun.answer {pagingSize start fromBlock : ℕ}
    (hrun : CatchupRun A it₀ firstBlock toBlock past s) (hcall : s.call = some (pagingSize, start))
    (hrange : s.it.catchupBlocks = some (fromBlock, toBlock)) (node : Node) :
    CatchupRun A it₀ firstBlock toBlock (.answer node :: past)
      (s.answer node pagingSize start fromBlock toBlock) :=
  .step hrun trivial (by simp [catchup, Catchup.step, hcall, hrange])

/-- The iterator after an attempt, with a page or with a failure of the node. -/
def afterFetch (it : InfiniteLogIter) (node : Node) (fromBlock : ℕ) (toBlock : Option ℕ) :
    Option (ℕ × List ChainLog) → InfiniteLogIter
  | none => { it with catchupBlocks := some (fromBlock, toBlock) }
  | some (pagingToBlock, logs) =>
    let nextBlocklogs := it.nextBlocklogs ++ it.splitByBlock node logs
    { it with
      nextBlocklogs := nextBlocklogs
      catchupBlocks :=
        if catchupEnds node toBlock pagingToBlock nextBlocklogs.length then none
        else some (pagingToBlock + 1, toBlock) }

theorem fetchPage_run {attempts pagingSize start fromBlock fromBlock' : ℕ}
    {result : Option (ℕ × List ChainLog)} (hrun : CatchupRun A it₀ firstBlock toBlock past s)
    (hcall : s.call = some (pagingSize, start))
    (hrange : s.it.catchupBlocks = some (fromBlock, toBlock))
    (h : fetchPage node toBlock attempts pagingSize fromBlock = some (fromBlock', result)) :
    ∃ past' s', CatchupRun A it₀ firstBlock toBlock past' s' ∧ s'.call = none ∧
      s'.it = afterFetch s.it node fromBlock' toBlock result := by
  induction attempts generalizing past s pagingSize fromBlock with
  | zero => cases h
  | succ attempts ih =>
    have hanswer := hrun.answer hcall hrange node
    change (match node.getLogs fromBlock (pagingTo toBlock pagingSize fromBlock) with
      | .ok logs => some (fromBlock, some (pagingTo toBlock pagingSize fromBlock, logs))
      | .error .limited =>
        if pagingSize = 1 then fetchPage node toBlock attempts pagingSize (fromBlock + 1)
        else fetchPage node toBlock attempts (max (pagingSize / 2) 1) fromBlock
      | .error .other => some (fromBlock, none)) = _ at h
    cases hlogs : node.getLogs fromBlock (pagingTo toBlock pagingSize fromBlock) with
    | ok logs =>
      simp only [hlogs, Option.some.injEq, Prod.mk.injEq] at h
      obtain ⟨rfl, rfl⟩ := h
      simp only [Catchup.answer, hlogs] at hanswer
      exact ⟨_, _, hanswer, rfl, rfl⟩
    | error e =>
      cases e with
      | other =>
        simp only [hlogs, Option.some.injEq, Prod.mk.injEq] at h
        obtain ⟨rfl, rfl⟩ := h
        simp only [Catchup.answer, hlogs] at hanswer
        refine ⟨_, _, hanswer, rfl, ?_⟩
        simp [afterFetch, ← hrange]
      | limited =>
        simp only [hlogs] at h
        simp only [Catchup.answer, hlogs] at hanswer
        by_cases hsize : pagingSize = 1
        · rw [if_pos hsize] at h hanswer
          obtain ⟨past', s', hrun', hcall', hit⟩ := ih hanswer hcall rfl h
          refine ⟨past', s', hrun', hcall', hit.trans ?_⟩
          cases result <;> rfl
        · rw [if_neg hsize] at h hanswer
          have hend := ih hanswer rfl hrange h
          exact hend

/-- A call of the iterator is a run of requests to a node that does not change its answers. -/
theorem consumeCatchupBlocks_run {attempts fromBlock : ℕ}
    (hrun : CatchupRun A it₀ firstBlock toBlock past s)
    (hcall : s.call = none) (hrange : s.it.catchupBlocks = some (fromBlock, toBlock))
    (h : s.it.consumeCatchupBlocks A attempts node = some it) :
    ∃ past' s', CatchupRun A it₀ firstBlock toBlock past' s' ∧ s'.call = none ∧ s'.it = it := by
  have hbegin : CatchupRun A it₀ firstBlock toBlock (.call :: past)
      { s with call := some (A.catchupPaging, fromBlock) } :=
    .step hrun trivial (by simp [catchup, Catchup.step, hcall, hrange])
  simp only [consumeCatchupBlocks, hrange] at h
  cases hfetch : fetchPage node toBlock attempts A.catchupPaging fromBlock with
  | none => simp [hfetch] at h
  | some answer =>
    obtain ⟨fromBlock', result⟩ := answer
    obtain ⟨past', s', hrun', hcall', hit⟩ := fetchPage_run hbegin rfl hrange hfetch
    refine ⟨past', s', hrun', hcall', hit.trans ?_⟩
    simp only [hfetch] at h
    cases result <;> exact Option.some.inj h

end Calls

/-! ## Every block once -/

def pageContains (b : ℕ) (page : ℕ × ℕ) : Bool := decide (page.1 ≤ b ∧ b ≤ page.2)

/-- Each block from the first one to the next one is in one page, or was given up once. -/
def CoversOnce (firstBlock nextBlock : ℕ) (s : Catchup) : Prop :=
  ∀ b, s.pages.countP (pageContains b) + s.givenUp.count b =
    if firstBlock ≤ b ∧ b < nextBlock then 1 else 0

/-- The blocks before the range that is left are covered. When nothing is left, those up to the end
of the range are, or to the last block of the node if it has no end. -/
def CoversRange (firstBlock : ℕ) (toBlock : Option ℕ) (s : Catchup) : Prop :=
  match s.it.catchupBlocks with
  | some (fromBlock, endBlock) =>
    endBlock = toBlock ∧ firstBlock ≤ fromBlock ∧ CoversOnce firstBlock fromBlock s
  | none => ∃ nextBlock, CoversOnce firstBlock nextBlock s ∧
      match toBlock with
      | some toBlock => toBlock < nextBlock
      | none => ∃ head, s.head = some head ∧ head < nextBlock

/-- Blocks of the range that were given up had been asked for alone, and limited. -/
def LeftOutAlone (toBlock : Option ℕ) (s : Catchup) : Prop :=
  ∀ b ∈ s.givenUp, (∀ e ∈ toBlock, b ≤ e) → (b, b) ∈ s.limited

section Covering

variable {A : Args} {it : InfiniteLogIter} {firstBlock : ℕ} {toBlock : Option ℕ} {s : Catchup}

theorem CoversOnce.page {fromBlock pagingToBlock nextBlock : ℕ} {s' : Catchup}
    (h : CoversOnce firstBlock fromBlock s) (hfirst : firstBlock ≤ fromBlock)
    (hnext : nextBlock = max fromBlock (pagingToBlock + 1))
    (hpages : s'.pages = (fromBlock, pagingToBlock) :: s.pages) (hgivenUp : s'.givenUp = s.givenUp) :
    CoversOnce firstBlock nextBlock s' := by
  intro b
  have hb := h b
  rw [hpages, hgivenUp, List.countP_cons]
  generalize s.pages.countP (pageContains b) = read at hb ⊢
  simp only [pageContains, decide_eq_true_eq]
  split_ifs at hb ⊢ <;> omega

theorem CoversOnce.giveUp {fromBlock : ℕ} {s' : Catchup}
    (h : CoversOnce firstBlock fromBlock s) (hfirst : firstBlock ≤ fromBlock)
    (hpages : s'.pages = s.pages) (hgivenUp : s'.givenUp = fromBlock :: s.givenUp) :
    CoversOnce firstBlock (fromBlock + 1) s' := by
  intro b
  have hb := h b
  rw [hpages, hgivenUp, List.count_cons]
  simp only [beq_iff_eq] at hb ⊢
  split_ifs at hb ⊢ <;> omega

theorem covers_start (it : InfiniteLogIter) (firstBlock : ℕ) (toBlock : Option ℕ) :
    CoversRange firstBlock toBlock (.start it firstBlock toBlock) := by
  refine ⟨rfl, le_rfl, fun b => ?_⟩
  rw [if_neg (by omega)]
  rfl

/-- A bounded catch-up ends at its end, an open one behind the last block of the node. -/
theorem catchupEnds_iff {node : Node} {pagingSize fromBlock nbLogs : ℕ} :
    catchupEnds node toBlock (pagingTo toBlock pagingSize fromBlock) nbLogs = true ↔
      match toBlock with
      | some toBlock => toBlock ≤ fromBlock + pagingSize
      | none => nbLogs = 0 ∧ ∃ head, node.getBlockNumber = some head ∧
          head ≤ fromBlock + pagingSize := by
  cases toBlock with
  | none =>
    cases hhead : node.getBlockNumber <;> simp [catchupEnds, pagingTo, hhead]
  | some toBlock =>
    change _ ↔ toBlock ≤ fromBlock + pagingSize
    simp only [catchupEnds, Bool.or_eq_true, decide_eq_true_eq]
    simp only [pagingTo]
    omega

/-- A catch-up that goes on has a page that is not empty behind it. -/
theorem le_pagingTo {node : Node} {pagingSize fromBlock nbLogs : ℕ}
    (h : ¬ catchupEnds node toBlock (pagingTo toBlock pagingSize fromBlock) nbLogs = true) :
    fromBlock ≤ pagingTo toBlock pagingSize fromBlock := by
  have hend := catchupEnds_iff.not.mp h
  cases toBlock <;> simp only [pagingTo] at hend ⊢ <;> omega

theorem covers_readPage {node : Node} {pagingSize fromBlock : ℕ} {logs : List ChainLog}
    (hfirst : firstBlock ≤ fromBlock) (honce : CoversOnce firstBlock fromBlock s) :
    CoversRange firstBlock toBlock
      (s.readPage node fromBlock (pagingTo toBlock pagingSize fromBlock) toBlock logs) := by
  have hends := @catchupEnds_iff toBlock node pagingSize fromBlock
    (s.it.nextBlocklogs ++ s.it.splitByBlock node logs).length
  simp only [CoversRange, Catchup.readPage]
  split_ifs with hend
  · -- nothing is left of the range
    refine ⟨max fromBlock (pagingTo toBlock pagingSize fromBlock + 1),
      honce.page hfirst rfl rfl rfl, ?_⟩
    have hend := hends.mp hend
    cases toBlock with
    | some toBlock =>
      simp only [pagingTo] at hend ⊢
      omega
    | none =>
      obtain ⟨-, head, hhead, hle⟩ := hend
      exact ⟨head, hhead, by simp only [pagingTo]; omega⟩
  · have hle := le_pagingTo hend
    exact ⟨rfl, by omega, honce.page hfirst (by omega) rfl rfl⟩

/-- Every step keeps what the catch-up covers. -/
theorem covers_step {s' : Catchup} {input : CatchupInput} (h : CoversRange firstBlock toBlock s)
    (hstep : CatchupStep A s input s') : CoversRange firstBlock toBlock s' := by
  cases hstep with
  | call | between => exact h
  | page hcall hrange hlogs =>
    simp only [CoversRange, hrange] at h
    obtain ⟨rfl, hfirst, honce⟩ := h
    exact covers_readPage hfirst honce
  | giveUp hcall hrange hlogs =>
    simp only [CoversRange, hrange] at h
    obtain ⟨rfl, hfirst, honce⟩ := h
    exact ⟨rfl, hfirst.trans (Nat.le_succ _), honce.giveUp hfirst rfl rfl⟩
  | shrink => exact h
  | fail => exact h

end Covering

/-! ## Blocks that were asked for alone -/

/-- If the answer gives up a block, the block is the last one of the range, or the size of a page
is zero and the block is where the call began: it was asked for alone then. -/
def GivesUpAlone (A : Args) (s : Catchup) : CatchupInput → Prop
  | .answer node => ∀ start fromBlock toBlock, s.call = some (1, start) →
      s.it.catchupBlocks = some (fromBlock, toBlock) →
      node.getLogs fromBlock (pagingTo toBlock 1 fromBlock) = .error .limited →
      (∃ e ∈ toBlock, e ≤ fromBlock) ∨ (A.catchupPaging = 0 ∧ start = fromBlock)
  | _ => True

/-- What the requests of a call have asked for. -/
structure CallOk (A : Args) (toBlock : Option ℕ) (limited : List (ℕ × ℕ))
    (start fromBlock pagingSize : ℕ) : Prop where
  start_le : start ≤ fromBlock
  size_pos : A.catchupPaging ≠ 0 → pagingSize ≠ 0
  size_zero : pagingSize = 0 → fromBlock = start
  size_le : A.catchupPaging = 0 → pagingSize ≤ 1
  asked : A.catchupPaging = 0 → pagingSize = 1 → fromBlock = start →
    (fromBlock, fromBlock) ∈ limited ∨ ∃ e ∈ toBlock, e < fromBlock
  alone : ∀ b, (b, b) ∈ limited →
    (∃ e ∈ toBlock, e ≤ b) ∨ (A.catchupPaging = 0 ∧ b ≤ start)

/-- What all requests so far have asked for. -/
structure RequestsOk (A : Args) (toBlock : Option ℕ) (s : Catchup) : Prop where
  range : ∀ fromBlock endBlock, s.it.catchupBlocks = some (fromBlock, endBlock) →
    endBlock = toBlock ∧ (∀ b ∈ s.givenUp, b < fromBlock) ∧
    ∀ b, (b, b) ∈ s.limited → (∃ e ∈ toBlock, e ≤ b) ∨ (A.catchupPaging = 0 ∧ b ≤ fromBlock)
  call : ∀ pagingSize start fromBlock endBlock, s.call = some (pagingSize, start) →
    s.it.catchupBlocks = some (fromBlock, endBlock) →
    CallOk A toBlock s.limited start fromBlock pagingSize

section Requests

variable {A : Args} {it : InfiniteLogIter} {firstBlock : ℕ} {toBlock : Option ℕ} {s : Catchup}

theorem requestsOk_start (it : InfiniteLogIter) (firstBlock : ℕ) (toBlock : Option ℕ) :
    RequestsOk A toBlock (.start it firstBlock toBlock) where
  range := by simp [Catchup.start]
  call := by simp [Catchup.start]

/-- A page of one block is the last one, or the size is zero. -/
theorem pagingTo_eq_self {pagingSize fromBlock : ℕ} :
    pagingTo toBlock pagingSize fromBlock = fromBlock →
      (∃ e ∈ toBlock, e ≤ fromBlock) ∨ pagingSize = 0 := by
  cases toBlock with
  | none => simp [pagingTo]
  | some e =>
    simp only [pagingTo, Option.mem_some_iff, exists_eq_left']
    omega

variable {limited : List (ℕ × ℕ)} {start fromBlock pagingSize : ℕ}

/-- A limited request for one block is in the end of the range, or opens a call of size zero. -/
theorem CallOk.alone_cons (h : CallOk A toBlock limited start fromBlock pagingSize) {b : ℕ}
    (hb : (b, b) ∈ (fromBlock, pagingTo toBlock pagingSize fromBlock) :: limited) :
    (∃ e ∈ toBlock, e ≤ b) ∨ (A.catchupPaging = 0 ∧ b ≤ start) := by
  rcases List.mem_cons.mp hb with heq | hb
  · obtain ⟨rfl, hto⟩ := Prod.mk.inj heq
    refine (pagingTo_eq_self hto.symm).imp_right fun hsize => ⟨?_, (h.size_zero hsize).le⟩
    by_contra hpaging
    exact h.size_pos hpaging hsize
  · exact h.alone b hb

/-- A smaller page of the same call. -/
theorem CallOk.shrink (h : CallOk A toBlock limited start fromBlock pagingSize)
    (hsize : pagingSize ≠ 1) :
    CallOk A toBlock ((fromBlock, pagingTo toBlock pagingSize fromBlock) :: limited) start fromBlock
      (max (pagingSize / 2) 1) where
  start_le := h.start_le
  size_pos _ := by omega
  size_zero := by omega
  size_le hpaging := by
    have hle := h.size_le hpaging
    omega
  asked hpaging _ hstart := by
    have hzero : pagingSize = 0 := by
      have hle := h.size_le hpaging
      omega
    rw [hzero]
    cases toBlock with
    | none => exact .inl (by simp [pagingTo])
    | some e =>
      by_cases he : e < fromBlock
      · exact .inr ⟨e, rfl, he⟩
      · exact .inl (by simp [pagingTo]; omega)
  alone _ hb := h.alone_cons hb

/-- The next block of a call that has given up a block. -/
theorem CallOk.giveUp (h : CallOk A toBlock limited start fromBlock 1) :
    CallOk A toBlock ((fromBlock, pagingTo toBlock 1 fromBlock) :: limited) start
      (fromBlock + 1) 1 where
  start_le := h.start_le.trans (Nat.le_succ _)
  size_pos _ := one_ne_zero
  size_zero := by simp
  size_le _ := le_rfl
  asked _ _ hstart := by
    have hle := h.start_le
    omega
  alone _ hb := h.alone_cons hb

/-- Where a block is given up at size one, it had been asked for alone if it is the last one, or if
the size is zero and the call began with it. -/
theorem CallOk.mem_limited_iff (h : CallOk A toBlock limited start fromBlock 1)
    (hto : ∀ e ∈ toBlock, fromBlock ≤ e) :
    (fromBlock, fromBlock) ∈ (fromBlock, pagingTo toBlock 1 fromBlock) :: limited ↔
      (∃ e ∈ toBlock, e ≤ fromBlock) ∨ (A.catchupPaging = 0 ∧ start = fromBlock) := by
  constructor
  · intro hmem
    refine (h.alone_cons hmem).imp_right fun ⟨hpaging, hle⟩ => ⟨hpaging, ?_⟩
    exact le_antisymm h.start_le hle
  · rintro (⟨e, he, hle⟩ | ⟨hpaging, rfl⟩)
    · obtain rfl : e = fromBlock := le_antisymm hle (hto e he)
      obtain rfl : toBlock = some e := he
      exact List.mem_cons.mpr (.inl (by simp [pagingTo]))
    · refine List.mem_cons_of_mem _ ((h.asked hpaging rfl rfl).resolve_right ?_)
      rintro ⟨e, he, hlt⟩
      exact absurd (hto e he) (by omega)

theorem requestsOk_step {s' : Catchup} {input : CatchupInput} (h : RequestsOk A toBlock s)
    (hstep : CatchupStep A s input s') : RequestsOk A toBlock s' := by
  cases hstep with
  | @call first endBlock hcall hrange =>
    obtain ⟨rfl, -, halone⟩ := h.range _ _ hrange
    refine ⟨h.range, fun pagingSize start fromBlock toBlock hcall' hrange' => ?_⟩
    obtain ⟨rfl, rfl⟩ : A.catchupPaging = pagingSize ∧ first = start := by simpa using hcall'
    obtain ⟨rfl, rfl⟩ : first = fromBlock ∧ endBlock = toBlock := by
      simpa using hrange.symm.trans hrange'
    exact ⟨le_rfl, fun hne => hne, fun _ => rfl, fun hzero => by omega, by omega, halone⟩
  | between => exact ⟨h.range, h.call⟩
  | @page node pagingSize start first endBlock logs hcall hrange hlogs =>
    obtain ⟨rfl, hgivenUp, halone⟩ := h.range _ _ hrange
    refine ⟨fun fromBlock toBlock hrange' => ?_, by simp [Catchup.readPage]⟩
    simp only [Catchup.readPage] at hrange'
    split_ifs at hrange' with hend
    obtain ⟨rfl, rfl⟩ : pagingTo endBlock pagingSize first + 1 = fromBlock ∧ endBlock = toBlock := by
      simpa using hrange'
    have hle := le_pagingTo (by simpa using hend)
    refine ⟨rfl, fun b hb => (hgivenUp b hb).trans_le (by omega), fun b hb => ?_⟩
    exact (halone b hb).imp_right fun ⟨hpaging, hb⟩ => ⟨hpaging, by omega⟩
  | @giveUp node start first endBlock hcall hrange hlogs =>
    obtain ⟨rfl, hgivenUp, -⟩ := h.range _ _ hrange
    have hok := h.call _ _ _ _ hcall hrange
    have hstart := hok.start_le
    refine ⟨fun fromBlock toBlock hrange' => ?_, fun pagingSize start' fromBlock toBlock hcall' hrange' => ?_⟩
    · obtain ⟨rfl, rfl⟩ : first + 1 = fromBlock ∧ endBlock = toBlock := by
        simpa [Catchup.giveUp] using hrange'
      refine ⟨rfl, fun b hb => ?_, fun b hb => ?_⟩
      · rcases List.mem_cons.mp hb with rfl | hb
        · exact Nat.lt_succ_self _
        · exact (hgivenUp b hb).trans (Nat.lt_succ_self _)
      · exact (hok.alone_cons hb).imp_right fun ⟨hpaging, hb⟩ => ⟨hpaging, by omega⟩
    · obtain ⟨rfl, rfl⟩ : first + 1 = fromBlock ∧ endBlock = toBlock := by
        simpa [Catchup.giveUp] using hrange'
      obtain ⟨rfl, rfl⟩ : 1 = pagingSize ∧ start = start' := by
        simpa [Catchup.giveUp, hcall] using hcall'
      exact hok.giveUp
  | @shrink node pagingSize start first endBlock hcall hrange hsize =>
    obtain ⟨rfl, hgivenUp, -⟩ := h.range _ _ hrange
    have hok := h.call _ _ _ _ hcall hrange
    have hstart := hok.start_le
    refine ⟨fun fromBlock toBlock hrange' => ?_, fun pagingSize' start' fromBlock toBlock hcall' hrange' => ?_⟩
    · obtain ⟨rfl, rfl⟩ : first = fromBlock ∧ endBlock = toBlock := by
        simpa using hrange.symm.trans hrange'
      refine ⟨rfl, hgivenUp, fun b hb => ?_⟩
      exact (hok.alone_cons hb).imp_right fun ⟨hpaging, hb⟩ => ⟨hpaging, by omega⟩
    · obtain ⟨rfl, rfl⟩ : first = fromBlock ∧ endBlock = toBlock := by
        simpa using hrange.symm.trans hrange'
      obtain ⟨rfl, rfl⟩ : max (pagingSize / 2) 1 = pagingSize' ∧ start = start' := by
        simpa using hcall'
      exact hok.shrink hsize
  | fail => exact ⟨h.range, by simp⟩

/-- An answer other than a limit, or at another size, gives up no block. -/
theorem givesUpAlone_of_kept {node : Node} {pagingSize start fromBlock : ℕ}
    {endBlock : Option ℕ} (hcall : s.call = some (pagingSize, start))
    (hrange : s.it.catchupBlocks = some (fromBlock, endBlock))
    (hkept : pagingSize ≠ 1 ∨
      node.getLogs fromBlock (pagingTo endBlock pagingSize fromBlock) ≠ .error .limited) :
    GivesUpAlone A s (.answer node) := by
  intro start' first toBlock hcall' hrange' hlimited
  obtain ⟨rfl, rfl⟩ : pagingSize = 1 ∧ start = start' := by simpa using hcall.symm.trans hcall'
  obtain ⟨rfl, rfl⟩ : fromBlock = first ∧ endBlock = toBlock := by
    simpa using hrange.symm.trans hrange'
  exact absurd hlimited (hkept.resolve_left (not_not_intro rfl))

/-- Blocks that were given up are not asked for again. -/
theorem leftOutAlone_congr {s' : Catchup} {pagingToBlock : ℕ} (hgivenUp : ∀ b ∈ s.givenUp, b < fromBlock)
    (hsame : s'.givenUp = s.givenUp)
    (hlimited : s'.limited = (fromBlock, pagingToBlock) :: s.limited) :
    LeftOutAlone toBlock s' ↔ LeftOutAlone toBlock s := by
  have hmem : ∀ b ∈ s.givenUp, (b, b) ∈ s'.limited ↔ (b, b) ∈ s.limited := by
    intro b hb
    have hlt := hgivenUp b hb
    rw [hlimited, List.mem_cons, Prod.mk.injEq]
    exact or_iff_right fun heq => by omega
  simp only [LeftOutAlone, hsame]
  exact forall₃_congr fun b hb _ => hmem b hb

/-- A step keeps that all blocks were asked for alone exactly when it gives up none that was not. -/
theorem leftOutAlone_step {s' : Catchup} {input : CatchupInput} (h : RequestsOk A toBlock s)
    (hstep : CatchupStep A s input s') :
    LeftOutAlone toBlock s' ↔ LeftOutAlone toBlock s ∧ GivesUpAlone A s input := by
  cases hstep with
  | call | between => exact (and_iff_left trivial).symm
  | page hcall hrange hlogs =>
    exact (and_iff_left (givesUpAlone_of_kept hcall hrange (.inr (by simp [hlogs])))).symm
  | @giveUp node start fromBlock endBlock hcall hrange hlogs =>
    obtain ⟨rfl, hgivenUp, -⟩ := h.range _ _ hrange
    have hok := h.call _ _ _ _ hcall hrange
    have hbefore : LeftOutAlone endBlock { s with
        limited := (fromBlock, pagingTo endBlock 1 fromBlock) :: s.limited } ↔
        LeftOutAlone endBlock s := leftOutAlone_congr hgivenUp rfl rfl
    have hnew : ((∀ e ∈ endBlock, fromBlock ≤ e) →
        (fromBlock, fromBlock) ∈ (fromBlock, pagingTo endBlock 1 fromBlock) :: s.limited) ↔
        GivesUpAlone A s (.answer node) := by
      refine ⟨fun hnew => ?_, fun halone hto => ?_⟩
      · intro start' first toBlock hcall' hrange' _
        obtain rfl : start = start' := by simpa using hcall.symm.trans hcall'
        obtain ⟨rfl, rfl⟩ : fromBlock = first ∧ endBlock = toBlock := by
          simpa using hrange.symm.trans hrange'
        by_cases hto : ∀ e ∈ endBlock, fromBlock ≤ e
        · exact (hok.mem_limited_iff hto).mp (hnew hto)
        · push Not at hto
          obtain ⟨e, he, hlt⟩ := hto
          exact .inl ⟨e, he, hlt.le⟩
      · exact (hok.mem_limited_iff hto).mpr (halone _ _ _ hcall hrange hlogs)
    rw [← hbefore, ← hnew]
    simp only [LeftOutAlone, Catchup.giveUp, List.forall_mem_cons]
    exact and_comm
  | shrink hcall hrange hsize =>
    obtain ⟨rfl, hgivenUp, -⟩ := h.range _ _ hrange
    rw [leftOutAlone_congr hgivenUp (by rfl) (by rfl)]
    exact (and_iff_left (givesUpAlone_of_kept hcall hrange (.inl hsize))).symm
  | fail hcall hrange hlogs =>
    exact (and_iff_left (givesUpAlone_of_kept hcall hrange (.inr (by simp [hlogs])))).symm

end Requests

/-! ## Runs -/

section Runs

variable (A : Args) (it : InfiniteLogIter) (firstBlock : ℕ) (toBlock : Option ℕ)
  (past : List CatchupInput) (s : Catchup)

/-- No block is left out or comes twice, apart from blocks that the node has limited alone, exactly
when every answer that gives up a block gives up one of these. -/
theorem covers_leftOutAlone_iff (hrun : CatchupRun A it firstBlock toBlock past s) :
    (CoversRange firstBlock toBlock s ∧ LeftOutAlone toBlock s) ↔
      ∀ t input, (catchup A it firstBlock toBlock).Took (fun _ _ => True) past t input →
        GivesUpAlone A t input := by
  have hinvariant := hrun.invariant
    (P := fun past s => CoversRange firstBlock toBlock s ∧ RequestsOk A toBlock s ∧
      (LeftOutAlone toBlock s ↔
        ∀ t input, (catchup A it firstBlock toBlock).Took (fun _ _ => True) past t input →
          GivesUpAlone A t input)) ?_ ?_
  · exact (and_iff_right hinvariant.1).trans hinvariant.2.2
  · refine ⟨covers_start it firstBlock toBlock, requestsOk_start it firstBlock toBlock, ?_⟩
    simp [LeftOutAlone, catchup, Catchup.start]
  · rintro past input s s' hrun ⟨hcovers, hrequests, ih⟩ - hstep
    have hstep := Catchup.step_spec hstep
    refine ⟨covers_step hcovers hstep, requestsOk_step hrequests hstep, ?_⟩
    rw [leftOutAlone_step hrequests hstep, ih, hrun.forall_took_cons]

end Runs

/-- A node that answers only for blocks alone. -/
def oneBlockNode : Node where
  getBlockNumber := none
  getLogs fromBlock toBlock := if fromBlock = toBlock then .ok [] else .error .limited
  getBlockByNumber _ := none
  getBlock _ := none
  getLogsAtHash _ := none
  getCurrentBlock := none
  next := .timeout

/-- The smallest pages. -/
def smallestPages : Args := ⟨none, 0, 1, 0⟩

/-- After one limited request from block five on. -/
def oneLimited (toBlock : ℕ) : Catchup :=
  { Catchup.start (.new none) 5 (some toBlock) with
    it := { InfiniteLogIter.new none with catchupBlocks := some (6, some toBlock) }
    call := some (1, 5)
    limited := [(5, 6)]
    givenUp := [5] }

theorem run_oneLimited {toBlock : ℕ} (h : 6 ≤ toBlock) :
    CatchupRun smallestPages (.new none) 5 (some toBlock) [.answer oneBlockNode, .call]
      (oneLimited toBlock) := by
  have hrun : CatchupRun smallestPages (.new none) 5 (some toBlock) [.call]
      { Catchup.start (.new none) 5 (some toBlock) with call := some (1, 5) } :=
    .step .start trivial rfl
  have hpage : pagingTo (some toBlock) 1 5 = 6 := by
    simp only [pagingTo]
    omega
  have hanswer := hrun.answer rfl rfl oneBlockNode
  simp only [Catchup.answer, hpage] at hanswer
  exact hanswer

/-- The theorem at this run. -/
theorem covers_leftOutAlone_oneLimited :
    (CoversRange 5 (some 9) (oneLimited 9) ∧ LeftOutAlone (some 9) (oneLimited 9)) ↔
      ∀ t input, (catchup smallestPages (.new none) 5 (some 9)).Took (fun _ _ => True)
        [.answer oneBlockNode, .call] t input → GivesUpAlone smallestPages t input :=
  covers_leftOutAlone_iff _ _ _ _ _ _ (run_oneLimited (by decide))

/-- Block five is given up, though only blocks five and six were asked for together. -/
theorem oneLimited_leftOut :
    ¬ ∀ A it firstBlock toBlock past s, CatchupRun A it firstBlock toBlock past s →
      CoversRange firstBlock toBlock s ∧ LeftOutAlone toBlock s := by
  intro hclaim
  obtain ⟨-, halone⟩ := hclaim _ _ _ _ _ _ (@run_oneLimited 9 (by decide))
  have hmem : ((5 : ℕ), (5 : ℕ)) ∈ [((5 : ℕ), (6 : ℕ))] := halone 5 (by decide) (by simp)
  exact absurd hmem (by decide)

end Fhevm.Listener
