import Fhevm.Listener.NoEventLoss

/-!
# The delivery of missing ancestors

A head of the stream comes with the blocks between it and the history. They are queued behind each
other, and later turns of the loop take them from the queue before they read anything.

## Main definitions

* `nexts` — turns of the loop that all deliver a block.
* `missingsAncestorsFrom_path` — the walk back reaches the nearest ancestor that is known.
* `nexts_queue` — a queue is delivered in order, whatever the node answers.
* `nexts_missingAncestors` — a head is delivered behind its missing ancestors.
-/

namespace Fhevm.Listener

open Foundation Host Worker InfiniteLogIter

/-- The blocks of turns that all deliver one, with the attempts and the node of each turn. -/
def nexts (A : Args) : InfiniteLogIter → List (ℕ × Node) → Option (InfiniteLogIter × List BlockLogs)
  | it, [] => some (it, [])
  | it, (attempts, node) :: turns =>
    match it.next A attempts node with
    | some (it, .block block) => (nexts A it turns).map fun (it, blocks) => (it, block :: blocks)
    | _ => none

/-- A node that answers for a block by its hash. -/
def Serves (node : Node) (b : BlockLogs) : Prop :=
  node.getBlock b.summary.hash = some b.summary ∧ node.getLogsAtHash b.summary.hash = some b.logs

variable {A : Args} {W : World} {it it' : InfiniteLogIter} {node : Node} {a head : BlockLogs}

/-! ## Turns -/

section Turns

variable {turns turns' : List (ℕ × Node)} {blocks blocks' : List BlockLogs}

theorem nexts_append {it'' : InfiniteLogIter} (h : nexts A it turns = some (it', blocks))
    (h' : nexts A it' turns' = some (it'', blocks')) :
    nexts A it (turns ++ turns') = some (it'', blocks ++ blocks') := by
  induction turns generalizing it blocks with
  | nil =>
    obtain ⟨rfl, rfl⟩ : it = it' ∧ [] = blocks := by simpa [nexts] using h
    exact h'
  | cons turn turns ih =>
    obtain ⟨attempts, node⟩ := turn
    simp only [nexts] at h
    split at h
    · next it₁ block hnext =>
      obtain ⟨⟨it₂, rest⟩, hrest, heq⟩ := Option.map_eq_some_iff.mp h
      obtain ⟨rfl, rfl⟩ : it₂ = it' ∧ block :: rest = blocks := by simpa using heq
      simp only [List.cons_append, nexts, hnext, ih hrest, Option.map_some]
    · cases h

theorem next_of_queue {b : BlockLogs} {rest : List BlockLogs} (hstream : it.stream = true)
    (hqueue : it.nextBlocklogs = b :: rest) (attempts : ℕ) (node : Node) :
    it.next A attempts node = some ({ it with nextBlocklogs := rest }, .block b) := by
  simp [InfiniteLogIter.next, hstream, hqueue, popFront]

/-- Blocks that wait are delivered in order, and nothing else changes. -/
theorem nexts_queue {queue rest : List BlockLogs} (hstream : it.stream = true)
    (hqueue : it.nextBlocklogs = queue ++ rest) (hturns : turns.length = queue.length) :
    nexts A it turns = some ({ it with nextBlocklogs := rest }, queue) := by
  induction turns generalizing it queue with
  | nil =>
    obtain rfl := List.length_eq_zero_iff.mp hturns.symm
    obtain rfl : it.nextBlocklogs = rest := hqueue
    rfl
  | cons turn turns ih =>
    obtain ⟨attempts, node⟩ := turn
    cases queue with
    | nil => simp at hturns
    | cons b queue =>
      have hrest := @ih { it with nextBlocklogs := queue ++ rest } queue hstream rfl
        (by simpa using hturns)
      simp [nexts, next_of_queue hstream hqueue, hrest]

/-- A turn that fills the queue, and turns that empty it. -/
theorem nexts_popFront {attempts : ℕ} {first : BlockLogs} {rest : List BlockLogs}
    (hnext : it.next A attempts node = some it'.popFront) (hstream : it'.stream = true)
    (hqueue : it'.nextBlocklogs = first :: rest) (hturns : turns.length = rest.length) :
    nexts A it ((attempts, node) :: turns) =
      some ({ it' with nextBlocklogs := [] }, it'.nextBlocklogs) := by
  have hrest := @nexts_queue A { it' with nextBlocklogs := rest } turns rest [] hstream
    (List.append_nil rest).symm hturns
  simp [nexts, hnext, popFront, hqueue, hrest]

end Turns

/-! ## The walk back -/

/-- The walk finds the blocks up to the nearest ancestor that is known, youngest first. -/
theorem missingsAncestorsFrom_path {h : BlockHistory} {between : List BlockLogs} {n : ℕ}
    (hpath : W.tree.Path a between head) (hserved : ∀ b ∈ between, Serves node b)
    (hknown : h.isKnown a.summary.hash = true)
    (hunknown : ∀ b ∈ between, h.isKnown b.summary.hash = false) (hn : between.length ≤ n) :
    missingsAncestorsFrom h node n head.summary = (between.map BlockLogs.summary).reverse := by
  induction hpath generalizing n with
  | parent hparent =>
    cases n with
    | zero => rfl
    | succ n =>
      rw [missingsAncestorsFrom, ← (contains_parent hparent).2, if_pos hknown]
      rfl
  | @step between p b hparent _ ih =>
    obtain ⟨hp, hhash⟩ := contains_parent hparent
    have hlast : p ∈ between ++ [p] := by simp
    cases n with
    | zero => simp at hn
    | succ n =>
      have hnonzero : p.summary.hash ≠ BLOCK_HASH_ZERO := hp.hash_ne_zero
      have hrest := ih (fun c hc => hserved c (List.mem_append_left _ hc))
        (fun c hc => hunknown c (List.mem_append_left _ hc)) (by simpa using hn)
      rw [missingsAncestorsFrom, ← hhash, if_neg (by simp [hunknown p hlast]), if_neg hnonzero,
        (hserved p hlast).1]
      simp [hrest]

/-! ## The history -/

/-- New blocks go behind the history, which loses old ones when it is full. -/
theorem addBlocks_eq_drop {capacity : ℕ} (h : BlockHistory) {blocks : List BlockSummary}
    (hblocks : blocks.length ≤ capacity) :
    ∃ n, blocks.foldl (BlockHistory.addBlock capacity) h = h.drop n ++ blocks := by
  induction blocks using List.reverseRecOn with
  | nil => exact ⟨0, by simp⟩
  | append_singleton blocks b ih =>
    rw [List.length_append, List.length_singleton] at hblocks
    obtain ⟨n, hn⟩ := ih (by omega)
    rw [List.foldl_append, List.foldl_cons, List.foldl_nil, hn, BlockHistory.addBlock]
    split_ifs with hfull
    · -- an old block makes room, since the new ones do not fill the history
      have hold : 1 ≤ (h.drop n).length := by
        rw [List.length_append] at hfull
        omega
      exact ⟨n + 1, by rw [List.drop_append_of_le_length hold, List.drop_drop, List.append_assoc]⟩
    · exact ⟨n, List.append_assoc _ _ _⟩

/-! ## The arrival of a head -/

/-- A head waits behind its missing ancestors, and all of them join the history. -/
theorem arrive_path {between : List BlockLogs} (hpath : W.tree.Path a between head)
    (hserved : ∀ b ∈ between, Serves node b)
    (hready : it.blockHistory.isReadyToDetectReorg = true)
    (hknown : it.blockHistory.isKnown a.summary.hash = true)
    (hunknown : ∀ b ∈ between, it.blockHistory.isKnown b.summary.hash = false)
    (hlength : between.length ≤ A.reorgMaximumDurationInBlocks) :
    it.arrive A node head =
      { it with
        nextBlocklogs := it.nextBlocklogs ++ between ++ [head]
        blockHistory := ((between ++ [head]).map BlockLogs.summary).foldl
          (BlockHistory.addBlock (historyCapacity A)) it.blockHistory } := by
  have hmissing : it.getMissingsAncestors A node head.summary = between.map BlockLogs.summary := by
    rw [getMissingsAncestors,
      missingsAncestorsFrom_path hpath hserved hknown hunknown hlength, List.reverse_reverse]
  have hattached : ∀ b ∈ between, attachLogsTo node b.summary = some b := fun b hb => by
    simp [attachLogsTo, (hserved b hb).2]
  have hpopulate := populateCatchupLogs_eq A it hattached
  simp [arrive, checkMissingAncestors, hready, hmissing, hpopulate, addBlock]

/-- The catch-up changes neither the stream nor the history. -/
theorem consumeCatchupBlocks_frame {attempts : ℕ}
    (h : it.consumeCatchupBlocks A attempts node = some it') :
    it'.stream = it.stream ∧ it'.blockHistory = it.blockHistory := by
  rw [consumeCatchupBlocks] at h
  split at h
  · obtain rfl := Option.some.inj h
    exact ⟨rfl, rfl⟩
  · split at h
    · cases h
    · obtain rfl := Option.some.inj h
      exact ⟨rfl, rfl⟩
    · obtain rfl := Option.some.inj h
      exact ⟨rfl, rfl⟩

/-- A head that is streamed arrives when nothing waits. -/
theorem next_streamed {attempts : ℕ} (hstream : it.stream = true) (hqueue : it.nextBlocklogs = [])
    (hcaughtUp : it.consumeCatchupBlocks A attempts node = some it')
    (hempty : it'.nextBlocklogs = []) (hend : it.endAtBlockReached A node = false)
    (hstreamed : Streamed node head) (hlogs : node.getLogsAtHash head.summary.hash = some head.logs) :
    it.next A attempts node = some (it'.arrive A node head).popFront := by
  obtain ⟨-, hhistory⟩ := consumeCatchupBlocks_frame hcaughtUp
  have hend' : it'.endAtBlockReached A node = false := by
    rw [← hend, endAtBlockReached, endAtBlockReached, hhistory]
  have hattach : attachLogsTo node head.summary = some head := by simp [attachLogsTo, hlogs]
  have hread : it'.readStream A node = (it'.arrive A node head).popFront := by
    rcases hstreamed with hnext | ⟨hnext, hcurrent⟩
    · simp [readStream, hnext, hattach]
    · simp [readStream, hnext, findLastBlockAndLogs, hcurrent, hattach]
  simp [InfiniteLogIter.next, hstream, hqueue, hcaughtUp, hempty, hend', hread]

/-! ## The delivery -/

/-- A head has no nearer ancestor in the history. -/
structure NearestKnown (W : World) (h : BlockHistory) (a head : BlockLogs) : Prop where
  ancestor : W.tree.Ancestor a head
  ne_head : a ≠ head
  known : h.isKnown a.summary.hash = true
  nearest : ∀ b, W.tree.Ancestor b head → b ≠ head → h.isKnown b.summary.hash = true →
    b.summary.number ≤ a.summary.number

/-- The node streams a head in a turn in which nothing is left to wait. -/
structure ReadsHead (A : Args) (it : InfiniteLogIter) (attempts : ℕ) (node : Node)
    (head : BlockLogs) : Prop where
  stream : it.stream = true
  caughtUp : ∃ it', { it with nextBlocklogs := [] }.consumeCatchupBlocks A attempts node =
    some it' ∧ it'.nextBlocklogs = []
  goesOn : it.endAtBlockReached A node = false
  streamed : Streamed node head

/-- After the blocks that wait, a head is delivered behind all blocks between its nearest ancestor
and itself, oldest first, and these blocks join the history, which has room for them. -/
theorem nexts_missingAncestors {attempts : ℕ} {before after : List (ℕ × Node)}
    (hnearest : NearestKnown W it.blockHistory a head)
    (hdistance : head.summary.number ≤ a.summary.number + A.reorgMaximumDurationInBlocks)
    (hready : it.blockHistory.isReadyToDetectReorg = true)
    (hserved : ∀ b, W.tree.Ancestor b head → a.summary.number < b.summary.number → Serves node b)
    (hreads : ReadsHead A it attempts node head)
    (hbefore : before.length = it.nextBlocklogs.length)
    (hafter : a.summary.number + after.length + 1 = head.summary.number) :
    ∃ between it', nexts A it (before ++ (attempts, node) :: after) =
        some (it', it.nextBlocklogs ++ between ++ [head]) ∧ it'.nextBlocklogs = [] ∧
      (∀ b, b ∈ between ↔
        W.tree.Ancestor b head ∧ b ≠ head ∧ a.summary.number < b.summary.number) ∧
      between.Pairwise (fun b c => b.summary.number < c.summary.number) ∧
      ∃ n, it'.blockHistory =
        it.blockHistory.drop n ++ (between ++ [head]).map BlockLogs.summary := by
  obtain ⟨between, hpath⟩ := hnearest.ancestor.exists_path hnearest.ne_head
  have hnumber : head.summary.number = a.summary.number + between.length + 1 := hpath.number_eq
  have hmem : ∀ b, b ∈ between ↔
      W.tree.Ancestor b head ∧ b ≠ head ∧ a.summary.number < b.summary.number :=
    fun b => hpath.mem_iff
  have hunknown : ∀ b ∈ between, it.blockHistory.isKnown b.summary.hash = false := by
    intro b hb
    obtain ⟨hb, hne, hlt⟩ := (hmem b).mp hb
    refine Bool.eq_false_iff.mpr fun hknown => ?_
    have hle := hnearest.nearest b hb hne hknown
    omega
  have hbetween : ∀ b ∈ between, Serves node b := fun b hb =>
    hserved b ((hmem b).mp hb).1 ((hmem b).mp hb).2.2
  have hheadServed := hserved head .refl (by omega)
  -- the blocks that wait come first
  have hwaiting : nexts A it before = some ({ it with nextBlocklogs := [] }, it.nextBlocklogs) :=
    nexts_queue hreads.stream (List.append_nil _).symm hbefore
  -- then the head arrives with the missing blocks
  obtain ⟨it₀, hcaughtUp, hempty⟩ := hreads.caughtUp
  obtain ⟨hstream₀, hhistory₀⟩ := consumeCatchupBlocks_frame hcaughtUp
  have hnext : InfiniteLogIter.next A { it with nextBlocklogs := [] } attempts node =
      some (it₀.arrive A node head).popFront :=
    next_streamed hreads.stream rfl hcaughtUp hempty hreads.goesOn hreads.streamed hheadServed.2
  rw [arrive_path hpath hbetween (hhistory₀ ▸ hready) (hhistory₀ ▸ hnearest.known)
    (hhistory₀ ▸ hunknown) (by omega), hempty, List.nil_append] at hnext
  obtain ⟨first, rest, hqueue⟩ := List.exists_cons_of_ne_nil
    (List.append_ne_nil_of_right_ne_nil between (List.cons_ne_nil head []))
  have hlength : after.length = rest.length := by
    have := congrArg List.length hqueue
    simp only [List.length_append, List.length_cons, List.length_nil] at this
    omega
  have hdelivered := nexts_popFront hnext (hstream₀.trans hreads.stream) hqueue hlength
  refine ⟨between, _, (nexts_append hwaiting hdelivered).trans (by rw [List.append_assoc]), ?_, hmem,
    hpath.pairwise_number, ?_⟩
  · rfl
  · rw [← hhistory₀]
    refine addBlocks_eq_drop it₀.blockHistory ?_
    simp only [historyCapacity, MAXIMUM_NUMBER_OF_COMPETING_CHAIN, List.length_map,
      List.length_append, List.length_singleton]
    omega

/-- A node that answers by hash, and streams the last block. -/
def byHashNode : Node where
  getBlockNumber := none
  getLogs _ _ := .error .other
  getBlockByNumber _ := none
  getBlock h := (sampleWorld.block h).map BlockLogs.summary
  getLogsAtHash h := (sampleWorld.block h).map BlockLogs.logs
  getCurrentBlock := none
  next := .header (sampleBlock 6).summary

/-- One block waits, and the history ends with block three. -/
def behindIter : InfiniteLogIter :=
  ⟨none, [sampleBlock 3], true, none, none, [(sampleBlock 2).summary, (sampleBlock 3).summary]⟩

theorem nearestKnown_behindIter :
    NearestKnown sampleWorld behindIter.blockHistory (sampleBlock 3) (sampleBlock 6) where
  ancestor := ancestor_sampleBlock (by decide)
  ne_head := by decide
  known := by decide
  nearest b hb _ hknown := by
    have hall : ∀ b ∈ sampleBlocks, behindIter.blockHistory.isKnown b.summary.hash = true →
        b.summary.number ≤ (sampleBlock 3).summary.number := by decide
    exact hall b (mem_sampleBlocks hb) hknown

theorem serves_byHashNode {b : BlockLogs} (hb : sampleWorld.tree.Ancestor b (sampleBlock 6)) :
    Serves byHashNode b := by
  have hall : ∀ b ∈ sampleBlocks, byHashNode.getBlock b.summary.hash = some b.summary ∧
      byHashNode.getLogsAtHash b.summary.hash = some b.logs := by decide
  exact hall b (mem_sampleBlocks hb)

/-- Block six comes behind blocks three, four and five. -/
theorem nexts_behindIter : ∃ between it', nexts sampleArgs behindIter
        ([(1, byHashNode)] ++ (1, byHashNode) :: [(1, byHashNode), (1, byHashNode)]) =
        some (it', behindIter.nextBlocklogs ++ between ++ [sampleBlock 6]) ∧ it'.nextBlocklogs = [] ∧
      (∀ b, b ∈ between ↔ sampleWorld.tree.Ancestor b (sampleBlock 6) ∧ b ≠ sampleBlock 6 ∧
        (sampleBlock 3).summary.number < b.summary.number) ∧
      between.Pairwise (fun b c => b.summary.number < c.summary.number) ∧
      ∃ n, it'.blockHistory = behindIter.blockHistory.drop n ++
        (between ++ [sampleBlock 6]).map BlockLogs.summary :=
  nexts_missingAncestors nearestKnown_behindIter (by decide) (by decide)
    (fun _ hb _ => serves_byHashNode hb)
    { stream := rfl, caughtUp := ⟨_, rfl, rfl⟩, goesOn := rfl, streamed := .inl rfl } rfl rfl

end Fhevm.Listener
