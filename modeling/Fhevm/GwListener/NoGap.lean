import Fhevm.GwListener.GetLogs

/-!
# No block is skipped

The ranges that have been handled leave no block out, as long as the position that the listener takes
up is never beyond the next block. It always is when the catch-up starts from a given block, which it
takes for one that has been processed.

## Main definitions

* `baseBlock` — the block that handling should start from.
* `NoGap` — all blocks from there to the last one are in ranges that have been handled.
* `TakesUp` — a position is not beyond the next block.
* `no_gap` — there is no gap in runs with such positions.
-/

namespace Fhevm.GwListener

open Foundation Gateway

section Gap

variable (K : KeyLibrary) (conf : GwConfig) (chain : ℕ → List KMSGenerationEvent)
  (stored : Option ℕ)

/-- The configured block unless it is negative, or else the block after the stored one, or else the
first head. -/
def baseBlock (s : GwState) : Option ℕ :=
  ((conf.catchupKmsGenerationFromBlock.filter fun n => 0 ≤ n).map Int.toNat).or
    ((stored.map (· + 1)).or s.firstHead)

/-- The block is in a range that has been handled. -/
def Covered (s : GwState) (n : ℕ) : Prop := ∃ r ∈ s.handled, r.fromBlock ≤ n ∧ n ≤ r.toBlock

def NoGap (s : GwState) : Prop :=
  ∀ b, baseBlock conf stored s = some b → ∀ r ∈ s.handled, ∀ n, b ≤ n → n ≤ r.toBlock → Covered s n

/-- All events of the range have been handled, or ignored because of a digest. -/
def HandledRange.Complete (r : HandledRange) : Prop :=
  r.logs.map Delivery.event = events chain r.fromBlock r.toBlock ∧
    (handleLogs K conf r.logs r.tenants).2 = true

/-- A block is not beyond the next one: the first block, or the one after a range. -/
def Continues (s : GwState) (n : ℕ) : Prop :=
  (∃ b ∈ baseBlock conf stored s, n ≤ b) ∨ ∃ r ∈ s.handled, n ≤ r.toBlock + 1

instance (s : GwState) : DecidablePred (Continues conf stored s) := fun n =>
  inferInstanceAs (Decidable ((∃ b ∈ baseBlock conf stored s, n ≤ b) ∨
    ∃ r ∈ s.handled, n ≤ r.toBlock + 1))

/-- The position that is taken up by a step, with the state that it is taken up in: the block after
that of the catch-up or of the database, or the head where there is neither. -/
def GwState.position (s : GwState) : GwInput → Option (GwState × ℕ)
  | .enter currentBlock =>
    match s.catchupKmsGenerationFrom with
    | none => s.lastBlockNum.map fun last => (s, last + 1)
    | some catchup => (catchupPosition catchup currentBlock).map fun last =>
        (if 0 ≤ catchup then s else s.observe currentBlock, last + 1)
  | .tick currentBlock _ _ =>
    if s.lastProcessedBlockNum = some none then some (s.observe (some currentBlock), currentBlock)
    else none
  | .fail => none

/-- The position that a step takes up is not beyond the next block. -/
def TakesUp (s : GwState) (i : GwInput) : Prop :=
  ∀ p ∈ s.position i, Continues conf stored p.1 p.2

instance : DecidableRel (TakesUp conf stored) := fun s i =>
  inferInstanceAs (Decidable (∀ p ∈ s.position i, Continues conf stored p.1 p.2))

/-- What a round keeps. -/
structure GwInvariant (s : GwState) : Prop where
  noGap : NoGap conf stored s
  complete : ∀ r ∈ s.handled, r.Complete K conf chain
  observed : s.handled ≠ [] → s.firstHead ≠ none
  position : ∀ last, s.lastProcessedBlockNum = some (some last) → Continues conf stored s (last + 1)

/-- Without a catch-up, the stored block is never beyond what has been handled. -/
structure Resumes (s : GwState) : Prop where
  catchup : s.catchupKmsGenerationFrom = none
  lastBlockNum : ∃ last, s.lastBlockNum = some last ∧ Continues conf stored s (last + 1)
  position : s.lastProcessedBlockNum ≠ some none

variable {K conf chain stored} {s s' : GwState}

theorem baseBlock_observe {currentBlock : Option ℕ} {b : ℕ} (h : baseBlock conf stored s = some b) :
    baseBlock conf stored (s.observe currentBlock) = some b := by
  unfold baseBlock GwState.observe at *
  simp only [Option.or_eq_some_iff] at h ⊢
  grind

theorem Continues.observe {n : ℕ} (h : Continues conf stored s n) (currentBlock : Option ℕ) :
    Continues conf stored (s.observe currentBlock) n := by
  obtain ⟨b, hb, hn⟩ | hrange := h
  · exact .inl ⟨b, baseBlock_observe hb, hn⟩
  · exact .inr hrange

theorem GwInvariant.observe (h : GwInvariant K conf chain stored s) (currentBlock : Option ℕ) :
    GwInvariant K conf chain stored (s.observe currentBlock) where
  complete := h.complete
  position last hlast := (h.position last hlast).observe currentBlock
  observed hne := by
    have hfirst := h.observed hne
    simp only [GwState.observe]
    cases hs : s.firstHead with
    | none => exact absurd hs hfirst
    | some head => simp
  noGap b hb r hr n hbn hn := by
    -- a range has been handled, so that the first block has been known before
    have hfirst := h.observed (List.ne_nil_of_mem hr)
    refine h.noGap b ?_ r hr n hbn hn
    rw [← hb]
    unfold baseBlock GwState.observe
    cases hs : s.firstHead with
    | none => exact absurd hs hfirst
    | some head => simp

/-- Leaving the loop keeps everything that has been handled. -/
theorem GwInvariant.leave (h : GwInvariant K conf chain stored s) (tenants : Tenants) :
    GwInvariant K conf chain stored { s with tenants, lastProcessedBlockNum := none } where
  noGap := h.noGap
  complete := h.complete
  observed := h.observed
  position last hlast := by cases hlast

/-- A range that starts at the next block, or before, leaves no gap. -/
theorem GwInvariant.finish (h : GwInvariant K conf chain stored s) {fromBlock currentBlock : ℕ}
    {answers : Answers} (hfirst : s.firstHead ≠ none) (hfrom : Continues conf stored s fromBlock)
    (hlogs : (handleLogs K conf (getLogs chain fromBlock (conf.toBlock fromBlock currentBlock)
      answers) s.tenants).2 = true) (updated : Bool) :
    GwInvariant K conf chain stored (s.finish K conf fromBlock currentBlock
      (getLogs chain fromBlock (conf.toBlock fromBlock currentBlock) answers) updated) where
  observed _ := hfirst
  complete r hr := by
    obtain rfl | hold := List.mem_cons.mp hr
    · refine ⟨?_, hlogs⟩
      simp only [getLogs, List.map_map]
      exact List.zipIdx_map_fst ..
    · exact h.complete r hold
  position last hlast := by
    cases updated with
    | true =>
      obtain rfl := Option.some.inj (Option.some.inj hlast)
      exact .inr ⟨_, List.mem_cons_self, le_rfl⟩
    | false => cases hlast
  noGap b hb r hr n hbn hn := by
    have hkept : ∀ r ∈ s.handled, n ≤ r.toBlock → Covered (s.finish K conf fromBlock currentBlock
        (getLogs chain fromBlock (conf.toBlock fromBlock currentBlock) answers) updated) n := by
      intro r hr hn
      obtain ⟨r', hr', hcovered⟩ := h.noGap b hb r hr n hbn hn
      exact ⟨r', List.mem_cons_of_mem _ hr', hcovered⟩
    obtain rfl | hold := List.mem_cons.mp hr
    · by_cases hstart : fromBlock ≤ n
      · exact ⟨_, List.mem_cons_self, hstart, hn⟩
      · -- what is before the range has been handled
        obtain ⟨b', hb', hle⟩ | ⟨r, hr, hle⟩ := hfrom
        · obtain rfl := Option.some.inj (hb'.symm.trans hb)
          omega
        · exact hkept r hr (by omega)
    · exact hkept r hold hn

theorem GwInvariant.range (h : GwInvariant K conf chain stored s) {fromBlock : ℕ}
    (hfirst : s.firstHead ≠ none) (hfrom : Continues conf stored s fromBlock) (currentBlock : ℕ)
    (answers : Option Answers) (updated : Bool) :
    GwInvariant K conf chain stored
      (s.range K conf chain fromBlock currentBlock answers updated) := by
  cases answers with
  | none => exact h.leave _
  | some answers =>
    simp only [GwState.range]
    split
    · next hlogs => exact h.finish hfirst hfrom hlogs updated
    · exact h.leave _

theorem GwInvariant.step (h : GwInvariant K conf chain stored s) {i : GwInput}
    (hallowed : TakesUp conf stored s i) (hstep : s.step K conf chain i = some s') :
    GwInvariant K conf chain stored s' := by
  cases i with
  | enter currentBlock =>
    simp only [GwState.step, Option.bind_eq_bind, Option.bind_eq_some_iff, Option.pure_def,
      Option.some.injEq] at hstep
    obtain ⟨-, -, rfl⟩ := hstep
    unfold GwState.enter
    cases hcatchup : s.catchupKmsGenerationFrom with
    | none =>
      refine { h with position := fun last hlast => ?_ }
      have hstored : s.lastBlockNum = some last := Option.some.inj hlast
      exact hallowed (s, last + 1) (by simp [GwState.position, hcatchup, hstored])
    | some catchup =>
      have hobserved : GwInvariant K conf chain stored
          (if 0 ≤ catchup then s else s.observe currentBlock) := by
        split
        · exact h
        · exact h.observe _
      refine { hobserved with position := fun last hlast => ?_ }
      obtain ⟨position, hposition, hsome⟩ := Option.map_eq_some_iff.mp hlast
      obtain rfl := Option.some.inj hsome
      exact hallowed (if 0 ≤ catchup then s else s.observe currentBlock, position + 1)
        (by simp [GwState.position, hcatchup, hposition])
  | tick currentBlock answers updated =>
    simp only [GwState.step, Option.bind_eq_bind, Option.bind_eq_some_iff, Option.pure_def,
      Option.some.injEq] at hstep
    obtain ⟨last, hlast, rfl⟩ := hstep
    have hobserved := h.observe (some currentBlock)
    have hfirst : (s.observe (some currentBlock)).firstHead ≠ none := by
      simp [GwState.observe]
    unfold GwState.tick
    cases last with
    | none =>
      have hnext : Continues conf stored (s.observe (some currentBlock)) currentBlock :=
        hallowed (s.observe (some currentBlock), currentBlock) (by simp [GwState.position, hlast])
      exact hobserved.range hfirst hnext _ _ _
    | some last =>
      simp only
      split
      · exact hobserved
      · exact hobserved.range hfirst ((h.position last hlast).observe _) _ _ _
  | fail =>
    obtain rfl := Option.some.inj hstep
    exact h.leave _

/-- There is no gap as long as no position is beyond the next block, and the events of all ranges
have been handled. -/
theorem no_gap {setup : Tenants} {past : List GwInput}
    (h : (gwListener K conf chain setup stored).Run (TakesUp conf stored) past s) :
    NoGap conf stored s ∧ ∀ r ∈ s.handled, r.Complete K conf chain := by
  have hinvariant : GwInvariant K conf chain stored s := by
    apply h.invariant
    · constructor <;> simp [gwListener, NoGap]
    · intro past i s s' _ hs hallowed hstep
      exact hs.step hallowed hstep
  exact ⟨hinvariant.noGap, hinvariant.complete⟩

/-! ## Runs without a catch-up -/

theorem Resumes.observe (h : Resumes conf stored s) (currentBlock : Option ℕ) :
    Resumes conf stored (s.observe currentBlock) := by
  obtain ⟨last, hlast, hcontinues⟩ := h.lastBlockNum
  exact ⟨h.catchup, ⟨last, hlast, hcontinues.observe _⟩, h.position⟩

theorem Resumes.leave (h : Resumes conf stored s) (tenants : Tenants) :
    Resumes conf stored { s with tenants, lastProcessedBlockNum := none } where
  catchup := h.catchup
  lastBlockNum := h.lastBlockNum
  position hlast := by cases hlast

theorem Resumes.range (h : Resumes conf stored s) (fromBlock currentBlock : ℕ)
    (answers : Option Answers) (updated : Bool) :
    Resumes conf stored (s.range K conf chain fromBlock currentBlock answers updated) := by
  cases answers with
  | none => exact h.leave _
  | some answers =>
    simp only [GwState.range]
    split
    · obtain ⟨last, hlast, hcontinues⟩ := h.lastBlockNum
      refine ⟨by simp [GwState.finish, h.catchup], ?_, by cases updated <;> simp [GwState.finish]⟩
      cases updated with
      | true => exact ⟨_, rfl, .inr ⟨_, List.mem_cons_self, le_rfl⟩⟩
      | false =>
        refine ⟨last, hlast, ?_⟩
        obtain hbase | ⟨r, hr, hle⟩ := hcontinues
        · exact .inl hbase
        · exact .inr ⟨r, List.mem_cons_of_mem _ hr, hle⟩
    · exact h.leave _

theorem Resumes.step (h : Resumes conf stored s) {i : GwInput}
    (hstep : s.step K conf chain i = some s') :
    TakesUp conf stored s i ∧ Resumes conf stored s' := by
  cases i with
  | enter currentBlock =>
    simp only [GwState.step, Option.bind_eq_bind, Option.bind_eq_some_iff, Option.pure_def,
      Option.some.injEq] at hstep
    obtain ⟨-, -, rfl⟩ := hstep
    obtain ⟨last, hlast, hcontinues⟩ := h.lastBlockNum
    constructor
    · intro p hp
      simp only [GwState.position, h.catchup, hlast, Option.map_some, Option.mem_some_iff] at hp
      subst hp
      exact hcontinues
    · simp only [GwState.enter, h.catchup]
      exact ⟨rfl, h.lastBlockNum, by simp [hlast]⟩
  | tick currentBlock answers updated =>
    simp only [GwState.step, Option.bind_eq_bind, Option.bind_eq_some_iff, Option.pure_def,
      Option.some.injEq] at hstep
    obtain ⟨last, hlast, rfl⟩ := hstep
    cases last with
    | none => exact absurd hlast h.position
    | some last =>
      constructor
      · intro p hp
        simp [GwState.position, hlast] at hp
      · simp only [GwState.tick]
        split
        · exact h.observe _
        · exact (h.observe _).range _ _ _ _
  | fail =>
    obtain rfl := Option.some.inj hstep
    exact ⟨fun p hp => absurd hp (by simp [GwState.position]), h.leave _⟩

/-- There is no gap without a catch-up if a block has been stored, whatever fails. -/
theorem no_gap_of_stored {setup : Tenants} {past : List GwInput} {last : ℕ}
    (hcatchup : conf.catchupKmsGenerationFromBlock = none)
    (h : (gwListener K conf chain setup (some last)).Run (fun _ _ => True) past s) :
    NoGap conf (some last) s := by
  have hrun : (gwListener K conf chain setup (some last)).Run (TakesUp conf (some last)) past s ∧
      Resumes conf (some last) s := by
    induction h with
    | start =>
      refine ⟨.start, hcatchup, ⟨last, rfl, .inl ⟨last + 1, ?_, le_rfl⟩⟩, by simp [gwListener]⟩
      simp [baseBlock, hcatchup]
    | step _ _ hstep ih =>
      obtain ⟨htakes, hresumes⟩ := ih.2.step hstep
      exact ⟨.step ih.1 htakes hstep, hresumes⟩
  exact (no_gap hrun.1).1

end Gap

/-! ## Samples -/

def sampleConf (catchup : Option ℤ) : GwConfig where
  hostChainId := 12345
  getLogsBlockBatchSize := 2
  catchupKmsGenerationFromBlock := catchup

/-- A key is activated in block 5. -/
def sampleChain (n : ℕ) : List KMSGenerationEvent :=
  if n = 5 then [.activateKey 7 [] []] else []

def sampleAnswers : Answers := fun _ => (fun _ _ => none, false)

/-- The logs of the first range cannot be had at first. -/
def sampleGwInputs : List GwInput :=
  [.tick 7 (some sampleAnswers) true, .tick 6 (some sampleAnswers) true, .enter none,
    .tick 6 none true, .enter none]

theorem sampleGw_no_gap : ∃ s, (gwListener sampleLibrary (sampleConf none) sampleChain sampleSetup
    (some 4)).replay (TakesUp (sampleConf none) (some 4)) sampleGwInputs = some s ∧
    s.handled.map (fun r => (r.fromBlock, r.toBlock)) = [(7, 7), (5, 6)] ∧
    NoGap (sampleConf none) (some 4) s := by
  have hranges : ((gwListener sampleLibrary (sampleConf none) sampleChain sampleSetup
      (some 4)).replay (TakesUp (sampleConf none) (some 4)) sampleGwInputs).map
        (fun s => s.handled.map fun r => (r.fromBlock, r.toBlock)) = some [(7, 7), (5, 6)] := by
    decide +kernel
  obtain ⟨s, hs, hrange⟩ := Option.map_eq_some_iff.mp hranges
  exact ⟨s, hs, hrange, (no_gap (System.run_of_replay hs)).1⟩

/-- A catch-up from block 5 starts with block 6. -/
theorem sampleGw_gap : ¬ ∀ past s,
    (gwListener sampleLibrary (sampleConf (some 5)) sampleChain sampleSetup none).Run
      (fun _ _ => True) past s → NoGap (sampleConf (some 5)) none s := by
  intro h
  have hranges : ((gwListener sampleLibrary (sampleConf (some 5)) sampleChain sampleSetup
      none).replay (fun _ _ => True) [.tick 6 (some sampleAnswers) true, .enter none]).map
        (fun s => s.handled.map fun r => (r.fromBlock, r.toBlock)) = some [(6, 6)] := by
    decide +kernel
  obtain ⟨s, hs, hrange⟩ := Option.map_eq_some_iff.mp hranges
  obtain ⟨r, hr, hfrom, hto⟩ : ∃ r ∈ s.handled, r.fromBlock = 6 ∧ r.toBlock = 6 := by
    have hmem : (6, 6) ∈ s.handled.map fun r => (r.fromBlock, r.toBlock) :=
      hrange ▸ List.mem_cons_self
    obtain ⟨r, hr, hpair⟩ := List.mem_map.mp hmem
    exact ⟨r, hr, (Prod.mk.inj hpair).1, (Prod.mk.inj hpair).2⟩
  obtain ⟨r', hr', hle, -⟩ := h _ s (System.run_of_replay hs) 5 rfl r hr 5 le_rfl (by omega)
  have hmem := List.mem_map_of_mem (f := fun r => (r.fromBlock, r.toBlock)) hr'
  rw [hrange, List.mem_singleton, Prod.mk.injEq] at hmem
  omega

end Fhevm.GwListener
