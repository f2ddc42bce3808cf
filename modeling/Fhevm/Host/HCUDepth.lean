import Fhevm.Host.HCUInvariant
import Fhevm.Host.Handles

/-!
# The depth of a transaction's computations

The operations of a transaction form a graph, from the operands to the results. Its
depth is the largest sum of costs along a chain. The limit on depths compares only the
depths recorded so far, so a handle that is computed again after it was used may be
deeper than its users know.

## Main definitions

* `operations` — the operations of the current transaction.
* `Chain` — a chain of operations and the sum of its costs.
* `KeepsDepths` — the operation makes no handle deeper that was used before.
-/

namespace Fhevm.Host

open Foundation Contract FHEVMExecutor

variable {K : HostConfig}

/-! ## The graph of a transaction -/

/-- An operation with its seed and its result. -/
structure Operation where
  call : ExecutorCall
  seed : BitVec 128
  result : Bytes32
deriving DecidableEq, Repr

/-- The operation that a call performs. -/
def performed (K : HostConfig) (i : HostCall K.deployment) (s : HostState) : Option Operation :=
  match i with
  | .executor ctx call =>
    match executorCall K.deployment K.signatures ctx s call with
    | .ok ((result, _), _) =>
      if call.isInput then none
      else some ⟨call, seedOf K.deployment ctx s.counterRand, result⟩
    | .error _ => none
  | _ => none

/-- The operations of the current transaction, newest first. -/
def operations (K : HostConfig) : List (HostCall K.deployment) → List Operation
  | [] => []
  | .endTransaction :: _ => []
  | i :: past => (performed K i (hostAfter K past)).toList ++ operations K past

/-- A chain of operations that leads to a handle, and the sum of its costs. -/
inductive Chain (ops : List Operation) : Bytes32 → Nat → Prop
  | single {op : Operation} {cost : Nat} (hop : op ∈ ops) (hcost : op.call.cost = some cost) :
      Chain ops op.result cost
  | step {op : Operation} {cost weight : Nat} {operand : Bytes32} (hop : op ∈ ops)
      (hcost : op.call.cost = some cost) (hoperand : operand ∈ op.call.operands)
      (hchain : Chain ops operand weight) : Chain ops op.result (cost + weight)

/-- The operation does not make its result deeper if the result was used before, or is used by
the operation itself. -/
def KeepsDepths (K : HostConfig) (past : List (HostCall K.deployment)) (ctx : Context)
    (call : ExecutorCall) : Prop :=
  ∀ type cost, call.resultType = some type → call.cost = some cost →
    let result := handleOf K.deployment
      (call.preimage K.deployment (seedOf K.deployment ctx (hostAfter K past).counterRand)) type
    (result ∈ call.operands ∨ ∃ op ∈ operations K past, result ∈ op.call.operands) →
      cost + (hostAfter K past).hcu.maxHCU call.operands ≤ (hostAfter K past).hcu result

/-- The truncated hash has no collision on the operations of a transaction. -/
def HandlesDiffer (K : HostConfig) (past : List (HostCall K.deployment)) : Prop :=
  ∀ op ∈ operations K past, ∀ op' ∈ operations K past, TruncatedHashDiffers K.deployment
    (op.call.preimage K.deployment op.seed) (op'.call.preimage K.deployment op'.seed)

/-! ## Recorded depths -/

/-- The depths recorded for the operands of an operation and for its result agree with its cost. -/
structure Recorded (s : HCUStorage) (op : Operation) : Prop where
  computed : op.call.isInput = false
  result_ne_zero : op.result ≠ 0
  operand_ne_zero : ∀ operand ∈ op.call.operands, operand ≠ 0
  cost_le : ∃ cost, op.call.cost = some cost ∧ cost ≤ s op.result ∧
    ∀ operand ∈ op.call.operands, cost + s operand ≤ s op.result

theorem Chain.weight_le {ops : List Operation} {s : HCUStorage}
    (hrecorded : ∀ op ∈ ops, Recorded s op) {handle : Bytes32} {weight : Nat}
    (h : Chain ops handle weight) : weight ≤ s handle ∧ handle ≠ 0 := by
  induction h with
  | single hop hcost =>
    obtain ⟨-, hne, -, cost, hcost', hle, -⟩ := hrecorded _ hop
    cases hcost.symm.trans hcost'
    exact ⟨hle, hne⟩
  | step hop hcost hoperand _ ih =>
    obtain ⟨-, hne, -, cost, hcost', -, hle⟩ := hrecorded _ hop
    cases hcost.symm.trans hcost'
    have := hle _ hoperand
    exact ⟨by omega, hne⟩

/-- An operation keeps what is recorded of another one, unless both have the same result, or it
makes an operand of the other deeper. -/
theorem Recorded.of_charged {s s' : HCUStorage} {op : Operation} {cost : Nat}
    {operands : List Bytes32} {result : Bytes32} (h : Recorded s op)
    (heq : ∀ handle ≠ 0, s' handle = if handle = result then cost + s.maxHCU operands else s handle)
    (hne : op.result ≠ result)
    (hkeeps : result ∈ op.call.operands → cost + s.maxHCU operands ≤ s result) :
    Recorded s' op := by
  obtain ⟨hcomputed, hresult, hoperands, opCost, hcost, hle, hchain⟩ := h
  refine ⟨hcomputed, hresult, hoperands, opCost, hcost, ?_, ?_⟩
  · rwa [heq _ hresult, if_neg hne]
  · intro operand ho
    rw [heq _ hresult, if_neg hne, heq _ (hoperands operand ho)]
    have := hchain operand ho
    split_ifs with h
    · subst h
      have := hkeeps ho
      omega
    · exact this

/-- An operation that is charged is recorded. -/
theorem recorded_of_charged {s s' : HCUStorage} {op : Operation} {cost : Nat}
    (hcomputed : op.call.isInput = false) (hcost : op.call.cost = some cost)
    (heq : ∀ handle ≠ 0, s' handle =
      if handle = op.result then cost + s.maxHCU op.call.operands else s handle)
    (hresult : op.result ≠ 0) (hoperands : ∀ operand ∈ op.call.operands, operand ≠ 0)
    (hkeeps : op.result ∈ op.call.operands →
      cost + s.maxHCU op.call.operands ≤ s op.result) : Recorded s' op := by
  refine ⟨hcomputed, hresult, hoperands, cost, hcost, ?_, ?_⟩
  · rw [heq _ hresult, if_pos rfl]
    omega
  · intro operand ho
    have hle : s operand ≤ s.maxHCU op.call.operands := le_maxHCU ho
    rw [heq _ hresult, if_pos rfl, heq _ (hoperands operand ho)]
    split_ifs with h
    · subst h
      have := hkeeps ho
      omega
    · omega

/-! ## Every run -/

theorem charged_apply {cost : Nat} {operands : List Bytes32} {result handle : Bytes32}
    {s s' : HCUStorage} (h : Charged cost operands result s s')
    (hoperands : ∀ operand ∈ operands, operand ≠ 0) (hhandle : handle ≠ 0) :
    s' handle = if handle = result then cost + s.maxHCU operands else s handle := by
  rw [h.eq, maxHCU_update_zero hoperands, Function.update_apply, Function.update_of_ne hhandle]

/-- What a successful operation adds to the graph. -/
theorem performed_executor {past : List (HostCall K.deployment)} {ctx : Context}
    {call : ExecutorCall} {result : Bytes32} {event : TfheEvent} {s' : HostState}
    (hinput : call.isInput = false)
    (hok : executorCall K.deployment K.signatures ctx (hostAfter K past) call =
      .ok ((result, event), s')) :
    operations K (.executor ctx call :: past) =
      ⟨call, seedOf K.deployment ctx (hostAfter K past).counterRand, result⟩ ::
        operations K past := by
  simp [operations, performed, hok, hinput]

theorem operations_of_not_performed {past : List (HostCall K.deployment)}
    {i : HostCall K.deployment} (hend : i ≠ .endTransaction)
    (h : performed K i (hostAfter K past) = none) :
    operations K (i :: past) = operations K past := by
  cases i with
  | endTransaction => exact absurd rfl hend
  | _ => simp [operations, h]

/-- The result of an operation of the graph is the handle of its description. -/
theorem operation_result {past : List (HostCall K.deployment)} {op : Operation}
    (hop : op ∈ operations K past) : op.call.isInput = false ∧ ∃ type,
      op.call.resultType = some type ∧
        op.result = handleOf K.deployment (op.call.preimage K.deployment op.seed) type := by
  induction past with
  | nil => cases hop
  | cons i past ih =>
    cases i with
    | executor ctx call =>
      cases hok : executorCall K.deployment K.signatures ctx (hostAfter K past) call with
      | error e =>
        rw [operations_of_not_performed (by simp) (by simp [performed, hok])] at hop
        exact ih hop
      | ok r =>
        obtain ⟨⟨result, event⟩, s'⟩ := r
        cases hinput : call.isInput with
        | true =>
          rw [operations_of_not_performed (by simp) (by simp [performed, hok, hinput])] at hop
          exact ih hop
        | false =>
          rw [performed_executor hinput hok] at hop
          rcases List.mem_cons.mp hop with rfl | hop
          · exact ⟨hinput, result_eq_handleOf hinput hok⟩
          · exact ih hop
    | endTransaction => cases hop
    | _ =>
      rw [operations_of_not_performed (by simp) rfl] at hop
      exact ih hop

/-- An operation that keeps the depths of used handles keeps all recorded depths. -/
theorem recorded_executor {calls past : List (HostCall K.deployment)} {ctx : Context}
    {call : ExecutorCall} {result : Bytes32} {event : TfheEvent} {s' : HostState}
    (hchain : K.deployment.chainid ≠ 0) (hslots : SlotsApart K calls ∅)
    (hran : Ran calls (.executor ctx call) past)
    (hdiffer : HandlesDiffer K (.executor ctx call :: past)) (hinput : call.isInput = false)
    (hok : executorCall K.deployment K.signatures ctx (hostAfter K past) call =
      .ok ((result, event), s'))
    (hkeeps : KeepsDepths K past ctx call)
    (h : ∀ op ∈ operations K past, Recorded (hostAfter K past).hcu op) :
    ∀ op ∈ operations K (.executor ctx call :: past), Recorded s'.hcu op := by
  have hreturns : Returns K past ctx call result := ⟨event, s', hok⟩
  have hoperands : ∀ operand ∈ call.operands, operand ≠ 0 := fun operand ho =>
    operand_ne_zero hchain hslots hran hreturns ho
  obtain ⟨-, -, c, hc, hperforms⟩ := executorCall_ok hinput hok
  obtain ⟨hpreimage, hops, htype, hcost⟩ := computation_eq_some hc
  have hcharged := hperforms.charged
  rw [hops] at hcharged
  have happly : ∀ handle ≠ 0, s'.hcu handle = if handle = result then
      c.cost + (hostAfter K past).hcu.maxHCU call.operands else (hostAfter K past).hcu handle :=
    fun handle hne => charged_apply hcharged hoperands hne
  have hresult : result = handleOf K.deployment (call.preimage K.deployment
      (seedOf K.deployment ctx (hostAfter K past).counterRand)) c.resultType := by
    rw [hperforms.result_eq, hpreimage]
  have hgrows := hkeeps c.resultType c.cost htype hcost
  rw [← hresult] at hgrows
  rw [HandlesDiffer, performed_executor hinput hok] at hdiffer
  rw [performed_executor hinput hok]
  intro op hop
  by_cases hsame : op.result = result
  · -- the same handle is the same operation
    have hcall : op.call = call := by
      rcases List.mem_cons.mp hop with rfl | hmem
      · rfl
      · obtain ⟨hopInput, opType, -, hopResult⟩ := operation_result hmem
        have hhash : prehandleHash K.deployment (op.call.preimage K.deployment op.seed) =
            prehandleHash K.deployment (call.preimage K.deployment
              (seedOf K.deployment ctx (hostAfter K past).counterRand)) := by
          rw [← handleOf_hash _ _ opType, ← handleOf_hash _ _ c.resultType, ← hresult, ← hopResult,
            hsame]
        have hoperation := operation_of_preimage hopInput hinput
          (hdiffer op hop _ List.mem_cons_self hhash)
        simpa using congrArg Prod.fst hoperation
    have hopCost : op.call.cost = some c.cost := by rw [hcall, hcost]
    refine recorded_of_charged (s := (hostAfter K past).hcu) ?_ hopCost ?_ ?_ ?_ ?_
    · rwa [hcall]
    · rwa [hcall, hsame]
    · rw [hsame]
      exact hreturns.ne_zero hchain
    · rwa [hcall]
    · rw [hcall, hsame]
      exact fun ho => hgrows (.inl ho)
  · rcases List.mem_cons.mp hop with rfl | hmem
    · exact absurd rfl hsame
    · exact (h op hmem).of_charged happly hsame fun ho => hgrows (.inr ⟨op, hmem, ho⟩)

theorem recorded {calls : List (HostCall K.deployment)} (hchain : K.deployment.chainid ≠ 0)
    (hslots : SlotsApart K calls ∅)
    (hdiffer : ∀ past, past <:+ calls → HandlesDiffer K past)
    (hkeeps : ∀ ctx call past result, Ran calls (.executor ctx call) past →
      Returns K past ctx call result → KeepsDepths K past ctx call)
    (past : List (HostCall K.deployment)) (hs : past <:+ calls) :
    ∀ op ∈ operations K past, Recorded (hostAfter K past).hcu op := by
  induction past with
  | nil => exact fun op hop => absurd hop (by simp [operations])
  | cons i past ih =>
    have hpast := ih ((List.suffix_cons i past).trans hs)
    obtain ⟨e, he, hstep⟩ | ⟨o, ho⟩ := step_cases i (hostAfter K past) (C := hostChain K)
    · rw [hostAfter_cons, hstep]
      cases i with
      | endTransaction => cases he
      | executor ctx call =>
        have hfails : performed K (.executor ctx call) (hostAfter K past) = none := by
          cases hok : executorCall K.deployment K.signatures ctx (hostAfter K past) call with
          | error e => simp [performed, hok]
          | ok r =>
            rw [executor_eq_ok.mpr ⟨r.1.1, r.1.2, hok, rfl⟩] at he
            cases he
        rwa [operations_of_not_performed (by simp) hfails]
      | _ => exact hpast
    rw [hostAfter_cons]
    generalize (hostChain K).step i (hostAfter K past) = s' at ho
    cases i with
    | acl ctx call external =>
      obtain ⟨events, acl, -, -, rfl⟩ := acl_eq_ok.mp ho
      exact hpast
    | executor ctx call =>
      obtain ⟨result, event, hok, -⟩ := executor_eq_ok.mp ho
      cases hinput : call.isInput with
      | true =>
        rw [operations_of_not_performed (by simp) (by simp [performed, hok, hinput])]
        cases call with
        | verifyInput inputHandle userAddress inputProof inputType =>
          rw [(verifyInput_ok hok).2.2.2.2.2.1]
          exact hpast
        | _ => cases hinput
      | false =>
        exact recorded_executor hchain hslots hs (hdiffer _ hs) hinput hok
          (hkeeps ctx call past result hs ⟨event, s', hok⟩) hpast
    | verifyInput context inputHandle inputProof =>
      obtain ⟨handle, verifier, -, -, rfl⟩ := verifyInput_eq_ok.mp ho
      exact hpast
    | cleanProofCache =>
      cases ho
      exact hpast
    | endTransaction => exact fun op hop => absurd hop (by simp [operations])

/-- In a run whose operations make no used handle deeper, every chain of operations of a
transaction stays within the limit on depths. -/
theorem chain_lt (K : HostConfig) (calls : List (HostCall K.deployment))
    (hchain : K.deployment.chainid ≠ 0) (hslots : SlotsApart K calls ∅)
    (hdiffer : ∀ past, past <:+ calls → HandlesDiffer K past)
    (hkeeps : ∀ ctx call past result, Ran calls (.executor ctx call) past →
      Returns K past ctx call result → KeepsDepths K past ctx call)
    (past : List (HostCall K.deployment)) (hs : past <:+ calls) (handle : Bytes32) (weight : Nat)
    (hweight : Chain (operations K past) handle weight) :
    weight < MAX_HOMOMORPHIC_COMPUTE_UNITS_DEPTH_PER_TX := by
  obtain ⟨hle, hne⟩ := hweight.weight_le (recorded hchain hslots hdiffer hkeeps past hs)
  exact hle.trans_lt ((withinLimits hchain hslots past hs).depth_lt handle hne)

/-- In the run that shares a handle, nothing is deeper than its encryption. -/
theorem sharingRun_chain_lt : Chain (operations sampleConfig sharingRun) sharedHandle 32 ∧
    32 < MAX_HOMOMORPHIC_COMPUTE_UNITS_DEPTH_PER_TX := by
  have hslots : SlotsApart sampleConfig sharingRun ∅ :=
    slotsApart_sharingRun.mono (Set.empty_subset _)
  have hops : ∀ past, past <:+ sharingRun →
      operations sampleConfig past = [] ∨ operations sampleConfig past =
        [⟨.trivialEncrypt 5 .uint8, seedOf sampleConfig.deployment (sampleContext 10) 0,
          sharedHandle⟩] := by
    intro past hs
    rw [sharingRun, List.suffix_cons_iff, List.suffix_cons_iff] at hs
    rcases hs with rfl | rfl | hs
    · exact .inr (by decide +kernel)
    · exact .inr (by decide +kernel)
    · exact .inl (by rw [List.eq_nil_of_suffix_nil hs]; rfl)
  have hdiffer : ∀ past, past <:+ sharingRun → HandlesDiffer sampleConfig past := by
    intro past hs op hop op' hop' _
    rcases hops past hs with h | h
    · rw [h] at hop
      cases hop
    · rw [h, List.mem_singleton] at hop hop'
      rw [hop, hop']
  have hkeeps : ∀ ctx call past result, Ran sharingRun (.executor ctx call) past →
      Returns sampleConfig past ctx call result → KeepsDepths sampleConfig past ctx call := by
    intro ctx call past result hran _
    rw [sharingRun, ran_cons, ran_cons] at hran
    rcases hran with ⟨heq, -⟩ | ⟨heq, rfl⟩ | hran
    · cases heq
    · cases heq
      intro type cost _ _ result hused
      rcases hused with hmem | ⟨op, hop, -⟩
      · simp [ExecutorCall.operands] at hmem
      · simp [operations] at hop
    · simp at hran
  have hchain : Chain (operations sampleConfig sharingRun) sharedHandle 32 := by
    rw [show operations sampleConfig sharingRun = [⟨.trivialEncrypt 5 .uint8,
      seedOf sampleConfig.deployment (sampleContext 10) 0, sharedHandle⟩] by decide +kernel]
    exact .single List.mem_cons_self rfl
  exact ⟨hchain, chain_lt sampleConfig sharingRun (by decide) hslots hdiffer hkeeps sharingRun
    List.suffix_rfl sharedHandle 32 hchain⟩

/-! ### Consumers first -/

def lateRem (lhs : Bytes32) : HostCall sampleConfig.deployment :=
  .executor (sampleContext 10) (.binary .fheRem lhs 3 1)

def remHandle (lhs : Bytes32) : Bytes32 :=
  handleOf sampleConfig.deployment
    ((ExecutorCall.binary .fheRem lhs 3 1).preimage sampleConfig.deployment 0) .uint128

theorem sampleSender_ne : (sampleContext 10).sender ≠ sampleConfig.deployment.fhevmExecutorAdd := by
  decide

def keep (handle : Bytes32) : HostCall sampleConfig.deployment :=
  .acl (sampleContext 10) (.allow handle 10) sampleSender_ne

/-- The encryption of 7, and its remainders by 3 of the first, second and third order. -/
def lateHandle : Nat → Bytes32
  | 0 => handleOf sampleConfig.deployment
      ((ExecutorCall.trivialEncrypt 7 .uint128).preimage sampleConfig.deployment 0) .uint128
  | n + 1 => remHandle (lateHandle n)

/-- One transaction takes two remainders. The next one takes the third, and only then the second
and the first again. -/
def lateRun : List (HostCall sampleConfig.deployment) :=
  [lateRem (lateHandle 0), lateRem (lateHandle 1), lateRem (lateHandle 2), .endTransaction,
    keep (lateHandle 2), lateRem (lateHandle 1), keep (lateHandle 1), lateRem (lateHandle 0),
    keep (lateHandle 0), .executor (sampleContext 10) (.trivialEncrypt 7 .uint128)]

def lateOperation (n : Nat) : Operation where
  call := .binary .fheRem (lateHandle n) 3 1
  seed := seedOf sampleConfig.deployment (sampleContext 10) 0
  result := lateHandle (n + 1)

theorem operations_lateRun : operations sampleConfig lateRun =
    [lateOperation 0, lateOperation 1, lateOperation 2] := by
  decide +kernel

/-- The second transaction is accepted, and its chain of three remainders is too long. -/
theorem lateRun_too_deep : ¬ ∀ handle weight, Chain (operations sampleConfig lateRun) handle weight →
    weight < MAX_HOMOMORPHIC_COMPUTE_UNITS_DEPTH_PER_TX := by
  intro h
  have hcost : ∀ n, n < 3 → (lateOperation n).call.cost = some 1943000 := by decide +kernel
  have hmem : ∀ n, n < 3 → lateOperation n ∈ operations sampleConfig lateRun := by
    rw [operations_lateRun]
    decide +kernel
  have hoperand : ∀ n, lateHandle n ∈ (lateOperation n).call.operands := by
    intro n
    simp [lateOperation, ExecutorCall.operands]
  have h1 := Chain.single (hmem 0 (by decide)) (hcost 0 (by decide))
  have h2 := Chain.step (hmem 1 (by decide)) (hcost 1 (by decide)) (hoperand 1) h1
  have h3 := Chain.step (hmem 2 (by decide)) (hcost 2 (by decide)) (hoperand 2) h2
  exact absurd (h _ _ h3) (by decide)

end Fhevm.Host
