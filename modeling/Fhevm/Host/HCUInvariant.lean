import Fhevm.Host.Permissions

/-!
# The accounts of a transaction

The sum that the limits keep in slot `0` is that of the costs of the operations of the
transaction so far, and no depth exceeds it. This rests on handles not being slot
`0`: an operand is allowed to its user, so that an operation returned it, and no
operation returns the handle `0`.

## Main definitions

* `spent` — the costs of the operations of the current transaction.
* `WithinLimits` — sum and depths agree with the costs and are within the limits.
* `Accounted` — what holds of every operation of a run.
-/

namespace Fhevm.Host

open Foundation Contract FHEVMExecutor

variable {K : HostConfig}

/-! ## Costs -/

/-- The cost of a call, which is nothing if it fails. -/
def chargeOf (K : HostConfig) (i : HostCall K.deployment) (s : HostState) : Nat :=
  match i with
  | .executor ctx call =>
    match executorCall K.deployment K.signatures ctx s call with
    | .ok _ => call.cost.getD 0
    | .error _ => 0
  | _ => 0

/-- The costs of the current transaction. -/
def spent (K : HostConfig) : List (HostCall K.deployment) → Nat
  | [] => 0
  | .endTransaction :: _ => 0
  | i :: past => chargeOf K i (hostAfter K past) + spent K past

theorem spent_executor {ctx : Context} {call : ExecutorCall} {past : List (HostCall K.deployment)} :
    spent K (.executor ctx call :: past) =
      chargeOf K (.executor ctx call) (hostAfter K past) + spent K past := rfl

theorem chargeOf_of_ok {ctx : Context} {call : ExecutorCall} {s s' : HostState}
    {r : Bytes32 × TfheEvent}
    (h : executorCall K.deployment K.signatures ctx s call = .ok (r, s')) :
    chargeOf K (.executor ctx call) s = call.cost.getD 0 := by
  simp [chargeOf, h]

theorem chargeOf_of_error {i : HostCall K.deployment} {s : HostState} {e : HostError}
    (h : (hostChain K).call i s = .error e) : chargeOf K i s = 0 := by
  cases i with
  | executor ctx call =>
    cases hcall : executorCall K.deployment K.signatures ctx s call with
    | error e => simp [chargeOf, hcall]
    | ok r =>
      obtain ⟨⟨result, event⟩, s'⟩ := r
      rw [executor_eq_ok.mpr ⟨result, event, hcall, rfl⟩] at h
      cases h
  | _ => rfl

/-! ## Handles are not slot `0` -/

/-- What an operation is described by. -/
theorem computation_eq_some {D : Deployment} {seed : BitVec 128} {call : ExecutorCall}
    {c : Computation} (h : computation D seed call = some c) :
    c.preimage = call.preimage D seed ∧ c.operands = call.operands ∧
      call.resultType = some c.resultType ∧ call.cost = some c.cost := by
  simp only [computation, Option.bind_eq_bind, Option.bind_eq_some_iff] at h
  obtain ⟨type, htype, cost, hcost, heq⟩ := h
  cases heq
  exact ⟨rfl, rfl, htype, hcost⟩

/-- Computed handles carry the index byte `0xff`, accepted ones the id of the chain. -/
theorem Returns.ne_zero {past : List (HostCall K.deployment)} {ctx : Context} {call : ExecutorCall}
    {result : Bytes32} (hchain : K.deployment.chainid ≠ 0) (h : Returns K past ctx call result) :
    result ≠ 0 := by
  obtain ⟨event, s', hok⟩ := h
  cases hinput : call.isInput with
  | false =>
    obtain ⟨-, -, c, -, hperforms⟩ := executorCall_ok hinput hok
    rw [hperforms.result_eq]
    exact appendMetadataToPrehandle_ne_zero _ _ _
  | true =>
    cases call with
    | verifyInput inputHandle userAddress inputProof inputType =>
      obtain ⟨-, rfl, -, -, -, -, -, hverify⟩ := verifyInput_ok hok
      rintro rfl
      apply hchain
      rw [← (verifyInput_result hverify).2.1]
      decide
    | _ => cases hinput

theorem SlotsApart.of_suffix {past calls : List (HostCall K.deployment)}
    {P : Set (Bytes32 × Address)} (h : SlotsApart K calls P) (hs : past <:+ calls) :
    SlotsApart K past P := by
  have hsub := Set.union_subset_union_left P (Touched.mono hs)
  exact ⟨h.injOn.mono hsub, fun p hp => hs.length_le.trans_lt (h.large p (hsub hp))⟩

/-- Operands were returned by operations. -/
theorem operand_ne_zero {calls past : List (HostCall K.deployment)} {ctx : Context}
    {call : ExecutorCall} {result operand : Bytes32} (hchain : K.deployment.chainid ≠ 0)
    (hslots : SlotsApart K calls ∅) (hran : Ran calls (.executor ctx call) past)
    (hreturns : Returns K past ctx call result) (hoperand : operand ∈ call.operands) :
    operand ≠ 0 := by
  obtain ⟨event, s', hok⟩ := hreturns
  have hallowed := (executorCall_effect hok).2 operand hoperand
  have htouched : (operand, ctx.sender) ∈ Touched K calls := ⟨_, _, hran, rfl, .inl hoperand⟩
  have hslots' : SlotsApart K calls {(operand, ctx.sender)} := by
    have hsub : Touched K calls ∪ {(operand, ctx.sender)} ⊆ Touched K calls ∪ ∅ := by
      rw [Set.union_empty]
      exact Set.union_subset subset_rfl (Set.singleton_subset_iff.mpr htouched)
    exact ⟨hslots.injOn.mono hsub, fun p hp => hslots.large p (hsub hp)⟩
  have hreaches := (permissionsTraced K past operand ctx.sender
    (hslots'.of_suffix hran.past_suffix)).allowed hallowed
  obtain ⟨_, _, _, -, hret⟩ := hreaches.returned
  exact hret.ne_zero hchain

/-! ## The invariant -/

/-- The sum is that of the costs, no depth exceeds it, and both are within their limits. -/
structure WithinLimits (spent : Nat) (s : HCUStorage) : Prop where
  counter : s 0 = spent
  counter_lt : spent < MAX_HOMOMORPHIC_COMPUTE_UNITS_PER_TX
  depth_le : ∀ handle, handle ≠ 0 → s handle ≤ spent
  depth_lt : ∀ handle, handle ≠ 0 → s handle < MAX_HOMOMORPHIC_COMPUTE_UNITS_DEPTH_PER_TX

theorem withinLimits_init : WithinLimits 0 HCUStorage.init :=
  ⟨rfl, by decide, fun _ _ => le_rfl, fun _ _ => show 0 < 5000000 by decide⟩

/-- An operation adds its cost to the sum, and its result is as deep as its deepest operand and
its own cost. -/
theorem withinLimits_charged {cost total : Nat} {operands : List Bytes32} {result : Bytes32}
    {s s' : HCUStorage} (h : WithinLimits total s) (hc : Charged cost operands result s s')
    (hoperands : ∀ operand ∈ operands, operand ≠ 0) (hresult : result ≠ 0) :
    WithinLimits (cost + total) s' ∧ s' result = cost + s.maxHCU operands := by
  obtain ⟨ht, hd, rfl⟩ := hc
  rw [maxHCU_update_zero hoperands] at hd ⊢
  rw [h.counter] at ht ⊢
  have hdepth : s.maxHCU operands ≤ total :=
    maxHCU_le fun operand ho => h.depth_le operand (hoperands operand ho)
  refine ⟨⟨?_, ht, ?_, ?_⟩, Function.update_self _ _ _⟩
  · rw [Function.update_of_ne hresult.symm, Function.update_self]
  · intro handle hne
    by_cases heq : handle = result
    · subst heq
      rw [Function.update_self]
      omega
    · rw [Function.update_of_ne heq, Function.update_of_ne hne]
      have := h.depth_le handle hne
      omega
  · intro handle hne
    by_cases heq : handle = result
    · subst heq
      rwa [Function.update_self]
    · rw [Function.update_of_ne heq, Function.update_of_ne hne]
      exact h.depth_lt handle hne

/-- What an operation does to the accounts. -/
theorem withinLimits_executor {calls past : List (HostCall K.deployment)} {ctx : Context}
    {call : ExecutorCall} {result : Bytes32} {event : TfheEvent} {s' : HostState} {total : Nat}
    (hchain : K.deployment.chainid ≠ 0) (hslots : SlotsApart K calls ∅)
    (hran : Ran calls (.executor ctx call) past)
    (hok : executorCall K.deployment K.signatures ctx (hostAfter K past) call =
      .ok ((result, event), s'))
    (h : WithinLimits total (hostAfter K past).hcu) :
    WithinLimits (call.cost.getD 0 + total) s'.hcu ∧ (call.isInput = false → ∃ cost,
      call.cost = some cost ∧ s'.hcu result = cost + (hostAfter K past).hcu.maxHCU call.operands) := by
  cases hinput : call.isInput with
  | true =>
    cases call with
    | verifyInput inputHandle userAddress inputProof inputType =>
      obtain ⟨-, -, -, -, -, hhcu, -⟩ := verifyInput_ok hok
      rw [hhcu]
      refine ⟨?_, fun hf => by cases hf⟩
      simpa [ExecutorCall.cost] using h
    | _ => cases hinput
  | false =>
    have hreturns : Returns K past ctx call result := ⟨event, s', hok⟩
    obtain ⟨-, -, c, hc, hperforms⟩ := executorCall_ok hinput hok
    obtain ⟨-, hoperands, -, hcost⟩ := computation_eq_some hc
    have hcharged := hperforms.charged
    rw [hoperands] at hcharged
    obtain ⟨hlimits, hdepth⟩ := withinLimits_charged h hcharged
      (fun operand ho => operand_ne_zero hchain hslots hran hreturns ho) (hreturns.ne_zero hchain)
    rw [hcost, Option.getD_some]
    exact ⟨hlimits, fun _ => ⟨c.cost, rfl, hdepth⟩⟩

theorem withinLimits {calls : List (HostCall K.deployment)} (hchain : K.deployment.chainid ≠ 0)
    (hslots : SlotsApart K calls ∅) (past : List (HostCall K.deployment)) (hs : past <:+ calls) :
    WithinLimits (spent K past) (hostAfter K past).hcu := by
  induction past with
  | nil => exact withinLimits_init
  | cons i past ih =>
    have hpast := ih ((List.suffix_cons i past).trans hs)
    obtain ⟨e, he, hstep⟩ | ⟨o, ho⟩ := step_cases i (hostAfter K past) (C := hostChain K)
    · -- a call that fails costs nothing
      rw [hostAfter_cons, hstep]
      cases i with
      | endTransaction => cases he
      | _ => simpa [spent, chargeOf_of_error he] using hpast
    rw [hostAfter_cons]
    generalize (hostChain K).step i (hostAfter K past) = s' at ho
    cases i with
    | acl ctx call external =>
      obtain ⟨events, acl, -, -, rfl⟩ := acl_eq_ok.mp ho
      simpa [spent, chargeOf] using hpast
    | executor ctx call =>
      obtain ⟨result, event, hok, -⟩ := executor_eq_ok.mp ho
      rw [spent_executor, chargeOf_of_ok hok]
      exact (withinLimits_executor hchain hslots hs hok hpast).1
    | verifyInput context inputHandle inputProof =>
      obtain ⟨handle, verifier, -, -, rfl⟩ := verifyInput_eq_ok.mp ho
      simpa [spent, chargeOf] using hpast
    | cleanProofCache =>
      cases ho
      simpa [spent, chargeOf] using hpast
    | endTransaction =>
      cases ho
      exact withinLimits_init

/-- What holds of an operation of a run: neither its operands nor its result are slot `0`, and
its result is as deep as its deepest operand and its own cost. -/
structure Accounted (K : HostConfig) (past : List (HostCall K.deployment)) (ctx : Context)
    (call : ExecutorCall) (result : Bytes32) : Prop where
  result_ne_zero : result ≠ 0
  operand_ne_zero : ∀ operand ∈ call.operands, operand ≠ 0
  depth : call.isInput = false → ∃ cost, call.cost = some cost ∧
    (hostAfter K (.executor ctx call :: past)).hcu result =
      cost + (hostAfter K past).hcu.maxHCU call.operands

/-- At every time of a run the sum is that of the costs of the transaction so far, sum and
depths are within their limits, and every operation is accounted for. -/
theorem hcuAccounted (K : HostConfig) (calls : List (HostCall K.deployment))
    (hchain : K.deployment.chainid ≠ 0) (hslots : SlotsApart K calls ∅) :
    (∀ past, past <:+ calls → WithinLimits (spent K past) (hostAfter K past).hcu) ∧
      ∀ ctx call past result, Ran calls (.executor ctx call) past →
        Returns K past ctx call result → Accounted K past ctx call result := by
  have hlimits := withinLimits hchain hslots
  refine ⟨hlimits, ?_⟩
  intro ctx call past result hran hreturns
  refine ⟨hreturns.ne_zero hchain,
    fun operand ho => operand_ne_zero hchain hslots hran hreturns ho, ?_⟩
  intro hinput
  obtain ⟨event, s', hok⟩ := hreturns
  have hafter : hostAfter K (.executor ctx call :: past) = s' :=
    step_of_ok (executor_eq_ok.mpr ⟨result, event, hok, rfl⟩)
  rw [hafter]
  exact (withinLimits_executor hchain hslots hran hok (hlimits past hran.past_suffix)).2 hinput

/-- In the run that shares a handle, its encryption is the only cost. -/
theorem sharingRun_spent : (hostAfter sampleConfig sharingRun).hcu 0 = 32 := by
  have hslots : SlotsApart sampleConfig sharingRun ∅ :=
    slotsApart_sharingRun.mono (Set.empty_subset _)
  have hlimits := (hcuAccounted sampleConfig sharingRun (by decide) hslots).1
  rw [(hlimits sharingRun List.suffix_rfl).counter]
  decide +kernel

end Fhevm.Host
