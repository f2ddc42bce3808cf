import Fhevm.Gateway.MultichainACL

/-!
# The host chains and the gateway

The host chains and the gateway as one system: accounts call the host contracts,
and anyone calls the gateway, in any order.

## Main definitions

* `bridge` — the system.
* `relay` — the report that an event of a host chain calls for.
* `HostEmitted`, `Forges` — what the host chains emitted, and who reports something else.
* `HostHistory`, `Voted` — what is known of the host chains and of the votes after a run.
-/

namespace Fhevm.Gateway

open Foundation Contract Host

/-! ## The system -/

/-- The contracts of the host chains, by chain id, and the gateway's. -/
structure Bridge where
  host : Nat → ACLState
  gateway : MultichainACLState

def Bridge.init : Bridge := ⟨fun _ => ACLState.init, MultichainACLState.init⟩

inductive BridgeCall
  | host (chainId : Nat) (ctx : Context) (call : ACLCall)
  | report (sender : Address) (report : Report) (args : DelegationArgs)

inductive BridgeEvent
  | host (chainId : Nat) (event : ACLEvent)
  | gateway (event : MultichainACLEvent)
deriving DecidableEq

/-- What stays fixed in a run: the deployments, the hash of reports and the coprocessors. -/
structure BridgeConfig where
  deployment : Nat → Deployment
  hashOf : DelegationArgs → Bytes32
  coprocessors : CoprocessorConfig

def bridge (K : BridgeConfig) :
    Contract BridgeCall Bridge (HostError ⊕ MultichainACLError) (List BridgeEvent) where
  call
    | .host chainId ctx call, s =>
      match aclCall (K.deployment chainId) ctx (s.host chainId) call with
      | .ok (ev, acl) =>
        .ok (ev.map (.host chainId), { s with host := Function.update s.host chainId acl })
      | .error e => .error (.inl e)
    | .report sender report args, s =>
      match reportCall K.hashOf K.coprocessors report sender args s.gateway with
      | .ok (ev, gateway) => .ok (ev.map .gateway, { s with gateway := gateway })
      | .error e => .error (.inr e)

abbrev bridgeAfter (K : BridgeConfig) (calls : List BridgeCall) : Bridge :=
  (bridge K).exec Bridge.init calls

/-- The report that a coprocessor sends for an event of a host chain. -/
def relay (chainId : Nat) : ACLEvent → Option (Report × DelegationArgs)
  | .delegatedForUserDecryption delegator delegate contractAddress counter _ new =>
    some (.delegate, ⟨chainId, delegator, delegate, contractAddress, counter, new⟩)
  | .revokedDelegationForUserDecryption delegator delegate contractAddress counter old =>
    some (.revoke, ⟨chainId, delegator, delegate, contractAddress, counter, old⟩)
  | _ => none

/-- The call emits an event for which the report is sent. -/
def Emits (K : BridgeConfig) (i : BridgeCall) (past : List BridgeCall)
    (r : Report × DelegationArgs) : Prop :=
  ∃ ev s', (bridge K).call i (bridgeAfter K past) = .ok (ev, s') ∧
    ∃ chainId event, .host chainId event ∈ ev ∧ relay chainId event = some r

/-- The run emitted an event for which the report is sent. -/
def HostEmitted (K : BridgeConfig) (calls : List BridgeCall) (r : Report × DelegationArgs) : Prop :=
  ∃ i past, Ran calls i past ∧ Emits K i past r

/-- The coprocessor sends a report for which no event was emitted until then. -/
def Forges (K : BridgeConfig) (calls : List BridgeCall) (c : Address) : Prop :=
  c ∈ K.coprocessors.coprocessorTxSenders ∧ ∃ report args past,
    Ran calls (.report c report args) past ∧ ¬ HostEmitted K past (report, args)

/-- Fewer coprocessors than the threshold forge reports. -/
def FewForge (K : BridgeConfig) (calls : List BridgeCall) : Prop :=
  ∀ forgers : Finset Address, (∀ c ∈ forgers, Forges K calls c) →
    forgers.card < K.coprocessors.coprocessorThreshold

/-- The reports of the run have different hashes. -/
def HashesDiffer (K : BridgeConfig) (calls : List BridgeCall) : Prop :=
  Set.InjOn K.hashOf {args | ∃ c report past, Ran calls (.report c report args) past}

/-- The delegation on the host chain that a report is about. -/
def Bridge.hostDelegation (s : Bridge) (args : DelegationArgs) : UserDecryptionDelegation :=
  (s.host args.chainId).userDecryptionDelegations args.delegator args.delegate
    args.contractAddress

/-- Two reports are about the same delegation. -/
def DelegationArgs.SameDelegation (args args' : DelegationArgs) : Prop :=
  args.chainId = args'.chainId ∧ args.delegator = args'.delegator ∧
    args.delegate = args'.delegate ∧ args.contractAddress = args'.contractAddress

variable {K : BridgeConfig}

/-! ## Steps of the host chains -/

/-- A call of the contract of a host chain either leaves all delegations alone or changes
one of them and emits the event for it. -/
theorem delegations_of_aclCall {D : Deployment} {ctx : Context} {call : ACLCall} {s s' : ACLState}
    {ev : List ACLEvent} (chainId : Nat) (h : aclCall D ctx s call = .ok (ev, s')) :
    (s'.userDecryptionDelegations = s.userDecryptionDelegations ∧
        ∀ event ∈ ev, relay chainId event = none) ∨
      ∃ delegate contractAddress event report args,
        ev = [event] ∧ relay chainId event = some (report, args) ∧
        args.chainId = chainId ∧ args.delegator = ctx.sender ∧ args.delegate = delegate ∧
        args.contractAddress = contractAddress ∧
        args.delegationCounter = (s.userDecryptionDelegations ctx.sender delegate
          contractAddress).delegationCounter + 1 ∧
        s' = setDelegation s ctx.sender delegate contractAddress
          ⟨report.newExpirationDate args, ctx.blockNumber % 2 ^ 64, args.delegationCounter⟩ := by
  cases call with
  | delegateForUserDecryption delegate contractAddress expirationDate =>
    simp only [aclCall, delegateForUserDecryption, bind_eq_ok, increment_eq_ok] at h
    obtain ⟨-, -, -, -, -, -, -, -, -, -, -, -, -, -, _, ⟨-, rfl⟩, h⟩ := h
    cases h
    exact .inr ⟨delegate, contractAddress, _, .delegate, _, rfl, rfl, rfl, rfl, rfl, rfl, rfl, rfl⟩
  | revokeDelegationForUserDecryption delegate contractAddress =>
    simp only [aclCall, revokeDelegationForUserDecryption, bind_eq_ok, increment_eq_ok] at h
    obtain ⟨-, -, -, -, -, -, _, ⟨-, rfl⟩, h⟩ := h
    cases h
    exact .inr ⟨delegate, contractAddress, _, .revoke, _, rfl, rfl, rfl, rfl, rfl, rfl, rfl, rfl⟩
  | allow handle account =>
    simp only [aclCall, allow, bind_eq_ok] at h
    obtain ⟨-, -, -, -, h⟩ := h
    cases h
    exact .inl ⟨rfl, by simp [relay]⟩
  | allowForDecryption handlesList =>
    simp only [aclCall, allowForDecryption, bind_eq_ok, allowHandlesForDecryption_eq_ok] at h
    obtain ⟨-, -, -, -, -, -, _, ⟨-, rfl⟩, h⟩ := h
    cases h
    exact .inl ⟨rfl, by simp [relay]⟩
  | allowTransient handle account =>
    simp only [aclCall, bind_eq_ok] at h
    obtain ⟨_, hallow, h⟩ := h
    cases h
    obtain ⟨-, rfl⟩ := (allowTransient_eq_ok D).mp hallow
    exact .inl ⟨rfl, by simp⟩
  | pause =>
    simp only [aclCall, pause, bind_eq_ok] at h
    obtain ⟨-, -, -, -, h⟩ := h
    cases h
    exact .inl ⟨rfl, by simp [relay]⟩
  | unpause =>
    simp only [aclCall, unpause, bind_eq_ok] at h
    obtain ⟨-, -, -, -, h⟩ := h
    cases h
    exact .inl ⟨rfl, by simp [relay]⟩
  | blockAccount account =>
    simp only [aclCall, blockAccount, bind_eq_ok] at h
    obtain ⟨-, -, -, -, h⟩ := h
    cases h
    exact .inl ⟨rfl, by simp [relay]⟩
  | unblockAccount account =>
    simp only [aclCall, unblockAccount, bind_eq_ok] at h
    obtain ⟨-, -, -, -, h⟩ := h
    cases h
    exact .inl ⟨rfl, by simp [relay]⟩
  | cleanTransientStorage =>
    cases h
    exact .inl ⟨rfl, by simp⟩



theorem bridgeAfter_cons {i : BridgeCall} {past : List BridgeCall} :
    bridgeAfter K (i :: past) = (bridge K).step i (bridgeAfter K past) := rfl

/-- Only calls of host contracts emit, one event each. The event counts the changes of its
delegation, and the call leaves the delegation as the report for the event says. -/
theorem emits_inv {i : BridgeCall} {past : List BridgeCall} {report : Report}
    {args : DelegationArgs} (h : Emits K i past (report, args)) :
    args.delegationCounter =
        ((bridgeAfter K past).hostDelegation args).delegationCounter + 1 ∧
      ((bridgeAfter K (i :: past)).hostDelegation args).delegationCounter =
        args.delegationCounter ∧
      ((bridgeAfter K (i :: past)).hostDelegation args).expirationDate =
        report.newExpirationDate args ∧
      ∀ r, Emits K i past r → r = (report, args) := by
  obtain ⟨ev, s', hok, chainId, event, hmem, hrelay⟩ := h
  have hafter := step_of_ok hok
  cases i with
  | report sender r a =>
    simp only [bridge] at hok
    split at hok
    · cases hok
      simp at hmem
    · cases hok
  | host chain ctx call =>
    simp only [bridge] at hok
    split at hok
    case h_2 => cases hok
    case h_1 aclEv acl hacl =>
      cases hok
      obtain ⟨e, he, heq⟩ := List.mem_map.mp hmem
      cases heq
      obtain ⟨-, hnone⟩ |
          ⟨delegate, contractAddress, event', r', args', rfl, hrelay', hchain, hdelegator,
        hdelegate, hcontract, hcount, hacl'⟩ := delegations_of_aclCall chainId hacl
      · rw [hnone event he] at hrelay
        cases hrelay
      · obtain rfl := List.mem_singleton.mp he
        rw [hrelay] at hrelay'
        cases hrelay'
        have hhost : (bridgeAfter K (.host chainId ctx call :: past)).hostDelegation args =
            ⟨report.newExpirationDate args, ctx.blockNumber % 2 ^ 64, args.delegationCounter⟩ := by
          rw [bridgeAfter_cons, hafter, Bridge.hostDelegation, hacl']
          simp [setDelegation, hchain, hdelegator, hdelegate, hcontract]
        refine ⟨?_, by rw [hhost], by rw [hhost], ?_⟩
        · rw [hcount, Bridge.hostDelegation, hchain, hdelegator, hdelegate, hcontract]
        · rintro r ⟨ev₂, s₂, hok₂, chain₂, event₂, hmem₂, hrelay₂⟩
          simp only [bridge, hacl] at hok₂
          cases hok₂
          simp only [List.map_cons, List.map_nil, List.mem_singleton, BridgeEvent.host.injEq] at hmem₂
          obtain ⟨rfl, rfl⟩ := hmem₂
          rw [hrelay] at hrelay₂
          exact (Option.some.inj hrelay₂).symm

/-- A call leaves a delegation of a host chain alone unless it emits an event for it. -/
theorem host_step (i : BridgeCall) (past : List BridgeCall) (args : DelegationArgs) :
    (bridgeAfter K (i :: past)).hostDelegation args = (bridgeAfter K past).hostDelegation args ∨
      ∃ report args', args.SameDelegation args' ∧ Emits K i past (report, args') := by
  obtain ⟨e, -, hs⟩ | ⟨ev, ho⟩ := step_cases i (bridgeAfter K past) (C := bridge K)
  · rw [bridgeAfter_cons, hs]
    exact .inl rfl
  generalize hs' : (bridge K).step i (bridgeAfter K past) = s' at ho
  cases i with
  | report sender r a =>
    have hok := ho
    simp only [bridge] at hok
    split at hok
    · cases hok
      rw [bridgeAfter_cons, hs']
      exact .inl rfl
    · cases hok
  | host chain ctx call =>
    have hok := ho
    simp only [bridge] at hok
    split at hok
    case h_2 => cases hok
    case h_1 aclEv acl hacl =>
      cases hok
      obtain ⟨hsame, -⟩ | ⟨delegate, contractAddress, event', r', args', rfl, hrelay', hchain,
        hdelegator, hdelegate, hcontract, -, hacl'⟩ := delegations_of_aclCall chain hacl
      · left
        rw [bridgeAfter_cons, hs']
        by_cases hc : args.chainId = chain
        · subst hc
          simp [Bridge.hostDelegation, hsame]
        · simp [Bridge.hostDelegation, hc]
      · by_cases hk : args.SameDelegation args'
        · exact .inr ⟨r', args', hk, _, _, ho, chain, event', by simp, hrelay'⟩
        · left
          rw [bridgeAfter_cons, hs']
          by_cases hc : args.chainId = chain
          · subst hc
            simp only [DelegationArgs.SameDelegation, hchain, hdelegator, hdelegate, hcontract,
              true_and] at hk
            simp only [Bridge.hostDelegation, Function.update_self, hacl', setDelegation]
            by_cases h₁ : args.delegator = ctx.sender
            · by_cases h₂ : args.delegate = delegate
              · have h₃ : args.contractAddress ≠ contractAddress := fun h₃ => hk ⟨h₁, h₂, h₃⟩
                simp [h₁, h₂, h₃]
              · simp [h₁, h₂]
            · simp [h₁]
          · simp [Bridge.hostDelegation, hc]

theorem hostDelegation_congr {s : Bridge} {args args' : DelegationArgs}
    (h : args.SameDelegation args') : s.hostDelegation args = s.hostDelegation args' := by
  obtain ⟨h₁, h₂, h₃, h₄⟩ := h
  simp only [Bridge.hostDelegation, h₁, h₂, h₃, h₄]

theorem delegation_congr {s : MultichainACLState} {args args' : DelegationArgs}
    (h : args.SameDelegation args') : s.delegation args = s.delegation args' := by
  obtain ⟨h₁, h₂, h₃, h₄⟩ := h
  simp only [MultichainACLState.delegation, h₁, h₂, h₃, h₄]

theorem emitted_cons {i : BridgeCall} {past : List BridgeCall} {r : Report × DelegationArgs} :
    HostEmitted K (i :: past) r ↔ HostEmitted K past r ∨ Emits K i past r := by
  simp only [HostEmitted, ran_cons]
  grind

theorem HostEmitted.mono {past calls : List BridgeCall} {r : Report × DelegationArgs}
    (h : HostEmitted K past r) (hs : past <:+ calls) : HostEmitted K calls r := by
  obtain ⟨i, before, hran, hemits⟩ := h
  exact ⟨i, before, hran.of_suffix hs, hemits⟩

/-- A delegation of a host chain is the outcome of the latest event for it, and the events
for it are numbered. -/
structure HostHistory (K : BridgeConfig) (calls : List BridgeCall) : Prop where
  le : ∀ report args, HostEmitted K calls (report, args) → 0 < args.delegationCounter ∧
    args.delegationCounter ≤ ((bridgeAfter K calls).hostDelegation args).delegationCounter
  unique : ∀ report args report' args', HostEmitted K calls (report, args) →
    HostEmitted K calls (report', args') → args.SameDelegation args' →
      args.delegationCounter = args'.delegationCounter → (report, args) = (report', args')
  untouched : ∀ args, ((bridgeAfter K calls).hostDelegation args).delegationCounter = 0 →
    ((bridgeAfter K calls).hostDelegation args).expirationDate = 0
  latest : ∀ args, 0 < ((bridgeAfter K calls).hostDelegation args).delegationCounter →
    ∃ report args', args.SameDelegation args' ∧ HostEmitted K calls (report, args') ∧
      args'.delegationCounter = ((bridgeAfter K calls).hostDelegation args).delegationCounter ∧
      report.newExpirationDate args' = ((bridgeAfter K calls).hostDelegation args).expirationDate

theorem hostHistory (calls : List BridgeCall) : HostHistory K calls := by
  induction calls with
  | nil =>
    refine ⟨?_, ?_, fun _ _ => rfl, fun args h => absurd h (lt_irrefl 0)⟩
    · rintro report args ⟨i, past, hran, -⟩
      simp at hran
    · rintro report args report' args' ⟨i, past, hran, -⟩
      simp at hran
  | cons i past ih =>
    -- an event that is new is numbered above all older ones of its delegation
    have hnew : ∀ {report args report' args'}, Emits K i past (report, args) →
        HostEmitted K past (report', args') → args'.SameDelegation args →
          args'.delegationCounter < args.delegationCounter := by
      intro report args report' args' hemits hemitted hsame
      have hle := (ih.le _ _ hemitted).2
      rw [hostDelegation_congr hsame] at hle
      have := (emits_inv hemits).1
      omega
    refine ⟨?_, ?_, ?_, ?_⟩
    · intro report args h
      rcases emitted_cons.mp h with h | h
      · obtain ⟨hpos, hle⟩ := ih.le report args h
        obtain hsame | ⟨report', args', hsame, hemits⟩ := host_step (K := K) i past args
        · rw [hsame]
          exact ⟨hpos, hle⟩
        · have hlt := hnew hemits h hsame
          rw [hostDelegation_congr hsame, (emits_inv hemits).2.1]
          omega
      · have := emits_inv h
        omega
    · intro report args report' args' h h' hsame hcount
      rcases emitted_cons.mp h with h | h <;> rcases emitted_cons.mp h' with h' | h'
      · exact ih.unique _ _ _ _ h h' hsame hcount
      · have := hnew h' h hsame
        omega
      · have := hnew h h' ⟨hsame.1.symm, hsame.2.1.symm, hsame.2.2.1.symm, hsame.2.2.2.symm⟩
        omega
      · exact ((emits_inv h).2.2.2 _ h').symm
    · intro args hzero
      obtain hsame | ⟨report, args', hsame, hemits⟩ := host_step (K := K) i past args
      · rw [hsame] at hzero ⊢
        exact ih.untouched args hzero
      · have := emits_inv hemits
        rw [hostDelegation_congr hsame] at hzero
        omega
    · intro args hpos
      obtain hsame | ⟨report, args', hsame, hemits⟩ := host_step (K := K) i past args
      · rw [hsame] at hpos ⊢
        obtain ⟨report, args', hk, hemitted, hcount, hexp⟩ := ih.latest args hpos
        exact ⟨report, args', hk, emitted_cons.mpr (.inl hemitted), hcount, hexp⟩
      · obtain ⟨-, hcount, hexp, -⟩ := emits_inv hemits
        rw [hostDelegation_congr hsame]
        exact ⟨report, args', hsame, emitted_cons.mpr (.inr hemits), hcount.symm, hexp.symm⟩

/-! ## Steps of the gateway -/

/-- What a report does to the gateway. -/
theorem report_step {sender : Address} {report : Report} {args : DelegationArgs}
    {past : List BridgeCall} {ev : List BridgeEvent} {s' : Bridge}
    (h : (bridge K).call (.report sender report args) (bridgeAfter K past) = .ok (ev, s')) :
    sender ∈ K.coprocessors.coprocessorTxSenders ∧
      (∀ r, (bridgeAfter K past).gateway.already r (K.hashOf args) sender = false) ∧
      (Decides K.hashOf K.coprocessors report args (bridgeAfter K past).gateway →
        ((bridgeAfter K past).gateway.delegation args).delegationCounter <
          args.delegationCounter) ∧
      s' = { bridgeAfter K past with
        gateway := (bridgeAfter K past).gateway.afterReport K.hashOf K.coprocessors report sender
          args } := by
  simp only [bridge] at h
  split at h
  case h_2 => cases h
  case h_1 gev gateway hok =>
    cases h
    obtain ⟨hmem, hfresh, hnew, rfl⟩ := reportCall_eq_ok.mp ⟨gev, hok⟩
    exact ⟨hmem, hfresh, hnew, rfl⟩

/-- Calls of the host contracts leave the gateway alone. -/
theorem gateway_of_host {chainId : Nat} {ctx : Context} {call : ACLCall} {past : List BridgeCall} :
    (bridgeAfter K (.host chainId ctx call :: past)).gateway = (bridgeAfter K past).gateway := by
  rw [bridgeAfter_cons]
  simp only [step, bridge]
  split
  next h =>
    split at h
    · cases h
      rfl
    · cases h
  · rfl

/-- The votes of the gateway are those of the reports of the run, one from a coprocessor. -/
structure Voted (K : BridgeConfig) (calls : List BridgeCall) (s : MultichainACLState) : Prop where
  voters : ∀ report hash c, c ∈ s.txSenders report hash ↔ s.already report hash c = true
  nodup : ∀ report hash, (s.txSenders report hash).Nodup
  sent : ∀ report hash c, c ∈ s.txSenders report hash → c ∈ K.coprocessors.coprocessorTxSenders ∧
    ∃ args past, Ran calls (.report c report args) past ∧ K.hashOf args = hash
  quorum : ∀ report hash, K.coprocessors.coprocessorThreshold ≤ (s.txSenders report hash).length →
    s.delegatedOrRevokedUserDecryptionHashes hash = true

theorem voted_report {sender : Address} {report : Report} {args : DelegationArgs}
    {past : List BridgeCall} {s : MultichainACLState} (hs : Voted K past s)
    (hmem : sender ∈ K.coprocessors.coprocessorTxSenders)
    (hfresh : ∀ r, s.already r (K.hashOf args) sender = false) :
    Voted K (.report sender report args :: past)
      (s.afterReport K.hashOf K.coprocessors report sender args) := by
  have hnew : sender ∉ s.txSenders report (K.hashOf args) := by
    rw [hs.voters, hfresh]
    simp
  refine ⟨?_, ?_, ?_, ?_⟩
  · intro r h c
    rw [txSenders_afterReport, already_afterReport, txSenders_reported, already_reported]
    have := hs.voters r h c
    split_ifs with hrh
    · rw [List.mem_append, List.mem_singleton]
      grind
    · grind
  · intro r h
    rw [txSenders_afterReport, txSenders_reported]
    split_ifs with hrh
    · obtain ⟨rfl, rfl⟩ := hrh
      exact List.nodup_append.mpr ⟨hs.nodup _ _, List.nodup_singleton _, by
        intro a ha b hb heq
        rw [List.mem_singleton] at hb
        exact hnew (hb ▸ heq ▸ ha)⟩
    · exact hs.nodup r h
  · intro r h c hc
    rw [txSenders_afterReport, txSenders_reported] at hc
    have hold : c ∈ s.txSenders r h → c ∈ K.coprocessors.coprocessorTxSenders ∧
        ∃ args' past', Ran (.report sender report args :: past) (.report c r args') past' ∧
          K.hashOf args' = h := by
      intro hc
      obtain ⟨hcop, args', past', hran, hhash⟩ := hs.sent r h c hc
      exact ⟨hcop, args', past', hran.tail, hhash⟩
    split_ifs at hc with hrh
    · obtain ⟨rfl, rfl⟩ := hrh
      rcases List.mem_append.mp hc with hc | hc
      · exact hold hc
      · obtain rfl := List.mem_singleton.mp hc
        exact ⟨hmem, args, past, Ran.head _ _, rfl⟩
    · exact hold hc
  · intro r h hquorum
    rw [txSenders_afterReport, txSenders_reported] at hquorum
    rw [hashes_afterReport]
    by_cases hrh : r = report ∧ h = K.hashOf args
    · obtain ⟨rfl, rfl⟩ := hrh
      simp only [true_and, if_true, List.length_append, List.length_singleton] at hquorum
      by_cases hdone : s.delegatedOrRevokedUserDecryptionHashes (K.hashOf args) = true
      · exact .inr hdone
      · exact .inl ⟨⟨by simpa using hdone, hquorum⟩, rfl⟩
    · rw [if_neg hrh] at hquorum
      exact .inr (hs.quorum r h hquorum)

theorem Voted.mono {i : BridgeCall} {past : List BridgeCall} {s : MultichainACLState}
    (h : Voted K past s) : Voted K (i :: past) s := by
  refine ⟨h.voters, h.nodup, ?_, h.quorum⟩
  intro report hash c hc
  obtain ⟨hcop, args, before, hran, hhash⟩ := h.sent report hash c hc
  exact ⟨hcop, args, before, hran.tail, hhash⟩

theorem voted (calls : List BridgeCall) : Voted K calls (bridgeAfter K calls).gateway := by
  induction calls with
  | nil =>
    have hpos := K.coprocessors.threshold_pos
    refine ⟨by simp [Bridge.init, MultichainACLState.init], by simp [Bridge.init,
      MultichainACLState.init], by simp [Bridge.init, MultichainACLState.init], ?_⟩
    intro report hash hquorum
    simp [Bridge.init, MultichainACLState.init] at hquorum
    omega
  | cons i past ih =>
    cases i with
    | host chainId ctx call =>
      rw [gateway_of_host]
      exact ih.mono
    | report sender report args =>
      obtain ⟨e, -, hs⟩ | ⟨ev, ho⟩ := step_cases (.report sender report args)
        (bridgeAfter K past) (C := bridge K)
      · rw [bridgeAfter_cons, hs]
        exact ih.mono
      · obtain ⟨hmem, hfresh, -, hs'⟩ := report_step ho
        rw [bridgeAfter_cons, hs']
        exact voted_report ih hmem hfresh

end Fhevm.Gateway
