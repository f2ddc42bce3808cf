import Fhevm.Gateway.Bridge

/-!
# Delegations from the host chains to the gateway

The delegations that the gateway stores are those of the host chains, when less than
a quorum of the coprocessors reports what no host chain emitted.

## Main definitions

* `Follows`, `Agrees` — the stored delegation is that of the host chain after one of its events.
* `Synced`, `RelaysAll` — all events have arrived, as they do when they are relayed.
* `followsHosts` — both for every run.
-/

namespace Fhevm.Gateway

open Foundation Contract Host

variable {K : BridgeConfig}

/-! ## Stored delegations are those of the host chains -/

theorem Forges.mono {past calls : List BridgeCall} {c : Address} (h : Forges K past c)
    (hs : past <:+ calls) : Forges K calls c := by
  obtain ⟨hcop, report, args, before, hran, hnot⟩ := h
  exact ⟨hcop, report, args, before, hran.of_suffix hs, hnot⟩

/-- The arguments of the reports of a run. -/
def Reported (calls : List BridgeCall) (args : DelegationArgs) : Prop :=
  ∃ c report past, Ran calls (.report c report args) past

/-- A quorum is not made of forgers only. -/
theorem emitted_of_quorum {calls past : List BridgeCall} (hfew : FewForge K calls)
    (hdiff : HashesDiffer K calls) (hs : past <:+ calls) {report : Report} {args : DelegationArgs}
    (hargs : Reported calls args) (hquorum : K.coprocessors.coprocessorThreshold ≤
      ((bridgeAfter K past).gateway.txSenders report (K.hashOf args)).length) :
    HostEmitted K past (report, args) := by
  by_contra hnot
  have hv := voted (K := K) past
  have hforge : ∀ c ∈ ((bridgeAfter K past).gateway.txSenders report (K.hashOf args)).toFinset,
      Forges K calls c := by
    intro c hc
    obtain ⟨hcop, args', before, hran, hhash⟩ := hv.sent report _ c (List.mem_toFinset.mp hc)
    have hran' := hran.of_suffix hs
    obtain rfl : args' = args := hdiff ⟨c, report, before, hran'⟩ hargs hhash
    exact ⟨hcop, report, args', before, hran', fun h => hnot (h.mono hran.past_suffix)⟩
  have hcard := hfew _ hforge
  rw [List.toFinset_card_of_nodup (hv.nodup report _)] at hcard
  omega

/-- What holds of the stored delegations during a run. -/
structure Follows (K : BridgeConfig) (calls past : List BridgeCall) : Prop where
  stored : ∀ args, (bridgeAfter K past).gateway.delegation args = ⟨0, 0⟩ ∨
    ∃ report args', args.SameDelegation args' ∧ HostEmitted K past (report, args') ∧
      (bridgeAfter K past).gateway.delegation args =
        ⟨args'.delegationCounter, report.newExpirationDate args'⟩
  settled : ∀ args, Reported calls args →
    (bridgeAfter K past).gateway.delegatedOrRevokedUserDecryptionHashes (K.hashOf args) = true →
      args.delegationCounter ≤
        ((bridgeAfter K past).gateway.delegation args).delegationCounter

theorem follows_same {calls past : List BridgeCall} {i : BridgeCall} (h : Follows K calls past)
    (hsame : (bridgeAfter K (i :: past)).gateway = (bridgeAfter K past).gateway) :
    Follows K calls (i :: past) := by
  constructor
  · intro args
    rw [hsame]
    rcases h.stored args with h0 | ⟨report, args', hk, hemitted, heq⟩
    · exact .inl h0
    · exact .inr ⟨report, args', hk, emitted_cons.mpr (.inl hemitted), heq⟩
  · rw [hsame]
    exact h.settled

theorem follows {calls : List BridgeCall} (hfew : FewForge K calls) (hdiff : HashesDiffer K calls)
    (past : List BridgeCall) (hs : past <:+ calls) : Follows K calls past := by
  induction past with
  | nil =>
    refine ⟨fun args => .inl rfl, ?_⟩
    intro args _ hdone
    simp [Bridge.init, MultichainACLState.init] at hdone
  | cons i past ih =>
    have hpast := ih ((List.suffix_cons i past).trans hs)
    cases i with
    | host chainId ctx call => exact follows_same hpast gateway_of_host
    | report sender report args =>
      obtain ⟨e, -, hstep⟩ | ⟨ev, ho⟩ := step_cases (.report sender report args)
        (bridgeAfter K past) (C := bridge K)
      · exact follows_same hpast (by rw [bridgeAfter_cons, hstep])
      obtain ⟨hmem, hfresh, hnewer, hs'⟩ := report_step ho
      have hafter : (bridgeAfter K (.report sender report args :: past)).gateway =
          (bridgeAfter K past).gateway.afterReport K.hashOf K.coprocessors report sender args := by
        rw [bridgeAfter_cons, hs']
      have hargs : Reported calls args := ⟨sender, report, past, hs⟩
      constructor
      · intro args'
        rw [hafter, delegation_afterReport]
        split_ifs with hdec
        · obtain ⟨hdec, hkey⟩ := hdec
          refine .inr ⟨report, args, hkey, emitted_of_quorum hfew hdiff hs hargs ?_, rfl⟩
          rw [hafter, txSenders_afterReport, txSenders_reported]
          simpa using hdec.2
        · rcases hpast.stored args' with h0 | ⟨r, a, hk, hemitted, heq⟩
          · exact .inl h0
          · exact .inr ⟨r, a, hk, emitted_cons.mpr (.inl hemitted), heq⟩
      · intro args' hargs' hdone
        rw [hafter, hashes_afterReport] at hdone
        rw [hafter, delegation_afterReport]
        split_ifs with hdec
        · obtain ⟨hdec, hkey⟩ := hdec
          rcases hdone with ⟨-, hhash⟩ | hdone
          · obtain rfl := hdiff hargs' hargs hhash
            exact le_rfl
          · have hle := hpast.settled args' hargs' hdone
            rw [delegation_congr hkey] at hle
            exact (hle.trans_lt (hnewer hdec)).le
        · rcases hdone with ⟨hd, hhash⟩ | hdone
          · obtain rfl := hdiff hargs' hargs hhash
            exact absurd ⟨hd, rfl, rfl, rfl, rfl⟩ hdec
          · exact hpast.settled args' hargs' hdone

/-- A stored counter never decreases. -/
theorem counter_mono {past calls : List BridgeCall} (h : past <:+ calls) (args : DelegationArgs) :
    ((bridgeAfter K past).gateway.delegation args).delegationCounter ≤
      ((bridgeAfter K calls).gateway.delegation args).delegationCounter := by
  obtain ⟨later, rfl⟩ := h
  induction later with
  | nil => exact le_rfl
  | cons i later ih =>
    refine ih.trans ?_
    cases i with
    | host chainId ctx call => rw [List.cons_append, gateway_of_host]
    | report sender report args' =>
      rw [List.cons_append, bridgeAfter_cons]
      obtain ⟨e, -, hstep⟩ | ⟨ev, ho⟩ := step_cases (.report sender report args')
        (bridgeAfter K (later ++ past)) (C := bridge K)
      · rw [hstep]
      · obtain ⟨-, -, hnewer, hs'⟩ := report_step ho
        rw [hs', delegation_afterReport]
        split_ifs with hdec
        · obtain ⟨hdec, hkey⟩ := hdec
          rw [delegation_congr hkey]
          exact (hnewer hdec).le
        · exact le_rfl

/-- A report that is not newer than the stored delegation changes no delegation, and if it
would decide it reverts. -/
structure LateIgnored (K : BridgeConfig) (i : BridgeCall) (past : List BridgeCall) : Prop where
  delegations : ∀ args, (bridgeAfter K (i :: past)).gateway.delegation args =
    (bridgeAfter K past).gateway.delegation args
  reverts : ∀ sender report args, i = .report sender report args →
    Decides K.hashOf K.coprocessors report args (bridgeAfter K past).gateway →
      bridgeAfter K (i :: past) = bridgeAfter K past

theorem lateIgnored {sender : Address} {report : Report} {args : DelegationArgs}
    {past : List BridgeCall} (hlate : args.delegationCounter ≤
      ((bridgeAfter K past).gateway.delegation args).delegationCounter) :
    LateIgnored K (.report sender report args) past := by
  obtain ⟨e, -, hstep⟩ | ⟨ev, ho⟩ := step_cases (.report sender report args)
    (bridgeAfter K past) (C := bridge K)
  · constructor
    · intro args'
      rw [bridgeAfter_cons, hstep]
    · intro _ _ _ _ _
      rw [bridgeAfter_cons, hstep]
  · obtain ⟨-, -, hnewer, hs'⟩ := report_step ho
    have hnot : ¬ Decides K.hashOf K.coprocessors report args (bridgeAfter K past).gateway := by
      intro hdec
      have := hnewer hdec
      omega
    constructor
    · intro args'
      rw [bridgeAfter_cons, hs', delegation_afterReport, if_neg (fun h => hnot h.1)]
    · intro _ _ _ heq hdec
      cases heq
      exact absurd hdec hnot

/-- The stored delegation is nothing, or that of the host chain right after the event with
the stored counter. -/
def Agrees (K : BridgeConfig) (calls : List BridgeCall) (args : DelegationArgs) : Prop :=
  (bridgeAfter K calls).gateway.delegation args = ⟨0, 0⟩ ∨
    ∃ i past report args', Ran calls i past ∧ args.SameDelegation args' ∧
      Emits K i past (report, args') ∧
      args'.delegationCounter =
        ((bridgeAfter K calls).gateway.delegation args).delegationCounter ∧
      (bridgeAfter K calls).gateway.delegation args =
        ⟨((bridgeAfter K (i :: past)).hostDelegation args).delegationCounter,
          ((bridgeAfter K (i :: past)).hostDelegation args).expirationDate⟩

theorem agrees {calls past : List BridgeCall} (hfew : FewForge K calls)
    (hdiff : HashesDiffer K calls) (hs : past <:+ calls) (args : DelegationArgs) :
    Agrees K past args := by
  rcases (follows hfew hdiff past hs).stored args with h0 | h
  · exact .inl h0
  · obtain ⟨report, args', hk, ⟨i, before, hran, hemits⟩, heq⟩ := h
    obtain ⟨-, hcount, hexp, -⟩ := emits_inv hemits
    refine .inr ⟨i, before, report, args', hran, hk, hemits, by rw [heq], ?_⟩
    rw [hostDelegation_congr hk, hcount, hexp, heq]

/-- Both contracts hold the same counter and expiration date. -/
def Synced (K : BridgeConfig) (calls : List BridgeCall) : Prop :=
  ∀ args, (bridgeAfter K calls).gateway.delegation args =
    ⟨((bridgeAfter K calls).hostDelegation args).delegationCounter,
      ((bridgeAfter K calls).hostDelegation args).expirationDate⟩

/-- The coprocessor has sent the reports for all events of the run. -/
def RelaysAll (K : BridgeConfig) (calls : List BridgeCall) (c : Address) : Prop :=
  ∀ report args, HostEmitted K calls (report, args) →
    ∃ past, Ran calls (.report c report args) past ∧ HostEmitted K past (report, args)

/-- Flags of the gateway stay set. -/
theorem already_mono {past calls : List BridgeCall} (h : past <:+ calls) {r : Report}
    {hash : Bytes32} {c : Address} (hset : (bridgeAfter K past).gateway.already r hash c = true) :
    (bridgeAfter K calls).gateway.already r hash c = true := by
  obtain ⟨later, rfl⟩ := h
  induction later with
  | nil => exact hset
  | cons i later ih =>
    cases i with
    | host chainId ctx call => rwa [List.cons_append, gateway_of_host]
    | report sender report args =>
      rw [List.cons_append, bridgeAfter_cons]
      obtain ⟨e, -, hstep⟩ | ⟨ev, ho⟩ := step_cases (.report sender report args)
        (bridgeAfter K (later ++ past)) (C := bridge K)
      · rwa [hstep]
      · obtain ⟨-, -, -, hs'⟩ := report_step ho
        rw [hs', already_afterReport, already_reported]
        exact .inr ih

/-- A report that was sent is kept under one of the two kinds, or it came too late. -/
theorem kept_or_late {calls past : List BridgeCall} {c : Address} {report : Report}
    {args : DelegationArgs} (hcop : c ∈ K.coprocessors.coprocessorTxSenders)
    (hran : Ran calls (.report c report args) past) :
    (∃ r, (bridgeAfter K calls).gateway.already r (K.hashOf args) c = true) ∨
      args.delegationCounter ≤
        ((bridgeAfter K calls).gateway.delegation args).delegationCounter := by
  by_cases hflag : ∃ r, (bridgeAfter K past).gateway.already r (K.hashOf args) c = true
  · obtain ⟨r, hr⟩ := hflag
    exact .inl ⟨r, already_mono hran.past_suffix hr⟩
  by_cases hlate : args.delegationCounter ≤
      ((bridgeAfter K past).gateway.delegation args).delegationCounter
  · exact .inr (hlate.trans (counter_mono hran.past_suffix args))
  -- nothing keeps the gateway from accepting the report
  have hfresh : ∀ r, (bridgeAfter K past).gateway.already r (K.hashOf args) c = false := by
    simpa using hflag
  obtain ⟨ev, hok⟩ : ∃ ev, reportCall K.hashOf K.coprocessors report c args
      (bridgeAfter K past).gateway = .ok (ev, (bridgeAfter K past).gateway.afterReport K.hashOf
        K.coprocessors report c args) :=
    reportCall_eq_ok.mpr ⟨hcop, hfresh, fun _ => Nat.lt_of_not_le hlate, rfl⟩
  have hafter : (bridge K).call (.report c report args) (bridgeAfter K past) =
      .ok (ev.map .gateway, { bridgeAfter K past with
        gateway := (bridgeAfter K past).gateway.afterReport K.hashOf K.coprocessors report c
          args }) := by
    simp only [bridge, hok]
  have hset : (bridgeAfter K (.report c report args :: past)).gateway.already report
      (K.hashOf args) c = true := by
    rw [bridgeAfter_cons, step_of_ok hafter, already_afterReport, already_reported]
    exact .inl ⟨rfl, rfl, rfl⟩
  exact .inl ⟨report, already_mono hran hset⟩

/-- An event that a quorum of coprocessors has reported, none of them anything else, is
stored, or a newer one. -/
theorem settled_of_relayed {calls : List BridgeCall} (hfew : FewForge K calls)
    (hdiff : HashesDiffer K calls) {relayers : Finset Address}
    (hsub : relayers ⊆ K.coprocessors.coprocessorTxSenders)
    (hquorum : K.coprocessors.coprocessorThreshold ≤ relayers.card)
    (hhonest : ∀ c ∈ relayers, ¬ Forges K calls c)
    (hall : ∀ c ∈ relayers, RelaysAll K calls c) {report : Report} {args : DelegationArgs}
    (hemitted : HostEmitted K calls (report, args)) :
    args.delegationCounter ≤
      ((bridgeAfter K calls).gateway.delegation args).delegationCounter := by
  by_contra hlate
  have hv := voted (K := K) calls
  have hist := hostHistory (K := K) calls
  -- a relayer that was kept under a kind reported this event, so the kind is that of the event
  have hkept : relayers ⊆
      ((bridgeAfter K calls).gateway.txSenders report (K.hashOf args)).toFinset := by
    intro c hc
    obtain ⟨past, hran, -⟩ := hall c hc report args hemitted
    have hargs : Reported calls args := ⟨c, report, past, hran⟩
    obtain ⟨r, hr⟩ := (kept_or_late (hsub hc) hran).resolve_right hlate
    obtain ⟨hcop, args', before, hran', hhash⟩ := hv.sent r _ c ((hv.voters r _ c).mpr hr)
    obtain rfl : args' = args := hdiff ⟨c, r, before, hran'⟩ hargs hhash
    have hsent : HostEmitted K calls (r, args') := by
      by_contra hnot
      exact hhonest c hc ⟨hcop, r, args', before, hran',
        fun h => hnot (h.mono hran'.past_suffix)⟩
    have := hist.unique r args' report args' hsent hemitted ⟨rfl, rfl, rfl, rfl⟩ rfl
    obtain rfl : r = report := congrArg Prod.fst this
    exact List.mem_toFinset.mpr ((hv.voters r _ c).mpr hr)
  obtain ⟨c, hc⟩ : relayers.Nonempty :=
    Finset.card_pos.mp (K.coprocessors.threshold_pos.trans_le hquorum)
  obtain ⟨past, hran, -⟩ := hall c hc report args hemitted
  have hcard := Finset.card_le_card hkept
  rw [List.toFinset_card_of_nodup (hv.nodup report _)] at hcard
  exact hlate ((follows hfew hdiff calls List.suffix_rfl).settled args ⟨c, report, past, hran⟩
    (hv.quorum report _ (hquorum.trans hcard)))

/-- Once a quorum of coprocessors that report nothing else has reported all events, the gateway
holds the delegations of the host chains. -/
theorem synced {calls : List BridgeCall} (hfew : FewForge K calls) (hdiff : HashesDiffer K calls)
    {relayers : Finset Address} (hsub : relayers ⊆ K.coprocessors.coprocessorTxSenders)
    (hquorum : K.coprocessors.coprocessorThreshold ≤ relayers.card)
    (hhonest : ∀ c ∈ relayers, ¬ Forges K calls c)
    (hall : ∀ c ∈ relayers, RelaysAll K calls c) : Synced K calls := by
  intro args
  have hist := hostHistory (K := K) calls
  have hf := follows hfew hdiff calls List.suffix_rfl
  rcases Nat.eq_zero_or_pos ((bridgeAfter K calls).hostDelegation args).delegationCounter with
    hzero | hpos
  · -- the host chain has no event for this delegation
    rw [hzero, hist.untouched args hzero]
    rcases hf.stored args with h0 | ⟨r, a, hk, hemitted, -⟩
    · exact h0
    · obtain ⟨hcpos, hcle⟩ := hist.le r a hemitted
      rw [← hostDelegation_congr hk] at hcle
      omega
  · obtain ⟨r, last, hk, hemitted, hcount, hexp⟩ := hist.latest args hpos
    have hreached : last.delegationCounter ≤
        ((bridgeAfter K calls).gateway.delegation last).delegationCounter :=
      settled_of_relayed hfew hdiff hsub hquorum hhonest hall hemitted
    rw [← hcount, ← hexp]
    rw [← delegation_congr hk] at hreached
    rcases hf.stored args with h0 | ⟨r', a, hk', hemitted', heq⟩
    · rw [h0] at hreached
      have := (hist.le r last hemitted).1
      exact absurd hreached (Nat.not_le_of_lt this)
    · rw [heq] at hreached ⊢
      have hle := (hist.le r' a hemitted').2
      rw [← hostDelegation_congr hk', ← hcount] at hle
      have hsame : last.SameDelegation a :=
        ⟨hk.1.symm.trans hk'.1, hk.2.1.symm.trans hk'.2.1, hk.2.2.1.symm.trans hk'.2.2.1,
          hk.2.2.2.symm.trans hk'.2.2.2⟩
      cases hist.unique r last r' a hemitted hemitted' hsame (le_antisymm hreached hle)
      rfl

/-! ## Both contracts together -/

/-- What holds of the gateway over a whole run. -/
structure FollowsHosts (K : BridgeConfig) (calls : List BridgeCall) : Prop where
  agrees : ∀ past, past <:+ calls → ∀ args, Agrees K past args
  counter_mono : ∀ past, past <:+ calls → ∀ args,
    ((bridgeAfter K past).gateway.delegation args).delegationCounter ≤
      ((bridgeAfter K calls).gateway.delegation args).delegationCounter
  late : ∀ sender report args past, Ran calls (.report sender report args) past →
    args.delegationCounter ≤ ((bridgeAfter K past).gateway.delegation args).delegationCounter →
      LateIgnored K (.report sender report args) past

/-- No coprocessor sends a report twice. -/
def RelaysOnce (K : BridgeConfig) (calls : List BridgeCall) : Prop :=
  calls.Pairwise fun i j => ∀ c ∈ K.coprocessors.coprocessorTxSenders, ∀ report args,
    i = .report c report args → j ≠ .report c report args

/-- A quorum of coprocessors has reported all events of the run and nothing else. -/
def QuorumRelaysAll (K : BridgeConfig) (calls : List BridgeCall) : Prop :=
  ∃ relayers ⊆ K.coprocessors.coprocessorTxSenders,
    K.coprocessors.coprocessorThreshold ≤ relayers.card ∧
      ∀ c ∈ relayers, ¬ Forges K calls c ∧ RelaysAll K calls c

/-- The gateway follows the host chains. It holds what they hold once a quorum of
coprocessors that report nothing else has reported all events: a coprocessor
has one report for each hash, and one that spent it on a forged report
is missing in the quorum of the true one. -/
theorem followsHosts (K : BridgeConfig) (calls : List BridgeCall) (hfew : FewForge K calls)
    (hdiff : HashesDiffer K calls) :
    FollowsHosts K calls ∧ (QuorumRelaysAll K calls → Synced K calls) := by
  constructor
  · exact ⟨fun past hs => agrees hfew hdiff hs, fun past hs => counter_mono hs,
      fun sender report args past _ => lateIgnored⟩
  · rintro ⟨relayers, hsub, hquorum, hall⟩
    exact synced hfew hdiff hsub hquorum (fun c hc => (hall c hc).1) fun c hc => (hall c hc).2

/-! ### Two coprocessors -/

/-- One host chain, and two coprocessors that both have to report. -/
def twoCoprocessors : BridgeConfig where
  deployment _ := ⟨fun bytes => BitVec.ofNat 256 (BigEndian.decode bytes), 1, 2, 1⟩
  hashOf args := BitVec.ofNat 256 (args.delegationCounter + args.expirationDate)
  coprocessors := ⟨{1, 2}, 2, by decide⟩

def delegatorContext : Context := ⟨10, 5, 0, 0, 0, fun _ => false⟩

def delegateCall : BridgeCall :=
  .host 1 delegatorContext (.delegateForUserDecryption 11 12 3600)

def delegateArgs : DelegationArgs := ⟨1, 10, 11, 12, 1, 3600⟩

/-- Both coprocessors report the delegation. -/
def relayedRun : List BridgeCall :=
  [.report 2 .delegate delegateArgs, .report 1 .delegate delegateArgs, delegateCall]

/-- The first coprocessor reports the delegation only after a forged revocation. -/
def forgedRun : List BridgeCall :=
  [.report 1 .delegate delegateArgs, .report 2 .delegate delegateArgs,
    .report 1 .revoke delegateArgs, delegateCall]

theorem emits_delegateCall : Emits twoCoprocessors delegateCall [] (.delegate, delegateArgs) :=
  ⟨_, _, rfl, 1, _, List.mem_cons_self, rfl⟩

/-- In both runs the host chain emits one event. -/
theorem emitted_iff (calls : List BridgeCall)
    (hreports : ∀ i ∈ calls, ∃ sender report, i = .report sender report delegateArgs)
    {r : Report × DelegationArgs} :
    HostEmitted twoCoprocessors (calls ++ [delegateCall]) r ↔ r = (.delegate, delegateArgs) := by
  constructor
  · intro h
    induction calls with
    | nil =>
      obtain ⟨i, past, hran, hemits⟩ := h
      rw [List.nil_append, ran_cons] at hran
      obtain ⟨rfl, rfl⟩ := hran.resolve_right not_ran_nil
      exact (emits_inv emits_delegateCall).2.2.2 r hemits
    | cons i calls ih =>
      rw [List.cons_append, emitted_cons] at h
      rcases h with h | ⟨ev, s', hok, chainId, event, hmem, -⟩
      · exact ih (fun j hj => hreports j (List.mem_cons_of_mem _ hj)) h
      · obtain ⟨sender, report, rfl⟩ := hreports i List.mem_cons_self
        simp only [bridge] at hok
        split at hok
        · cases hok
          simp at hmem
        · cases hok
  · rintro rfl
    exact ⟨delegateCall, [], List.suffix_append _ _, emits_delegateCall⟩

theorem hashesDiffer_of_reports {calls : List BridgeCall}
    (hreports : ∀ i ∈ calls, ∃ sender report, i = .report sender report delegateArgs) :
    HashesDiffer twoCoprocessors (calls ++ [delegateCall]) := by
  have hargs : ∀ a, Reported (calls ++ [delegateCall]) a → a = delegateArgs := by
    rintro a ⟨c, report, past, hran⟩
    rcases List.mem_append.mp (hran.subset List.mem_cons_self) with h | h
    · obtain ⟨_, _, heq⟩ := hreports _ h
      cases heq
      rfl
    · simp [delegateCall] at h
  intro a ha b hb _
  rw [hargs a ha, hargs b hb]

/-- A run without forged reports. -/
theorem relayedRun_synced : (bridgeAfter twoCoprocessors relayedRun).gateway.delegation
    delegateArgs = ⟨1, 3600⟩ := by
  have hreports : ∀ i ∈ [BridgeCall.report 2 .delegate delegateArgs,
      .report 1 .delegate delegateArgs], ∃ sender report, i = .report sender report delegateArgs := by
    simp
  have hforge : ∀ c, ¬ Forges twoCoprocessors relayedRun c := by
    rintro c ⟨-, report, args, past, hran, hnot⟩
    rw [relayedRun, ran_cons, ran_cons, ran_cons] at hran
    rcases hran with ⟨heq, rfl⟩ | ⟨heq, rfl⟩ | ⟨heq, rfl⟩ | hran
    · cases heq
      exact hnot ((emitted_iff [.report 1 .delegate delegateArgs] (by simp)).mpr rfl)
    · cases heq
      exact hnot ((emitted_iff [] (by simp)).mpr rfl)
    · cases heq
    · simp at hran
  have hall : ∀ c ∈ twoCoprocessors.coprocessors.coprocessorTxSenders,
      RelaysAll twoCoprocessors relayedRun c := by
    intro c hc report args hemitted
    cases (emitted_iff _ hreports).mp hemitted
    have hc : c = 1 ∨ c = 2 := by simpa [twoCoprocessors] using hc
    rcases hc with rfl | rfl
    · exact ⟨_, (Ran.head _ _).tail, (emitted_iff [] (by simp)).mpr rfl⟩
    · exact ⟨_, Ran.head _ _,
        (emitted_iff [.report 1 .delegate delegateArgs] (by simp)).mpr rfl⟩
  have hfew : FewForge twoCoprocessors relayedRun := by
    intro forgers h
    rw [Finset.eq_empty_of_forall_notMem fun c hc => hforge c (h c hc)]
    decide
  have hsynced := (followsHosts twoCoprocessors relayedRun hfew (hashesDiffer_of_reports hreports)).2
    ⟨_, subset_rfl, by decide, fun c hc => ⟨hforge c, hall c hc⟩⟩ delegateArgs
  rw [hsynced]
  decide +kernel

/-- A run in which all coprocessors report all events, and the one that also forges a report
keeps the gateway from following the host chain. -/
theorem forgedRun_not_synced :
    ¬ ∀ K calls, FewForge K calls → HashesDiffer K calls → RelaysOnce K calls →
      (∀ c ∈ K.coprocessors.coprocessorTxSenders, RelaysAll K calls c) → Synced K calls := by
  intro h
  have hreports : ∀ i ∈ [BridgeCall.report 1 .delegate delegateArgs,
      .report 2 .delegate delegateArgs, .report 1 .revoke delegateArgs],
      ∃ sender report, i = .report sender report delegateArgs := by
    simp
  have hforge : ∀ c, Forges twoCoprocessors forgedRun c → c = 1 := by
    rintro c ⟨-, report, args, past, hran, hnot⟩
    rw [forgedRun, ran_cons, ran_cons, ran_cons, ran_cons] at hran
    rcases hran with ⟨heq, rfl⟩ | ⟨heq, rfl⟩ | ⟨heq, rfl⟩ | ⟨heq, rfl⟩ | hran
    · cases heq
      rfl
    · cases heq
      exact absurd ((emitted_iff [.report 1 .revoke delegateArgs] (by simp)).mpr rfl) hnot
    · cases heq
      rfl
    · cases heq
    · simp at hran
  have hfew : FewForge twoCoprocessors forgedRun := by
    intro forgers hf
    have hsub : forgers ⊆ {1} := fun c hc => Finset.mem_singleton.mpr (hforge c (hf c hc))
    exact (Finset.card_le_card hsub).trans_lt (by decide)
  have honce : RelaysOnce twoCoprocessors forgedRun := by
    refine .cons ?_ (.cons ?_ (.cons ?_ (.cons (by simp) .nil)))
    all_goals
      rintro j hj c - report args heq rfl
      cases heq
      revert hj
      simp [delegateCall]
  have hall : ∀ c ∈ twoCoprocessors.coprocessors.coprocessorTxSenders,
      RelaysAll twoCoprocessors forgedRun c := by
    intro c hc report args hemitted
    cases (emitted_iff _ hreports).mp hemitted
    have hc : c = 1 ∨ c = 2 := by simpa [twoCoprocessors] using hc
    rcases hc with rfl | rfl
    · exact ⟨_, Ran.head _ _, (emitted_iff [.report 2 .delegate delegateArgs,
        .report 1 .revoke delegateArgs] (by simp)).mpr rfl⟩
    · exact ⟨_, (Ran.head _ _).tail,
        (emitted_iff [.report 1 .revoke delegateArgs] (by simp)).mpr rfl⟩
  have hsynced := h twoCoprocessors forgedRun hfew (hashesDiffer_of_reports hreports) honce hall
    delegateArgs
  revert hsynced
  decide +kernel

end Fhevm.Gateway
