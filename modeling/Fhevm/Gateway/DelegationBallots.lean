import Fhevm.Gateway.Ballot
import Fhevm.Gateway.MultichainACL

/-!
# Ballots on delegations

Coprocessors report delegations and revocations to the gateway. A report is a ballot on the
hash of the delegation, for its own kind of report.

## Main definitions

* `delegations` — the contract of the reports.
* `delegationVotes` — the accepted reports of a run.
* `DeclaresDelegation` — a report declares consensus.
* `delegationVotes_nodup` — nobody reports twice under one hash.
-/

namespace Fhevm.Gateway

open Foundation Contract Host

variable {hashOf : DelegationArgs → Bytes32} {s s' : MultichainACLState}
  {ev : List MultichainACLEvent}

/-- The coprocessors of a configuration that has a threshold for them. -/
def GatewayConfigStorage.coprocessorConfig (config : GatewayConfigStorage)
    (h : 0 < config.coprocessorThreshold) : CoprocessorConfig where
  coprocessorTxSenders := Finset.univ.filter fun a => config.coprocessors.isTxSender a = true
  coprocessorThreshold := config.coprocessorThreshold
  threshold_pos := h

/-- The contract of the reports on delegations. Before there is a threshold there are no
coprocessors. -/
def delegations (hashOf : DelegationArgs → Bytes32) :
    Contract (GatewayTx × Report × DelegationArgs) MultichainACLState MultichainACLError
      (List MultichainACLEvent) where
  call i s :=
    if h : 0 < i.1.config.coprocessorThreshold then
      reportCall hashOf (i.1.config.coprocessorConfig h) i.2.1 i.1.sender i.2.2 s
    else .error (.notCoprocessorTxSender i.1.sender)

abbrev delegationsAfter (hashOf : DelegationArgs → Bytes32)
    (calls : List (GatewayTx × Report × DelegationArgs)) : MultichainACLState :=
  (delegations hashOf).exec .init calls

/-- A ballot on a hash, for one kind of report. -/
abbrev DelegationBallot := Ballot (Report × Bytes32) GatewayConfigStorage

def delegationVote (hashOf : DelegationArgs → Bytes32) (i : GatewayTx × Report × DelegationArgs)
    (_ : MultichainACLState) : Option DelegationBallot :=
  some ⟨(i.2.1, hashOf i.2.2), i.1.sender, i.1.sender, i.1.config, []⟩

def delegationVotes (hashOf : DelegationArgs → Bytes32)
    (calls : List (GatewayTx × Report × DelegationArgs)) : List DelegationBallot :=
  (delegations hashOf).votes .init (delegationVote hashOf) calls

/-- The delegation that the event declares consensus on. -/
def MultichainACLEvent.consensus : MultichainACLEvent → Option DelegationArgs
  | .delegateUserDecryptionConsensus args _ => some args
  | .revokeUserDecryptionDelegationConsensusReached args _ => some args
  | .delegateUserDecryption _ => none
  | .revokeUserDecryptionDelegation _ => none

/-- The report declares consensus on its delegation. -/
def DeclaresDelegation (hashOf : DelegationArgs → Bytes32)
    (i : GatewayTx × Report × DelegationArgs) (s : MultichainACLState) : Prop :=
  ∃ ev s', (delegations hashOf).call i s = .ok (ev, s') ∧ ∃ e ∈ ev, e.consensus = some i.2.2

/-- Only a report that completes a quorum declares consensus. -/
theorem decides_of_consensus {config : CoprocessorConfig} {report : Report} {sender : Address}
    {args : DelegationArgs} (h : reportCall hashOf config report sender args s = .ok (ev, s'))
    {e : MultichainACLEvent} (he : e ∈ ev) {args' : DelegationArgs}
    (hcons : e.consensus = some args') : Decides hashOf config report args s := by
  by_contra hdec
  have hsend : ∀ date event consensus, sendReport hashOf config report date event consensus sender
      args s = .ok (ev, s') → ev = [event] := by
    intro date event consensus h
    simp only [sendReport, bind_eq_ok, require_eq_ok, exists_const, decides_iff rfl, hdec,
      if_false] at h
    obtain ⟨-, -, -, h⟩ := h
    cases h
    rfl
  cases report with
  | delegate =>
    obtain rfl := hsend _ _ _ h
    rw [List.mem_singleton.mp he] at hcons
    cases hcons
  | revoke =>
    obtain rfl := hsend _ _ _ h
    rw [List.mem_singleton.mp he] at hcons
    cases hcons

theorem delegation_commits {i : GatewayTx × Report × DelegationArgs}
    (hc : (delegations hashOf).Commits i s) :
    i.1.config.coprocessors.isTxSender i.1.sender = true ∧
      (∀ r, s.already r (hashOf i.2.2) i.1.sender = false) ∧
        ∃ h : 0 < i.1.config.coprocessorThreshold, (delegations hashOf).step i s =
          s.afterReport hashOf (i.1.config.coprocessorConfig h) i.2.1 i.1.sender i.2.2 := by
  obtain ⟨ev, hcall⟩ := hc.call_eq
  by_cases h : 0 < i.1.config.coprocessorThreshold
  · have hreport : ∃ ev, reportCall hashOf (i.1.config.coprocessorConfig h) i.2.1 i.1.sender i.2.2
        s = .ok (ev, (delegations hashOf).step i s) := ⟨ev, by simpa [delegations, h] using hcall⟩
    obtain ⟨hsender, hfresh, -, hnext⟩ := reportCall_eq_ok.mp hreport
    exact ⟨by simpa [GatewayConfigStorage.coprocessorConfig] using hsender, hfresh, h, hnext⟩
  · simp [delegations, h] at hcall

theorem txSenders_delegationsAfter {calls : List (GatewayTx × Report × DelegationArgs)}
    (report : Report) (hash : Bytes32) :
    (delegationsAfter hashOf calls).txSenders report hash =
      ((delegationVotes hashOf calls).filter fun v => v.topic = (report, hash)).map
        Ballot.sender := by
  have happend : ∀ i s, (delegations hashOf).Commits i s →
      ((delegations hashOf).step i s).txSenders report hash = s.txSenders report hash ++
        ((delegationVote hashOf i s).toList.filter fun v => v.topic = (report, hash)).map
          Ballot.sender := by
    intro i s hc
    obtain ⟨-, -, _, hnext⟩ := delegation_commits hc
    rw [hnext, txSenders_afterReport, txSenders_reported]
    by_cases h : i.2.1 = report ∧ hashOf i.2.2 = hash
    · obtain ⟨rfl, rfl⟩ := h
      simp [delegationVote]
    · have h' : ¬ (report = i.2.1 ∧ hash = hashOf i.2.2) := fun he => h ⟨he.1.symm, he.2.symm⟩
      simp [delegationVote, h, h']
  exact @record_eq _ _ _ _ _ _ (delegations hashOf) .init (delegationVote hashOf)
    (fun s => s.txSenders report hash) (fun v => v.topic = (report, hash)) _ Ballot.sender rfl
    happend calls

/-- Nobody reports twice under one hash, not even in different ways. -/
theorem delegationVotes_nodup {calls : List (GatewayTx × Report × DelegationArgs)} :
    ((delegationVotes hashOf calls).map fun v => (v.topic.2, v.voter)).Nodup := by
  refine @votes_nodup _ _ _ _ _ _ (delegations hashOf) .init (delegationVote hashOf)
    (fun v => (v.topic.2, v.voter)) (fun s m => ∃ r, s.already r m.1 m.2 = true) ?_ ?_ calls
  · intro i s v hc hv
    cases hv
    obtain ⟨-, hfresh, _, hnext⟩ := delegation_commits hc
    refine ⟨fun ⟨r, hr⟩ => by simp [hfresh r] at hr, i.2.1, ?_⟩
    rw [hnext, already_afterReport]
    exact already_reported.mpr (.inl ⟨rfl, rfl, rfl⟩)
  · rintro i s m hc ⟨r, hr⟩
    obtain ⟨-, -, _, hnext⟩ := delegation_commits hc
    exact ⟨r, by rw [hnext, already_afterReport]; exact already_reported.mpr (.inr hr)⟩

end Fhevm.Gateway
