import Fhevm.Gateway.DecryptionConsensus
import Fhevm.Gateway.DelegationBallots
import Fhevm.Gateway.KMSBallots
import Fhevm.Gateway.ProofConsensus

/-!
# The quorums behind consensus

Whenever one of the contracts declares consensus, the votes that it counts are those of a
quorum of its accepted ballots.

## Main definitions

* `decryption_decided`, `proof_decided`, `material_decided`, `allow_decided`,
  `delegation_decided`, `kms_decided` — one for each contract.
-/

namespace Fhevm.Gateway

open Foundation Contract Host

/-! ## Decryption -/

section Decryption

variable {D : GatewayDeployment} {i : GatewayTx × DecryptionCall}
  {past : List (GatewayTx × DecryptionCall)}

/-- The threshold that counts the answer. -/
def DeclaredDecryption.threshold (config : GatewayConfigStorage) : DeclaredDecryption → Nat
  | .publicResult _ _ _ _ => config.publicDecryptionThreshold
  | .userThreshold _ => config.userDecryptionThreshold

/-- What is counted: the signatures that are published with a result, or the senders of the
shares. -/
def DeclaredDecryption.Counted (s : DecryptionStorage) (senders : List Address)
    (signatures : List Bytes) : DeclaredDecryption → Prop
  | .publicResult _ _ _ published => signatures = published
  | .userThreshold id => senders = s.consensusTxSenderAddresses id 0

theorem decryption_decided {a : DeclaredDecryption}
    (h : DeclaresDecryption D i (decryptionAfter D past) a) :
    Decided (fun config => config.kms.Enrolled) (a.threshold i.1.config)
      (decryptionVotes D (i :: past)) (fun senders signatures =>
        a.Counted (decryptionAfter D (i :: past)) senders signatures) := by
  obtain ⟨hc, v, hv, hd, hby⟩ := declaresDecryption_iff.mp h
  obtain ⟨hmet, hdistinct, hable⟩ := quorum_of_decides hc hv hd
  obtain ⟨tx, call⟩ := i
  refine ⟨_, List.filter_subset_self _, ?_, ?_, hdistinct, fun w hw => ?_⟩
  · cases call with
    | publicDecryptionResponse id result signature extraData =>
      obtain ⟨signer, -, rfl⟩ := Option.map_eq_some_iff.mp hv
      cases hby
      exact (resultSignatures_decryptionAfter _).symm
    | userDecryptionResponse id share signature extraData =>
      obtain ⟨signer, -, rfl⟩ := Option.map_eq_some_iff.mp hv
      cases hby
      exact (senders_decryptionAfter 0).symm
    | publicDecryptionRequest => cases hv
    | userDecryptionRequest => cases hv
    | pause => cases hv
    | unpause => cases hv
  · cases call with
    | publicDecryptionResponse =>
      obtain ⟨signer, -, rfl⟩ := Option.map_eq_some_iff.mp hv
      cases hby
      exact hmet
    | userDecryptionResponse =>
      obtain ⟨signer, -, rfl⟩ := Option.map_eq_some_iff.mp hv
      cases hby
      exact hmet
    | publicDecryptionRequest => cases hv
    | userDecryptionRequest => cases hv
    | pause => cases hv
    | unpause => cases hv
  · exact ⟨(hable w hw).1, (hable w hw).2.2⟩

end Decryption

/-! ## Input proofs -/

section Proofs

variable {D : GatewayDeployment} {i : GatewayTx × InputVerificationCall}
  {past : List (GatewayTx × InputVerificationCall)}

/-- What is counted: the signatures of the digest that is agreed on, or the senders of the
rejections. -/
def ProofCounted (s : InputVerificationStorage) (zkProofId : Nat) (senders : List Address)
    (signatures : List Bytes) : Option (List Bytes32) → Prop
  | some _ => signatures = s.zkProofSignatures zkProofId (s.verifyProofConsensusDigest zkProofId)
  | none => senders = s.rejectProofConsensusTxSenders zkProofId

/-- Accepted responses are those of a registered sender with its signer. -/
theorem enrolled_of_mem {calls : List (GatewayTx × InputVerificationCall)}
    {v : ProofBallot} (hv : v ∈ proofVotes D calls) :
    v.config.coprocessors.Enrolled (v.sender, v.voter) := by
  obtain ⟨i, past, -, hc, hcast⟩ := mem_votes.mp hv
  obtain ⟨ev, -, ⟨w, hw, ha⟩ | ⟨hnone, -⟩⟩ := answer_of_commits hc
  · obtain rfl : v = w := Option.some.inj (hcast.symm.trans hw)
    exact ⟨ha.registered, ha.record⟩
  · rw [hnone] at hcast
    cases hcast

theorem proofBallots_distinct {calls : List (GatewayTx × InputVerificationCall)} (id : Nat)
    {p : ProofAnswer → Prop} [DecidablePred p] (hid : ∀ a, p a → a.zkProofId = id) :
    (((proofVotes D calls).filter fun v => p v.topic).map Ballot.voter).Nodup := by
  have hnd : (((proofVotes D calls).filter fun v => v.topic.zkProofId = id).map Ballot.voter).Nodup :=
    proofVoters_nodup
  refine hnd.sublist (List.Sublist.map _ (List.monotone_filter_right _ fun v hv => ?_))
  simpa using hid v.topic (by simpa using hv)

theorem proof_decided {zkProofId : Nat} {o : Option (List Bytes32)}
    (h : DeclaresProof D i (inputsAfter D past) (zkProofId, o)) :
    Decided (fun config => config.coprocessors.Enrolled) i.1.config.coprocessorThreshold
      (proofVotes D (i :: past)) (fun senders signatures =>
        ProofCounted (inputsAfter D (i :: past)) zkProofId senders signatures o) := by
  obtain ⟨hc, v, hv, hd, ho⟩ := declaresProof_iff.mp h
  obtain ⟨ev, -, ⟨w, hw, ha⟩ | ⟨hnone, -⟩⟩ := answer_of_commits hc
  · obtain rfl : v = w := Option.some.inj (hv.symm.trans hw)
    have hconfig : v.config = i.1.config := ha.sender.2
    have hnext : inputsAfter D (i :: past) = (inputsAfter D past).afterBallot v := ha.next
    cases ht : v.topic with
    | verified id digest ctHandles =>
      rw [ht] at ho
      cases ho
      have hdigest : (inputsAfter D (i :: past)).verifyProofConsensusDigest zkProofId = digest := by
        rw [hnext]
        unfold InputVerificationStorage.afterBallot
        simp [ht, hd]
      have hmet : i.1.config.coprocessorThreshold ≤
          ((inputsAfter D (i :: past)).zkProofSignatures zkProofId digest).length := by
        have hcount := hd.2.2
        rw [hnext, signatures_afterBallot, ← hconfig]
        simpa [InputVerificationStorage.counter, ht, ProofAnswer.Verifies] using hcount
      refine ⟨(proofVotes D (i :: past)).filter fun v => v.topic.Verifies zkProofId digest,
        List.filter_subset_self _, ?_, ⟨?_, ?_, fun w hw => ?_⟩⟩
      · unfold ProofCounted
        rw [hdigest]
        exact (signatures_inputsAfter digest).symm
      · rw [signatures_inputsAfter, List.length_map] at hmet
        exact hmet
      · refine proofBallots_distinct zkProofId fun a ha => ?_
        cases a with
        | verified id' digest' ctHandles => exact ha.1
        | rejected id' => exact ha.elim
      · exact enrolled_of_mem (List.mem_filter.mp hw).1
    | rejected id =>
      rw [ht] at ho
      cases ho
      have hmet : i.1.config.coprocessorThreshold ≤
          (inputsAfter D (i :: past)).rejectedProofResponseCounter zkProofId := by
        have hcount := hd.2.2
        rw [hnext, rejectCounter_afterBallot, ← hconfig]
        simpa [InputVerificationStorage.counter, ht, ProofAnswer.Rejects] using hcount
      refine ⟨(proofVotes D (i :: past)).filter fun v => v.topic.Rejects zkProofId,
        List.filter_subset_self _, rejectSenders_inputsAfter.symm, ⟨?_, ?_, fun w hw => ?_⟩⟩
      · exact rejectCounter_inputsAfter ▸ hmet
      · refine proofBallots_distinct zkProofId fun a ha => ?_
        cases a with
        | verified id' digest' ctHandles => exact ha.elim
        | rejected id' => exact ha
      · exact enrolled_of_mem (List.mem_filter.mp hw).1
  · rw [hnone] at hv
    cases hv

end Proofs

/-! ## Materials and permissions -/

section Reports

variable {D : GatewayDeployment}

/-- Reports of the run under one hash are about one handle. -/
def HashesApart (D : GatewayDeployment) (calls : List (GatewayTx × AddCiphertextMaterial)) :
    Prop :=
  ∀ i ∈ calls, ∀ j ∈ calls, addCiphertextHash D i.2 = addCiphertextHash D j.2 →
    i.2.ctHandle = j.2.ctHandle

/-- The report declares consensus on its material. -/
def DeclaresMaterial (D : GatewayDeployment) (i : GatewayTx × AddCiphertextMaterial)
    (s : CiphertextCommitsStorage) : Prop :=
  ∃ ev s', (ciphertextCommits D).call i s = .ok (ev, s') ∧
    ∃ senders, .addCiphertextMaterialConsensus i.2 senders ∈ ev

theorem material_of_mem {calls : List (GatewayTx × AddCiphertextMaterial)}
    {v : MaterialBallot} (hv : v ∈ materialVotes D calls) :
    v.config.coprocessors.Listed (v.sender, v.voter) ∧ ∃ i ∈ calls, i.2 = v.topic := by
  obtain ⟨i, past, hran, hc, hcast⟩ := mem_votes.mp hv
  cases hcast
  exact ⟨⟨(step_commits hc).1, rfl⟩, i, hran.mem List.mem_cons_self, rfl⟩

theorem material_decided {i : GatewayTx × AddCiphertextMaterial}
    {past : List (GatewayTx × AddCiphertextMaterial)} (hapart : HashesApart D (i :: past))
    (h : DeclaresMaterial D i (commitsAfter D past)) :
    Decided (fun config => config.coprocessors.Listed) i.1.config.coprocessorThreshold
      (materialVotes D (i :: past)) (fun senders _ => senders =
        (commitsAfter D (i :: past)).coprocessorTxSenderAddresses (addCiphertextHash D i.2)) := by
  obtain ⟨ev, s', hcall, hdeclares⟩ := h
  obtain ⟨-, -, -, hnext, hiff⟩ := addCiphertextMaterial_ok hcall
  have hafter : commitsAfter D (i :: past) = (commitsAfter D past).afterReport D i.1 i.2 :=
    (step_of_ok hcall).trans hnext
  have hmet : i.1.config.coprocessorThreshold ≤ ((commitsAfter D
      (i :: past)).coprocessorTxSenderAddresses (addCiphertextHash D i.2)).length := by
    rw [← counters_commitsAfter, hafter, counters_afterReport, Function.update_self]
    exact (hiff.mp hdeclares).2
  rw [senders_commitsAfter, List.length_map] at hmet
  refine ⟨_, List.filter_subset_self _, (senders_commitsAfter _).symm, hmet, ?_, fun v hv =>
    (material_of_mem (List.mem_filter.mp hv).1).1⟩
  -- ballots under one hash are about one handle, and nobody reports a handle twice
  have hvotes : ((materialVotes D (i :: past)).map fun v => (v.topic.ctHandle, v.sender)).Nodup :=
    materialVotes_nodup
  have hnd := nodup_of_topic hvotes i.2.ctHandle
  have hvoter : ∀ vs : List MaterialBallot, vs ⊆ materialVotes D (i :: past) →
      vs.map Ballot.voter = vs.map Ballot.sender := fun vs hvs =>
    List.map_congr_left fun v hv => (material_of_mem (hvs hv)).1.2.symm
  rw [hvoter _ (List.filter_subset_self _)]
  refine hnd.sublist (List.Sublist.map _ ?_)
  have hsub : (materialVotes D (i :: past)).filter
      (fun v => addCiphertextHash D v.topic = addCiphertextHash D i.2) =
        ((materialVotes D (i :: past)).filter fun v => v.topic.ctHandle = i.2.ctHandle).filter
          fun v => addCiphertextHash D v.topic = addCiphertextHash D i.2 := by
    rw [List.filter_filter]
    refine List.filter_congr fun v hv => ?_
    by_cases hhash : addCiphertextHash D v.topic = addCiphertextHash D i.2
    · obtain ⟨-, j, hj, hjv⟩ := material_of_mem hv
      have hsame := hapart j hj i List.mem_cons_self (hjv ▸ hhash)
      rw [hjv] at hsame
      simp [hhash, hsame]
    · simp [hhash]
  rw [hsub]
  exact List.filter_sublist

/-- The report declares consensus on its target. -/
def DeclaresAllow (D : GatewayDeployment) (i : GatewayTx × AllowCall) (s : MultichainACLAllows) :
    Prop :=
  ∃ ev s', (allows D).call i s = .ok (ev, s') ∧ ∃ e ∈ ev, e.consensus = some i.2.target

theorem allow_decided {i : GatewayTx × AllowCall} {past : List (GatewayTx × AllowCall)}
    (h : DeclaresAllow D i (allowsAfter D past)) :
    Decided (fun config => config.coprocessors.Listed) i.1.config.coprocessorThreshold
      (allowVotes D (i :: past)) (fun senders _ => senders =
        (allowsAfter D (i :: past)).allowConsensusTxSenders (i.2.target.key D)) := by
  obtain ⟨ev, s', hcall, hdeclares⟩ := h
  obtain ⟨-, -, -, hnext, hiff⟩ := allows_ok hcall
  have hafter : allowsAfter D (i :: past) = (allowsAfter D past).afterReport D i :=
    (step_of_ok hcall).trans hnext
  have hmet : i.1.config.coprocessorThreshold ≤ ((allowsAfter D (i :: past)).allowConsensusTxSenders
      (i.2.target.key D)).length := by
    rw [← counters_allowsAfter, hafter, counters_afterAllow, Function.update_self]
    exact (hiff.mp hdeclares).2
  rw [senders_allowsAfter, List.length_map] at hmet
  have hlisted : ∀ v ∈ allowVotes D (i :: past),
      v.config.coprocessors.Listed (v.sender, v.voter) := by
    intro v hv
    obtain ⟨j, before, -, hc, hcast⟩ := mem_votes.mp hv
    cases hcast
    exact ⟨(allow_commits hc).1, rfl⟩
  refine ⟨_, List.filter_subset_self _, (senders_allowsAfter _).symm, hmet, ?_, fun v hv =>
    hlisted v (List.mem_filter.mp hv).1⟩
  rw [List.map_congr_left fun v hv => (hlisted v (List.mem_filter.mp hv).1).2.symm]
  exact allowSenders_nodup _

end Reports

/-! ## Delegations -/

theorem delegation_decided {hashOf : DelegationArgs → Bytes32}
    {i : GatewayTx × Report × DelegationArgs}
    {past : List (GatewayTx × Report × DelegationArgs)}
    (h : DeclaresDelegation hashOf i (delegationsAfter hashOf past)) :
    Decided (fun config => config.coprocessors.Listed) i.1.config.coprocessorThreshold
      (delegationVotes hashOf (i :: past)) (fun senders _ => senders =
        (delegationsAfter hashOf (i :: past)).txSenders i.2.1 (hashOf i.2.2)) := by
  obtain ⟨ev, s', hcall, e, he, hcons⟩ := h
  have hc : (delegations hashOf).Commits i (delegationsAfter hashOf past) := ⟨_, hcall⟩
  obtain ⟨-, -, hpos, hnext⟩ := delegation_commits hc
  have hdec : Decides hashOf (i.1.config.coprocessorConfig hpos) i.2.1 i.2.2
      (delegationsAfter hashOf past) :=
    decides_of_consensus (by simpa [delegations, hpos] using hcall) he hcons
  have hmet : i.1.config.coprocessorThreshold ≤
      ((delegationsAfter hashOf (i :: past)).txSenders i.2.1 (hashOf i.2.2)).length := by
    rw [show delegationsAfter hashOf (i :: past) = _ from hnext, txSenders_afterReport,
      txSenders_reported, if_pos ⟨rfl, rfl⟩, List.length_append]
    exact hdec.2
  rw [txSenders_delegationsAfter, List.length_map] at hmet
  have hlisted : ∀ v ∈ delegationVotes hashOf (i :: past),
      v.config.coprocessors.Listed (v.sender, v.voter) := by
    intro v hv
    obtain ⟨j, before, -, hc, hcast⟩ := mem_votes.mp hv
    cases hcast
    exact ⟨(delegation_commits hc).1, rfl⟩
  refine ⟨_, List.filter_subset_self _, (txSenders_delegationsAfter _ _).symm, hmet, ?_,
    fun v hv => hlisted v (List.mem_filter.mp hv).1⟩
  -- the reports of one kind are among those under the hash
  have hvotes : ((delegationVotes hashOf (i :: past)).map fun v => (v.topic.2, v.voter)).Nodup :=
    delegationVotes_nodup
  have hnd := nodup_of_topic hvotes (hashOf i.2.2)
  refine hnd.sublist (List.Sublist.map _ (List.monotone_filter_right _ fun v hv => ?_))
  have htopic : v.topic = (i.2.1, hashOf i.2.2) := by simpa using hv
  simp [htopic]

/-! ## Key generation -/

theorem kms_decided {E : Eip712} {i : Msg × KMSGenerationCall}
    {past : List (Msg × KMSGenerationCall)} {id : Nat}
    (h : Concludes E id i past) :
    Decided GatewayConfig.Enrolled i.1.config.getKmsGenThreshold (kmsVotes E (i :: past))
      (fun senders _ => senders =
        getConsensusTxSenders (kmsAfter E (i :: past)) id) := by
  obtain ⟨hnot, hdone⟩ := h
  have hc : (kmsGeneration E).Commits i (kmsAfter E past) := by
    by_contra hc
    rw [kmsAfter_cons, step_of_not_commits hc, hnot] at hdone
    cases hdone
  rcases kmsVote_cases hc with ⟨v, hv, hconfig, ha⟩ | ⟨-, -, -, hsame⟩
  · obtain ⟨rfl, hdigest, hmet⟩ := ha.done id hdone hnot
    have hsenders := kmsSenders_kmsAfter E (i :: past) v.topic.1 v.topic.2
    rw [← kmsAfter_cons, hsenders, List.length_map, hconfig] at hmet
    refine ⟨_, List.filter_subset_self _, ?_, hmet, ?_, fun w hw =>
      enrolled_of_kmsVotes (List.mem_filter.mp hw).1⟩
    · rw [getConsensusTxSenders, kmsAfter_cons, hdigest, ← kmsAfter_cons, hsenders]
    · -- the ballots on one digest are among those on the request
      refine (nodup_of_topic kmsVotes_nodup v.topic.1).sublist
        (List.Sublist.map _ (List.monotone_filter_right _ fun w hw => ?_))
      have htopic : w.topic = (v.topic.1, v.topic.2) := by simpa using hw
      simp [htopic]
  · rw [kmsAfter_cons, hsame, hnot] at hdone
    cases hdone

end Fhevm.Gateway
