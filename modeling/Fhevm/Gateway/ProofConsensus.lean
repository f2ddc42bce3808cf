import Fhevm.Foundation.Voting
import Fhevm.Gateway.InputVerification

/-!
# Consensus on input proofs

A proof is decided once, by verification or by rejection, whatever the order of the
responses and whatever coprocessors and threshold are in force at their times.

## Main definitions

* `proofVotes` — the accepted responses of a run.
* `DeclaresProof` — a call declares the answer to a proof.
* `ProofDecided` — what holds of a proof after a run.
* `proofs_decided` — it does after every run.
-/

namespace Fhevm.Gateway

open Foundation Contract Host

variable {D : GatewayDeployment} {i : GatewayTx × InputVerificationCall}
  {s : InputVerificationStorage} {calls : List (GatewayTx × InputVerificationCall)}

/-! ## Committed calls -/

/-- The accepted responses of a run, oldest first. -/
def proofVotes (D : GatewayDeployment) (calls : List (GatewayTx × InputVerificationCall)) :
    List ProofBallot :=
  (inputVerification D).votes .init (proofVote D) calls

theorem answer_of_commits (hc : (inputVerification D).Commits i s) :
    ∃ ev, (inputVerification D).call i s = .ok (ev, (inputVerification D).step i s) ∧
      ((∃ v, proofVote D i s = some v ∧ Answered i s ev ((inputVerification D).step i s) v) ∨
        (proofVote D i s = none ∧ s.SameAnswers ((inputVerification D).step i s) ∧
          ∀ e ∈ ev, e.declared = none)) := by
  obtain ⟨ev, h⟩ := hc.call_eq
  exact ⟨ev, h, inputVerification_ok h⟩

/-- The call declares the answer, the list of handles of a verified proof. -/
def DeclaresProof (D : GatewayDeployment) (i : GatewayTx × InputVerificationCall)
    (s : InputVerificationStorage) (answer : Nat × Option (List Bytes32)) : Prop :=
  ∃ ev s', (inputVerification D).call i s = .ok (ev, s') ∧ ∃ e ∈ ev, e.declared = some answer

theorem declaresProof_iff {answer : Nat × Option (List Bytes32)} :
    DeclaresProof D i s answer ↔ (inputVerification D).Commits i s ∧
      ∃ v, proofVote D i s = some v ∧ s.Decides v ∧ answer = v.topic.declared := by
  constructor
  · rintro ⟨ev, s', h, he⟩
    refine ⟨⟨_, h⟩, ?_⟩
    obtain ⟨v, hv, ha⟩ | ⟨-, -, hnone⟩ := inputVerification_ok h
    · exact ⟨v, hv, (ha.declares answer).mp he⟩
    · obtain ⟨e, hmem, he⟩ := he
      rw [hnone e hmem] at he
      cases he
  · rintro ⟨hc, v, hv, hd⟩
    obtain ⟨ev, h, ⟨w, hw, ha⟩ | ⟨hnone, -⟩⟩ := answer_of_commits hc
    · obtain rfl : v = w := Option.some.inj (hv.symm.trans hw)
      exact ⟨ev, _, h, (ha.declares answer).mpr hd⟩
    · rw [hnone] at hv
      cases hv

/-! ## What a ballot changes -/

/-- The answer is counted as a verification under the digest. -/
def ProofAnswer.Verifies (zkProofId : Nat) (digest : Bytes32) : ProofAnswer → Prop
  | .verified id digest' _ => id = zkProofId ∧ digest' = digest
  | .rejected _ => False

instance (zkProofId : Nat) (digest : Bytes32) :
    DecidablePred (ProofAnswer.Verifies zkProofId digest)
  | .verified _ _ _ => inferInstanceAs (Decidable (_ ∧ _))
  | .rejected _ => inferInstanceAs (Decidable False)

def ProofAnswer.Rejects (zkProofId : Nat) : ProofAnswer → Prop
  | .verified _ _ _ => False
  | .rejected id => id = zkProofId

instance (zkProofId : Nat) : DecidablePred (ProofAnswer.Rejects zkProofId)
  | .verified _ _ _ => inferInstanceAs (Decidable False)
  | .rejected _ => inferInstanceAs (Decidable (_ = _))

section Ballots

variable {v : ProofBallot} {zkProofId : Nat}

theorem signatures_afterBallot {digest : Bytes32} :
    (s.afterBallot v).zkProofSignatures zkProofId digest =
      s.zkProofSignatures zkProofId digest ++
        if v.topic.Verifies zkProofId digest then [v.signature] else [] := by
  unfold InputVerificationStorage.afterBallot
  cases ht : v.topic with
  | verified id digest' ctHandles =>
    by_cases h : id = zkProofId ∧ digest' = digest
    · obtain ⟨rfl, rfl⟩ := h
      simp [ProofAnswer.Verifies]
    · have h' : ¬ (zkProofId = id ∧ digest = digest') := fun he => h ⟨he.1.symm, he.2.symm⟩
      simp [ProofAnswer.Verifies, update₂_apply, h, h']
  | rejected id => simp [ProofAnswer.Verifies]

theorem rejectSenders_afterBallot :
    (s.afterBallot v).rejectProofConsensusTxSenders zkProofId =
      s.rejectProofConsensusTxSenders zkProofId ++
        if v.topic.Rejects zkProofId then [v.sender] else [] := by
  unfold InputVerificationStorage.afterBallot
  cases ht : v.topic with
  | verified id digest' ctHandles => simp [ProofAnswer.Rejects]
  | rejected id =>
    by_cases h : id = zkProofId
    · subst h
      simp [ProofAnswer.Rejects]
    · simp [ProofAnswer.Rejects, h, Ne.symm h]

theorem rejectCounter_afterBallot :
    (s.afterBallot v).rejectedProofResponseCounter zkProofId =
      s.rejectedProofResponseCounter zkProofId +
        if v.topic.Rejects zkProofId then 1 else 0 := by
  unfold InputVerificationStorage.afterBallot
  cases ht : v.topic with
  | verified id digest' ctHandles => simp [ProofAnswer.Rejects]
  | rejected id =>
    by_cases h : id = zkProofId
    · subst h
      simp [ProofAnswer.Rejects]
    · simp [ProofAnswer.Rejects, h, Ne.symm h]

theorem responded_afterBallot {signer : Address} :
    (s.afterBallot v).Responded zkProofId signer ↔
      s.Responded zkProofId signer ∨ (v.topic.zkProofId = zkProofId ∧ v.voter = signer) := by
  unfold InputVerificationStorage.afterBallot InputVerificationStorage.Responded
  cases ht : v.topic <;> simp only [update₂_apply, ProofAnswer.zkProofId] <;> grind

theorem verified_afterBallot :
    (s.afterBallot v).verifiedZKProofs zkProofId = true ↔
      s.verifiedZKProofs zkProofId = true ∨
        (s.Decides v ∧ ∃ ctHandles, v.topic.declared = (zkProofId, some ctHandles)) := by
  unfold InputVerificationStorage.afterBallot
  cases ht : v.topic with
  | verified id digest ctHandles =>
    by_cases hd : s.Decides v
    · by_cases hid : zkProofId = id
      · subst hid
        simp [hd, ProofAnswer.declared]
      · simp [hd, hid, Ne.symm hid, ProofAnswer.declared]
    · simp [hd]
  | rejected id => simp [ProofAnswer.declared]

theorem rejected_afterBallot :
    (s.afterBallot v).rejectedZKProofs zkProofId = true ↔
      s.rejectedZKProofs zkProofId = true ∨
        (s.Decides v ∧ v.topic.declared = (zkProofId, none)) := by
  unfold InputVerificationStorage.afterBallot
  cases ht : v.topic with
  | verified id digest ctHandles => simp [ProofAnswer.declared]
  | rejected id =>
    by_cases hd : s.Decides v
    · simp only [if_pos hd, Function.update_apply, ProofAnswer.declared]
      grind
    · simp [hd]

/-- Only a verification that decides writes the digest of a proof. -/
theorem digest_afterBallot (h : s.verifiedZKProofs zkProofId = true) :
    (s.afterBallot v).verifyProofConsensusDigest zkProofId =
      s.verifyProofConsensusDigest zkProofId := by
  unfold InputVerificationStorage.afterBallot
  cases ht : v.topic with
  | verified id digest ctHandles =>
    by_cases hd : s.Decides v
    · have hne : zkProofId ≠ id := by
        rintro rfl
        have hopen := hd.1
        rw [ht] at hopen
        exact Bool.false_ne_true (hopen.symm.trans h)
      simp [hd, hne]
    · simp [hd]
  | rejected id => rfl

end Ballots

/-! ## Runs -/

section Runs

variable {zkProofId : Nat}

theorem signatures_inputsAfter (digest : Bytes32) :
    (inputsAfter D calls).zkProofSignatures zkProofId digest =
      ((proofVotes D calls).filter fun v => v.topic.Verifies zkProofId digest).map
        Ballot.signature := by
  have happend : ∀ i s, (inputVerification D).Commits i s →
      ((inputVerification D).step i s).zkProofSignatures zkProofId digest =
        s.zkProofSignatures zkProofId digest ++ ((proofVote D i s).toList.filter
          fun v => v.topic.Verifies zkProofId digest).map Ballot.signature := by
    intro i s hc
    obtain ⟨ev, -, ⟨v, hv, ha⟩ | ⟨hnone, hsame, -⟩⟩ := answer_of_commits hc
    · rw [ha.next, signatures_afterBallot, hv]
      by_cases h : v.topic.Verifies zkProofId digest <;> simp [h]
    · rw [hsame.signatures, hnone]
      simp
  exact @record_eq _ _ _ _ _ _ (inputVerification D) .init (proofVote D)
    (fun s => s.zkProofSignatures zkProofId digest) (fun v => v.topic.Verifies zkProofId digest)
    _ Ballot.signature rfl happend calls

theorem rejectSenders_inputsAfter :
    (inputsAfter D calls).rejectProofConsensusTxSenders zkProofId =
      ((proofVotes D calls).filter fun v => v.topic.Rejects zkProofId).map Ballot.sender := by
  have happend : ∀ i s, (inputVerification D).Commits i s →
      ((inputVerification D).step i s).rejectProofConsensusTxSenders zkProofId =
        s.rejectProofConsensusTxSenders zkProofId ++ ((proofVote D i s).toList.filter
          fun v => v.topic.Rejects zkProofId).map Ballot.sender := by
    intro i s hc
    obtain ⟨ev, -, ⟨v, hv, ha⟩ | ⟨hnone, hsame, -⟩⟩ := answer_of_commits hc
    · rw [ha.next, rejectSenders_afterBallot, hv]
      by_cases h : v.topic.Rejects zkProofId <;> simp [h]
    · rw [hsame.rejectSenders, hnone]
      simp
  exact @record_eq _ _ _ _ _ _ (inputVerification D) .init (proofVote D)
    (fun s => s.rejectProofConsensusTxSenders zkProofId) (fun v => v.topic.Rejects zkProofId)
    _ Ballot.sender rfl happend calls

theorem rejectCounter_inputsAfter :
    (inputsAfter D calls).rejectedProofResponseCounter zkProofId =
      ((proofVotes D calls).filter fun v => v.topic.Rejects zkProofId).length := by
  have hlength : (inputsAfter D calls).rejectedProofResponseCounter zkProofId =
      ((inputsAfter D calls).rejectProofConsensusTxSenders zkProofId).length := by
    apply exec_invariant (P := fun s : InputVerificationStorage =>
      s.rejectedProofResponseCounter zkProofId = (s.rejectProofConsensusTxSenders zkProofId).length)
    · rfl
    · intro i s ev s' hs h
      obtain ⟨v, -, ha⟩ | ⟨-, hsame, -⟩ := inputVerification_ok h
      · rw [ha.next, rejectCounter_afterBallot, rejectSenders_afterBallot, List.length_append, hs]
        split_ifs <;> rfl
      · rw [hsame.counter, hsame.rejectSenders]
        exact hs
  rw [hlength, rejectSenders_inputsAfter, List.length_map]

theorem responded_kept (signer : Address) (hc : (inputVerification D).Commits i s)
    (h : s.Responded zkProofId signer) :
    ((inputVerification D).step i s).Responded zkProofId signer := by
  obtain ⟨ev, -, ⟨v, -, ha⟩ | ⟨-, hsame, -⟩⟩ := answer_of_commits hc
  · rw [ha.next]
    exact responded_afterBallot.mpr (.inl h)
  · unfold InputVerificationStorage.Responded
    rw [hsame.signerVerified, hsame.signerRejected]
    exact h

/-- A signer answers a proof once, by one list of handles or by a rejection. -/
theorem proofVotes_nodup :
    ((proofVotes D calls).map fun v => (v.topic.zkProofId, v.voter)).Nodup := by
  refine @votes_nodup _ _ _ _ _ _ (inputVerification D) .init (proofVote D)
    (fun v => (v.topic.zkProofId, v.voter)) (fun s p => s.Responded p.1 p.2) ?_ ?_ calls
  · intro i s v hc hv
    obtain ⟨ev, -, ⟨w, hw, ha⟩ | ⟨hnone, -⟩⟩ := answer_of_commits hc
    · obtain rfl : v = w := Option.some.inj (hv.symm.trans hw)
      refine ⟨ha.fresh, ?_⟩
      rw [ha.next]
      exact responded_afterBallot.mpr (.inr ⟨rfl, rfl⟩)
    · rw [hnone] at hv
      cases hv
  · exact fun i s p hc h => responded_kept p.2 hc h

theorem proofVoters_nodup :
    (((proofVotes D calls).filter fun v => v.topic.zkProofId = zkProofId).map
      Ballot.voter).Nodup :=
  nodup_of_topic proofVotes_nodup zkProofId

theorem exclusive_inputsAfter :
    ¬ ((inputsAfter D calls).verifiedZKProofs zkProofId = true ∧
      (inputsAfter D calls).rejectedZKProofs zkProofId = true) := by
  apply exec_invariant (P := fun s : InputVerificationStorage =>
    ¬ (s.verifiedZKProofs zkProofId = true ∧ s.rejectedZKProofs zkProofId = true))
  · simp [InputVerificationStorage.init]
  · intro i s ev s' hs h
    obtain ⟨v, -, ha⟩ | ⟨-, hsame, -⟩ := inputVerification_ok h
    · rw [ha.next, verified_afterBallot, rejected_afterBallot]
      -- a ballot that decides finds its proof open, and decides it one way
      have hopen : s.Decides v → v.topic.zkProofId = zkProofId →
          s.verifiedZKProofs zkProofId = false ∧ s.rejectedZKProofs zkProofId = false := by
        rintro hd rfl
        exact ⟨hd.1, hd.2.1⟩
      have hid : ∀ o, v.topic.declared = (zkProofId, o) → v.topic.zkProofId = zkProofId := by
        intro o ho
        cases ht : v.topic <;> rw [ht] at ho <;> exact congrArg Prod.fst ho
      grind
    · rw [hsame.verified, hsame.rejected]
      exact hs

theorem verified_kept (hc : (inputVerification D).Commits i s)
    (h : s.verifiedZKProofs zkProofId = true) :
    ((inputVerification D).step i s).verifiedZKProofs zkProofId = true ∧
      ((inputVerification D).step i s).verifyProofConsensusDigest zkProofId =
        s.verifyProofConsensusDigest zkProofId := by
  obtain ⟨ev, -, ⟨v, -, ha⟩ | ⟨-, hsame, -⟩⟩ := answer_of_commits hc
  · rw [ha.next]
    exact ⟨verified_afterBallot.mpr (.inl h), digest_afterBallot h⟩
  · rw [hsame.verified, hsame.digest]
    exact ⟨h, rfl⟩

theorem rejected_kept (hc : (inputVerification D).Commits i s)
    (h : s.rejectedZKProofs zkProofId = true) :
    ((inputVerification D).step i s).rejectedZKProofs zkProofId = true := by
  obtain ⟨ev, -, ⟨v, -, ha⟩ | ⟨-, hsame, -⟩⟩ := answer_of_commits hc
  · rw [ha.next]
    exact rejected_afterBallot.mpr (.inl h)
  · rwa [hsame.rejected]

/-- A proof is decided by one call of a run, in one way. -/
theorem decided_once {i i' : GatewayTx × InputVerificationCall}
    {past past' : List (GatewayTx × InputVerificationCall)} {o o' : Option (List Bytes32)}
    (hran : Ran calls i past) (hran' : Ran calls i' past')
    (h : DeclaresProof D i (inputsAfter D past) (zkProofId, o))
    (h' : DeclaresProof D i' (inputsAfter D past') (zkProofId, o')) :
    i = i' ∧ past = past' ∧ o = o' := by
  have hkeep : ∀ i s, (inputVerification D).Commits i s →
      s.verifiedZKProofs zkProofId = true ∨ s.rejectedZKProofs zkProofId = true →
        ((inputVerification D).step i s).verifiedZKProofs zkProofId = true ∨
          ((inputVerification D).step i s).rejectedZKProofs zkProofId = true :=
    fun i s hc hs => hs.imp (fun h => (verified_kept hc h).1) (rejected_kept hc)
  have hfresh : ∀ i s, (∃ o, DeclaresProof D i s (zkProofId, o)) →
      ¬ (s.verifiedZKProofs zkProofId = true ∨ s.rejectedZKProofs zkProofId = true) ∧
        (((inputVerification D).step i s).verifiedZKProofs zkProofId = true ∨
          ((inputVerification D).step i s).rejectedZKProofs zkProofId = true) := by
    rintro i s ⟨o, hdeclares⟩
    obtain ⟨hc, v, hv, hd, ho⟩ := declaresProof_iff.mp hdeclares
    obtain ⟨ev, -, ⟨w, hw, ha⟩ | ⟨hnone, -⟩⟩ := answer_of_commits hc
    · obtain rfl : v = w := Option.some.inj (hv.symm.trans hw)
      rw [ha.next, verified_afterBallot, rejected_afterBallot]
      have hid : v.topic.zkProofId = zkProofId := by
        cases ht : v.topic <;> rw [ht] at ho <;> exact congrArg Prod.fst ho.symm
      obtain ⟨hverified, hrejected, -⟩ := id hd
      rw [hid] at hverified hrejected
      refine ⟨by simp [hverified, hrejected], ?_⟩
      cases o with
      | none => exact .inr (.inr ⟨hd, ho.symm⟩)
      | some ctHandles => exact .inl (.inr ⟨hd, ctHandles, ho.symm⟩)
    · rw [hnone] at hv
      cases hv
  obtain ⟨rfl, rfl⟩ := once hkeep hfresh hran hran' ⟨o, h⟩ ⟨o', h'⟩
  refine ⟨rfl, rfl, ?_⟩
  obtain ⟨-, v, hv, -, ho⟩ := declaresProof_iff.mp h
  obtain ⟨-, w, hw, -, ho'⟩ := declaresProof_iff.mp h'
  obtain rfl : v = w := Option.some.inj (hv.symm.trans hw)
  exact congrArg Prod.snd (ho.trans ho'.symm)

theorem verified_iff : (inputsAfter D calls).verifiedZKProofs zkProofId = true ↔
    ∃ i past, Ran calls i past ∧ ∃ ctHandles,
      DeclaresProof D i (inputsAfter D past) (zkProofId, some ctHandles) := by
  have hset : ∀ i s, (inputVerification D).Commits i s →
      (((inputVerification D).step i s).verifiedZKProofs zkProofId = true ↔
        s.verifiedZKProofs zkProofId = true ∨
          ∃ ctHandles, DeclaresProof D i s (zkProofId, some ctHandles)) := by
    intro i s hc
    simp only [declaresProof_iff]
    obtain ⟨ev, -, ⟨v, hv, ha⟩ | ⟨hnone, hsame, -⟩⟩ := answer_of_commits hc
    · rw [ha.next, verified_afterBallot]
      grind
    · rw [hsame.verified, hnone]
      simp
  rw [show inputsAfter D calls = (inputVerification D).exec .init calls from rfl,
    @holds_iff _ _ _ _ (inputVerification D) .init
      (fun s => s.verifiedZKProofs zkProofId = true) _ (by simp [InputVerificationStorage.init])
      hset]
  have hcommits : ∀ i s, (∃ ctHandles, DeclaresProof D i s (zkProofId, some ctHandles)) →
      (inputVerification D).Commits i s := fun i s ⟨_, h⟩ => (declaresProof_iff.mp h).1
  grind

theorem rejected_iff : (inputsAfter D calls).rejectedZKProofs zkProofId = true ↔
    ∃ i past, Ran calls i past ∧ DeclaresProof D i (inputsAfter D past) (zkProofId, none) := by
  have hset : ∀ i s, (inputVerification D).Commits i s →
      (((inputVerification D).step i s).rejectedZKProofs zkProofId = true ↔
        s.rejectedZKProofs zkProofId = true ∨ DeclaresProof D i s (zkProofId, none)) := by
    intro i s hc
    rw [declaresProof_iff]
    obtain ⟨ev, -, ⟨v, hv, ha⟩ | ⟨hnone, hsame, -⟩⟩ := answer_of_commits hc
    · rw [ha.next, rejected_afterBallot]
      grind
    · rw [hsame.rejected, hnone]
      simp
  rw [show inputsAfter D calls = (inputVerification D).exec .init calls from rfl,
    @holds_iff _ _ _ _ (inputVerification D) .init
      (fun s => s.rejectedZKProofs zkProofId = true) _ (by simp [InputVerificationStorage.init])
      hset]
  have hcommits : ∀ i s, DeclaresProof D i s (zkProofId, none) →
      (inputVerification D).Commits i s := fun i s h => (declaresProof_iff.mp h).1
  grind

/-- The call that declares a list of handles writes its digest. -/
theorem digest_of_declares {ctHandles : List Bytes32}
    (h : DeclaresProof D i s (zkProofId, some ctHandles)) :
    ∃ extraData, ((inputVerification D).step i s).verifyProofConsensusDigest zkProofId =
      s.digest D zkProofId ctHandles extraData := by
  obtain ⟨hc, v, hv, hd, ho⟩ := declaresProof_iff.mp h
  obtain ⟨ev, -, ⟨w, hw, ha⟩ | ⟨hnone, -⟩⟩ := answer_of_commits hc
  · obtain rfl : v = w := Option.some.inj (hv.symm.trans hw)
    rw [ha.next]
    obtain ⟨tx, call⟩ := i
    cases call with
    | verifyProofResponse id handles signature extraData =>
      obtain ⟨signer, -, rfl⟩ := Option.map_eq_some_iff.mp hv
      cases ho
      refine ⟨extraData, ?_⟩
      unfold InputVerificationStorage.afterBallot
      simp [hd]
    | rejectProofResponse id extraData =>
      cases hv
      cases ho
    | verifyProofRequest => cases hv
    | pause => cases hv
    | unpause => cases hv
  · rw [hnone] at hv
    cases hv

/-- What holds of a proof after a run. -/
structure ProofDecided (D : GatewayDeployment) (calls : List (GatewayTx × InputVerificationCall))
    (zkProofId : Nat) : Prop where
  exclusive : ¬ ((inputsAfter D calls).verifiedZKProofs zkProofId = true ∧
    (inputsAfter D calls).rejectedZKProofs zkProofId = true)
  verified : (inputsAfter D calls).verifiedZKProofs zkProofId = true ↔
    ∃ i past, Ran calls i past ∧ ∃ ctHandles,
      DeclaresProof D i (inputsAfter D past) (zkProofId, some ctHandles)
  rejected : (inputsAfter D calls).rejectedZKProofs zkProofId = true ↔
    ∃ i past, Ran calls i past ∧ DeclaresProof D i (inputsAfter D past) (zkProofId, none)
  once : ∀ i i' past past' o o', Ran calls i past → Ran calls i' past' →
    DeclaresProof D i (inputsAfter D past) (zkProofId, o) →
      DeclaresProof D i' (inputsAfter D past') (zkProofId, o') → i = i' ∧ past = past' ∧ o = o'
  signatures : ∀ digest, (inputsAfter D calls).zkProofSignatures zkProofId digest =
    ((proofVotes D calls).filter fun v => v.topic.Verifies zkProofId digest).map Ballot.signature
  rejections : (inputsAfter D calls).rejectedProofResponseCounter zkProofId =
    ((proofVotes D calls).filter fun v => v.topic.Rejects zkProofId).length
  voters : (((proofVotes D calls).filter fun v => v.topic.zkProofId = zkProofId).map
    Ballot.voter).Nodup
  handles : ∀ i past ctHandles, Ran calls i past →
    DeclaresProof D i (inputsAfter D past) (zkProofId, some ctHandles) →
      ∃ extraData, (inputsAfter D calls).verifyProofConsensusDigest zkProofId =
        (inputsAfter D past).digest D zkProofId ctHandles extraData
  kept : ∀ past, past <:+ calls → (inputsAfter D past).verifiedZKProofs zkProofId = true →
    (inputsAfter D calls).verifiedZKProofs zkProofId = true ∧
      (inputsAfter D calls).verifyProofConsensusDigest zkProofId =
        (inputsAfter D past).verifyProofConsensusDigest zkProofId

theorem kept_inputsAfter {past : List (GatewayTx × InputVerificationCall)}
    (hsuffix : past <:+ calls) (h : (inputsAfter D past).verifiedZKProofs zkProofId = true) :
    (inputsAfter D calls).verifiedZKProofs zkProofId = true ∧
      (inputsAfter D calls).verifyProofConsensusDigest zkProofId =
        (inputsAfter D past).verifyProofConsensusDigest zkProofId := by
  generalize hdigest : (inputsAfter D past).verifyProofConsensusDigest zkProofId = digest
  refine holds_later (P := fun s : InputVerificationStorage =>
    s.verifiedZKProofs zkProofId = true ∧ s.verifyProofConsensusDigest zkProofId = digest)
    (fun i s hc hs => ?_) hsuffix ⟨h, hdigest⟩
  obtain ⟨hverified, hkept⟩ := verified_kept hc hs.1
  exact ⟨hverified, hkept.trans hs.2⟩

end Runs

/-- After every run a proof is not both verified and rejected, it was decided by at most one
call, the votes counted are the accepted responses, whose signers are distinct over all
answers to the proof, and the digest of the declared list of handles stays. -/
theorem proofs_decided (D : GatewayDeployment) (calls : List (GatewayTx × InputVerificationCall))
    (zkProofId : Nat) : ProofDecided D calls zkProofId where
  exclusive := exclusive_inputsAfter
  verified := verified_iff
  rejected := rejected_iff
  once _ _ _ _ _ _ hran hran' h h' := decided_once hran hran' h h'
  signatures := signatures_inputsAfter
  rejections := rejectCounter_inputsAfter
  voters := proofVoters_nodup
  handles i past ctHandles hran h := by
    obtain ⟨extraData, hdigest⟩ := digest_of_declares h
    obtain ⟨-, hkept⟩ := kept_inputsAfter hran
      (verified_iff.mpr ⟨i, past, Ran.head i past, ctHandles, h⟩)
    exact ⟨extraData, hkept.trans hdigest⟩
  kept _ hsuffix h := kept_inputsAfter hsuffix h

end Fhevm.Gateway
