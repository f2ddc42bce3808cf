import Fhevm.Gateway.DecryptionBallots
import Fhevm.Gateway.Materials

/-!
# Consensus on decryptions

A decryption is declared done once, on the signatures of enough distinct signers over
what was requested, whatever the order of requests and responses and whatever KMS nodes
and thresholds are in force at their times.

## Main definitions

* `decryptionVotes` — the accepted responses of a run.
* `quorum_of_decides` — a ballot that decides completes a quorum.
* `PublicRequested`, `UserRequested` — what was requested under an id.
* `DecryptionAgreed` — what holds of a decryption after a run.
* `decryptions_agreed` — it does after every run.
-/

namespace Fhevm.Gateway

open Foundation Contract Host

/-! ## Runs -/

section Runs

variable {D : GatewayDeployment} {calls : List (GatewayTx × DecryptionCall)} {id : Nat}

/-- The accepted responses of a run, oldest first. -/
def decryptionVotes (D : GatewayDeployment) (calls : List (GatewayTx × DecryptionCall)) :
    List DecryptionBallot :=
  (decryption D).votes .init (decryptionVote D) calls

/-- The ballot is counted together with the answer. -/
def DecryptionAnswer.Counts : DecryptionAnswer → DecryptionBallot → Prop
  | .publicResult id digest, v => v.topic = .publicResult id digest
  | .userShare id _, v => v.topic.decryptionId = id ∧ v.topic.key = 0

instance (a : DecryptionAnswer) : DecidablePred a.Counts :=
  match a with
  | .publicResult _ _ => fun _ => inferInstanceAs (Decidable (_ = _))
  | .userShare _ _ => fun _ => inferInstanceAs (Decidable (_ ∧ _))

theorem DecryptionAnswer.Counts.self (v : DecryptionBallot) : v.topic.Counts v := by
  cases h : v.topic <;> simp [Counts, h, decryptionId, key]

theorem DecryptionAnswer.Counts.sameId {a : DecryptionAnswer} {v : DecryptionBallot}
    (h : a.Counts v) : v.topic.decryptionId = a.decryptionId := by
  cases a with
  | publicResult id digest => rw [show v.topic = .publicResult id digest from h]
  | userShare id digest => exact h.1

theorem resultSignatures_decryptionAfter (digest : Bytes32) :
    (decryptionAfter D calls).verifiedPublicDecryptSignatures id digest =
      ((decryptionVotes D calls).filter fun v => v.topic = .publicResult id digest).map
        Ballot.signature := by
  have happend : ∀ i s, (decryption D).Commits i s →
      ((decryption D).step i s).verifiedPublicDecryptSignatures id digest =
        s.verifiedPublicDecryptSignatures id digest ++ ((decryptionVote D i s).toList.filter
          fun v => v.topic = .publicResult id digest).map Ballot.signature := by
    intro i s hc
    obtain ⟨ev, -, ⟨v, hv, hr⟩ | ⟨hnone, hother, -⟩⟩ := response_of_commits hc
    · rw [hr.next, resultSignatures_afterBallot, hv]
      by_cases h : v.topic = .publicResult id digest <;> simp [h]
    · rw [hother.sameAnswers.signatures, hnone]
      simp
  exact @record_eq _ _ _ _ _ _ (decryption D) .init (decryptionVote D)
    (fun s => s.verifiedPublicDecryptSignatures id digest)
    (fun v => v.topic = .publicResult id digest) _ Ballot.signature rfl happend calls

theorem senders_decryptionAfter (digest : Bytes32) :
    (decryptionAfter D calls).consensusTxSenderAddresses id digest =
      ((decryptionVotes D calls).filter fun v =>
        v.topic.decryptionId = id ∧ v.topic.key = digest).map Ballot.sender := by
  have happend : ∀ i s, (decryption D).Commits i s →
      ((decryption D).step i s).consensusTxSenderAddresses id digest =
        s.consensusTxSenderAddresses id digest ++ ((decryptionVote D i s).toList.filter
          fun v => v.topic.decryptionId = id ∧ v.topic.key = digest).map Ballot.sender := by
    intro i s hc
    obtain ⟨ev, -, ⟨v, hv, hr⟩ | ⟨hnone, hother, -⟩⟩ := response_of_commits hc
    · rw [hr.next, senders_afterBallot, hv]
      by_cases h : v.topic.decryptionId = id ∧ v.topic.key = digest <;> simp [h]
    · rw [hother.sameAnswers.senders, hnone]
      simp
  exact @record_eq _ _ _ _ _ _ (decryption D) .init (decryptionVote D)
    (fun s => s.consensusTxSenderAddresses id digest)
    (fun v => v.topic.decryptionId = id ∧ v.topic.key = digest) _ Ballot.sender rfl happend calls

theorem counter_decryptionAfter (v : DecryptionBallot) :
    (decryptionAfter D calls).counter v =
      ((decryptionVotes D calls).filter v.topic.Counts).length + 1 := by
  unfold DecryptionStorage.counter
  cases v.topic with
  | publicResult id digest =>
    dsimp only
    rw [resultSignatures_decryptionAfter, List.length_map]
    rfl
  | userShare id digest =>
    dsimp only
    rw [senders_decryptionAfter, List.length_map]
    rfl

/-- A signer answers a decryption once. -/
theorem decryptionVotes_nodup :
    ((decryptionVotes D calls).map fun v => (v.topic.decryptionId, v.voter)).Nodup := by
  refine @votes_nodup _ _ _ _ _ _ (decryption D) .init (decryptionVote D)
    (fun v => (v.topic.decryptionId, v.voter)) (fun s p => s.kmsNodeAlreadySigned p.1 p.2 = true)
    ?_ ?_ calls
  · intro i s v hc hv
    obtain ⟨ev, -, ⟨w, hw, hr⟩ | ⟨hnone, -⟩⟩ := response_of_commits hc
    · obtain rfl : v = w := Option.some.inj (hv.symm.trans hw)
      refine ⟨by simp [hr.fresh], ?_⟩
      rw [hr.next]
      exact signed_afterBallot.mpr (.inr ⟨rfl, rfl⟩)
    · rw [hnone] at hv
      cases hv
  · intro i s p hc hp
    obtain ⟨ev, -, ⟨v, -, hr⟩ | ⟨-, hother, -⟩⟩ := response_of_commits hc
    · rw [hr.next]
      exact signed_afterBallot.mpr (.inl hp)
    · rwa [hother.sameAnswers.signed]

theorem decryptionVoters_nodup (a : DecryptionAnswer) :
    (((decryptionVotes D calls).filter a.Counts).map Ballot.voter).Nodup := by
  have hvotes : ((decryptionVotes D calls).map fun v => (v.topic.decryptionId, v.voter)).Nodup :=
    decryptionVotes_nodup
  have hnd := nodup_of_topic hvotes a.decryptionId
  refine hnd.sublist (List.Sublist.map _ (List.monotone_filter_right _ fun v hv => ?_))
  have hcounts : a.Counts v := by simpa using hv
  simp [hcounts.sameId]

/-- Every ballot of a run was able to vote, with a signature of its digest. -/
theorem responded_of_mem {v : DecryptionBallot} (hv : v ∈ decryptionVotes D calls) :
    D.recover v.topic.digest v.signature = some v.voter ∧
      v.config.kms.AbleToVote (v.sender, v.voter) := by
  obtain ⟨i, past, -, hc, hcast⟩ := mem_votes.mp hv
  obtain ⟨ev, -, ⟨w, hw, hr⟩ | ⟨hnone, -⟩⟩ := response_of_commits hc
  · obtain rfl : v = w := Option.some.inj (hcast.symm.trans hw)
    exact ⟨hr.recovered, hr.able⟩
  · rw [hnone] at hcast
    cases hcast

/-- A ballot that decides completes a quorum of the ballots counted with it. -/
theorem quorum_of_decides {i : GatewayTx × DecryptionCall}
    {past : List (GatewayTx × DecryptionCall)} {v : DecryptionBallot}
    (hc : (decryption D).Commits i (decryptionAfter D past))
    (hv : decryptionVote D i (decryptionAfter D past) = some v)
    (hd : (decryptionAfter D past).Decides v) :
    Quorum (fun config => config.kms.AbleToVote) (v.topic.threshold v.config)
      ((decryptionVotes D (i :: past)).filter v.topic.Counts) where
  met := by
    have hvotes : decryptionVotes D (i :: past) = decryptionVotes D past ++ [v] := by
      unfold decryptionVotes
      rw [votes_cons_of_commits hc, hv]
      rfl
    rw [hvotes, List.filter_append, List.length_append]
    calc v.topic.threshold v.config
        ≤ (decryptionAfter D past).counter v := hd.2
      _ = ((decryptionVotes D past).filter v.topic.Counts).length + 1 := counter_decryptionAfter v
      _ = _ := by simp [DecryptionAnswer.Counts.self v]
  distinct := decryptionVoters_nodup _
  able v hv := (responded_of_mem (List.mem_filter.mp hv).1).2

theorem done_kept {i : GatewayTx × DecryptionCall} {s : DecryptionStorage}
    (hc : (decryption D).Commits i s) (h : s.decryptionDone id = true) :
    ((decryption D).step i s).decryptionDone id = true ∧
      ((decryption D).step i s).decryptionConsensusDigest id = s.decryptionConsensusDigest id := by
  obtain ⟨ev, -, ⟨v, -, hr⟩ | ⟨-, hother, -⟩⟩ := response_of_commits hc
  · rw [hr.next]
    exact ⟨done_afterBallot.mpr (.inl h), doneDigest_afterBallot h⟩
  · rw [hother.sameAnswers.done, hother.sameAnswers.digest]
    exact ⟨h, rfl⟩

theorem kept_decryptionAfter {past : List (GatewayTx × DecryptionCall)} (hsuffix : past <:+ calls)
    (h : (decryptionAfter D past).decryptionDone id = true) :
    (decryptionAfter D calls).decryptionDone id = true ∧
      (decryptionAfter D calls).decryptionConsensusDigest id =
        (decryptionAfter D past).decryptionConsensusDigest id := by
  generalize hdigest : (decryptionAfter D past).decryptionConsensusDigest id = digest
  refine holds_later (P := fun s : DecryptionStorage =>
    s.decryptionDone id = true ∧ s.decryptionConsensusDigest id = digest)
    (fun i s hc hs => ?_) hsuffix ⟨h, hdigest⟩
  obtain ⟨hdone, hkept⟩ := done_kept hc hs.1
  exact ⟨hdone, hkept.trans hs.2⟩

/-- A decryption is declared done by one call of a run. -/
theorem declared_once {i i' : GatewayTx × DecryptionCall}
    {past past' : List (GatewayTx × DecryptionCall)} {a a' : DeclaredDecryption}
    (hran : Ran calls i past) (hran' : Ran calls i' past')
    (h : DeclaresDecryption D i (decryptionAfter D past) a)
    (h' : DeclaresDecryption D i' (decryptionAfter D past') a')
    (hid : a.decryptionId = a'.decryptionId) : i = i' ∧ past = past' ∧ a = a' := by
  have hfresh : ∀ i s, (∃ b, DeclaresDecryption D i s b ∧ b.decryptionId = a.decryptionId) →
      ¬ (s.decryptionDone a.decryptionId = true) ∧
        ((decryption D).step i s).decryptionDone a.decryptionId = true := by
    rintro i s ⟨b, hdeclares, hb⟩
    obtain ⟨hc, v, hv, hd, hby⟩ := declaresDecryption_iff.mp hdeclares
    have htopic : v.topic.decryptionId = a.decryptionId := (declaredBy_id hv hby).symm.trans hb
    obtain ⟨ev, -, ⟨w, hw, hr⟩ | ⟨hnone, -⟩⟩ := response_of_commits hc
    · obtain rfl : v = w := Option.some.inj (hv.symm.trans hw)
      rw [hr.next, done_afterBallot]
      exact ⟨by simp [← htopic, hd.1], .inr ⟨hd, htopic⟩⟩
    · rw [hnone] at hv
      cases hv
  obtain ⟨rfl, rfl⟩ := once (P := fun s : DecryptionStorage =>
    s.decryptionDone a.decryptionId = true) (fun i s hc hs => (done_kept hc hs).1) hfresh hran hran'
    ⟨a, h, rfl⟩ ⟨a', h', hid.symm⟩
  refine ⟨rfl, rfl, ?_⟩
  obtain ⟨-, v, hv, -, hby⟩ := declaresDecryption_iff.mp h
  obtain ⟨-, w, hw, -, hby'⟩ := declaresDecryption_iff.mp h'
  obtain rfl : v = w := Option.some.inj (hv.symm.trans hw)
  exact Option.some.inj (hby.symm.trans hby')

/-! ## What was requested -/

def publicRequest (i : GatewayTx × DecryptionCall) (_ : DecryptionStorage) :
    Option (List Bytes32) :=
  match i.2 with
  | .publicDecryptionRequest ctHandles _ _ => some ctHandles
  | _ => none

def userRequest (i : GatewayTx × DecryptionCall) (_ : DecryptionStorage) :
    Option UserDecryptionPayload :=
  match i.2 with
  | .userDecryptionRequest r _ =>
    some ⟨r.publicKey, r.ctHandleContractPairs.map CtHandleContractPair.ctHandle⟩
  | _ => none

/-- A request for the public decryption of the handles got the id. -/
def PublicRequested (D : GatewayDeployment) (calls : List (GatewayTx × DecryptionCall)) (id : Nat)
    (ctHandles : List Bytes32) : Prop :=
  (decryption D).Issued .init DecryptionStorage.publicDecryptionCounter publicRequest calls id
    ctHandles

/-- A user's request for the handles under the public key got the id. -/
def UserRequested (D : GatewayDeployment) (calls : List (GatewayTx × DecryptionCall)) (id : Nat)
    (payload : UserDecryptionPayload) : Prop :=
  (decryption D).Issued .init DecryptionStorage.userDecryptionCounter userRequest calls id payload

theorem requests_none {i : GatewayTx × DecryptionCall} {s : DecryptionStorage}
    {v : DecryptionBallot} (hv : decryptionVote D i s = some v) :
    publicRequest i s = none ∧ userRequest i s = none := by
  obtain ⟨tx, call⟩ := i
  cases call <;> first | exact ⟨rfl, rfl⟩ | cases hv

theorem publicRequested_iff {ctHandles : List Bytes32} :
    PublicRequested D calls id ctHandles ↔ PUBLIC_DECRYPT_COUNTER_BASE < id ∧
      id ≤ (decryptionAfter D calls).publicDecryptionCounter ∧
        (decryptionAfter D calls).publicCtHandles id = ctHandles := by
  refine Contract.issued_iff rfl ?_ ?_ calls id ctHandles
  · intro i s ctHandles hc hi
    obtain ⟨ev, -, ⟨v, hv, hr⟩ | ⟨-, hother, -⟩⟩ := response_of_commits hc
    · rw [(requests_none hv).1] at hi
      cases hi
    · obtain ⟨tx, call⟩ := i
      cases hother with
      | publicRequest _ _ _ hcall next =>
        cases hcall
        cases hi
        rw [next]
        exact ⟨rfl, rfl⟩
      | userRequest _ _ hcall _ =>
        cases hcall
        cases hi
      | pausing _ hcall _ => rcases hcall with ⟨_, hcall⟩ | hcall <;> cases hcall <;> cases hi
  · intro i s hc hi
    obtain ⟨ev, -, ⟨v, hv, hr⟩ | ⟨-, hother, -⟩⟩ := response_of_commits hc
    · rw [hr.next]
      exact ⟨rfl, rfl⟩
    · cases hother with
      | publicRequest _ _ _ hcall _ => simp [publicRequest, hcall] at hi
      | userRequest _ _ _ next =>
        rw [next]
        exact ⟨rfl, rfl⟩
      | pausing _ _ next =>
        rw [next]
        exact ⟨rfl, rfl⟩

theorem userRequested_iff {payload : UserDecryptionPayload} :
    UserRequested D calls id payload ↔ USER_DECRYPT_COUNTER_BASE < id ∧
      id ≤ (decryptionAfter D calls).userDecryptionCounter ∧
        (decryptionAfter D calls).userDecryptionPayloads id = payload := by
  refine Contract.issued_iff rfl ?_ ?_ calls id payload
  · intro i s payload hc hi
    obtain ⟨ev, -, ⟨v, hv, hr⟩ | ⟨-, hother, -⟩⟩ := response_of_commits hc
    · rw [(requests_none hv).2] at hi
      cases hi
    · obtain ⟨tx, call⟩ := i
      cases hother with
      | publicRequest _ _ _ hcall _ =>
        cases hcall
        cases hi
      | userRequest _ _ hcall next =>
        cases hcall
        cases hi
        rw [next]
        exact ⟨rfl, rfl⟩
      | pausing _ hcall _ => rcases hcall with ⟨_, hcall⟩ | hcall <;> cases hcall <;> cases hi
  · intro i s hc hi
    obtain ⟨ev, -, ⟨v, hv, hr⟩ | ⟨-, hother, -⟩⟩ := response_of_commits hc
    · rw [hr.next]
      exact ⟨rfl, rfl⟩
    · cases hother with
      | publicRequest _ _ _ _ next =>
        rw [next]
        exact ⟨rfl, rfl⟩
      | userRequest _ _ hcall _ => simp [userRequest, hcall] at hi
      | pausing _ _ next =>
        rw [next]
        exact ⟨rfl, rfl⟩

/-- What was requested under an id stays so. -/
theorem UserRequested.later {past : List (GatewayTx × DecryptionCall)}
    {payload : UserDecryptionPayload} (h : UserRequested D past id payload)
    (hsuffix : past <:+ calls) : UserRequested D calls id payload := by
  obtain ⟨i, before, hran, hissued⟩ := h
  exact ⟨i, before, hran.of_suffix hsuffix, hissued⟩

/-- A share that is counted is one for what was requested under its id. -/
theorem userRequested_of_mem {v : DecryptionBallot} {digest : Bytes32}
    (hv : v ∈ decryptionVotes D calls) (ht : v.topic = .userShare id digest) :
    ∃ payload userDecryptedShare extraData, UserRequested D calls id payload ∧
      digest = hashUserDecryptResponseVerification D
        ⟨payload.publicKey, payload.ctHandles, userDecryptedShare, extraData⟩ := by
  obtain ⟨⟨tx, call⟩, past, hran, hc, hcast⟩ := mem_votes.mp hv
  obtain ⟨ev, h⟩ := hc.call_eq
  cases call with
  | userDecryptionResponse id' share signature extraData =>
    obtain ⟨signer, -, rfl⟩ := Option.map_eq_some_iff.mp hcast
    cases ht
    obtain ⟨⟨hbase, hcounter⟩, -⟩ := userDecryptionResponse_ok h
    have hreq : UserRequested D past id ((decryptionAfter D past).userDecryptionPayloads id) :=
      userRequested_iff.mpr ⟨hbase, hcounter, rfl⟩
    exact ⟨_, share, extraData, hreq.later hran.past_suffix, rfl⟩
  | publicDecryptionResponse =>
    obtain ⟨signer, -, rfl⟩ := Option.map_eq_some_iff.mp hcast
    cases ht
  | publicDecryptionRequest => cases hcast
  | userDecryptionRequest => cases hcast
  | pause => cases hcast
  | unpause => cases hcast

/-! ## What is agreed on -/

/-- The signer has an accepted response of the run with its signature of the digest. -/
def Signed (D : GatewayDeployment) (calls : List (GatewayTx × DecryptionCall))
    (answer : DecryptionAnswer) (signer : Address) : Prop :=
  ∃ v ∈ decryptionVotes D calls, v.topic = answer ∧ v.voter = signer ∧
    D.recover answer.digest v.signature = some signer

/-- No result of a public decryption that has an id of the user decryptions, which takes 2^248
requests, is hashed to zero, where the shares of users are counted. -/
def NoZeroDigest (D : GatewayDeployment) (calls : List (GatewayTx × DecryptionCall)) : Prop :=
  ∀ v ∈ decryptionVotes D calls, USER_DECRYPT_COUNTER_BASE < v.topic.decryptionId →
    v.topic.key = 0 → v.topic = .userShare v.topic.decryptionId v.topic.digest

/-- What holds of a decryption after a run. -/
structure DecryptionAgreed (D : GatewayDeployment) (calls : List (GatewayTx × DecryptionCall))
    (id : Nat) : Prop where
  once : ∀ i i' past past' a a', Ran calls i past → Ran calls i' past' →
    DeclaresDecryption D i (decryptionAfter D past) a →
      DeclaresDecryption D i' (decryptionAfter D past') a' →
        a.decryptionId = id → a'.decryptionId = id → i = i' ∧ past = past' ∧ a = a'
  publicRequests : ∀ ctHandles ctHandles', PublicRequested D calls id ctHandles →
    PublicRequested D calls id ctHandles' → ctHandles = ctHandles'
  userRequests : ∀ payload payload', UserRequested D calls id payload →
    UserRequested D calls id payload' → payload = payload'
  publicResult : ∀ i past decryptedResult extraData signatures, Ran calls i past →
    DeclaresDecryption D i (decryptionAfter D past)
      (.publicResult id decryptedResult extraData signatures) →
    ∃ ctHandles, PublicRequested D past id ctHandles ∧
      (decryptionAfter D (i :: past)).decryptionConsensusDigest id =
        hashPublicDecryptVerification D ⟨ctHandles, decryptedResult, extraData⟩ ∧
      ∃ signers : Finset Address, i.1.config.publicDecryptionThreshold ≤ signers.card ∧
        ∀ signer ∈ signers, Signed D (i :: past) (.publicResult id
          (hashPublicDecryptVerification D ⟨ctHandles, decryptedResult, extraData⟩)) signer
  userThreshold : ∀ i past, Ran calls i past →
    DeclaresDecryption D i (decryptionAfter D past) (.userThreshold id) →
    ∃ payload, UserRequested D past id payload ∧
      ∃ signers : Finset Address, i.1.config.userDecryptionThreshold ≤ signers.card ∧
        ∀ signer ∈ signers, ∃ userDecryptedShare extraData, Signed D (i :: past) (.userShare id
          (hashUserDecryptResponseVerification D ⟨payload.publicKey, payload.ctHandles,
            userDecryptedShare, extraData⟩)) signer
  kept : ∀ i past a, Ran calls i past → DeclaresDecryption D i (decryptionAfter D past) a →
    a.decryptionId = id → (decryptionAfter D calls).decryptionConsensusDigest id =
      (decryptionAfter D (i :: past)).decryptionConsensusDigest id

/-- The response that declares a public result is the ballot that decides it. -/
theorem publicBallot_of_declares {i : GatewayTx × DecryptionCall}
    {past : List (GatewayTx × DecryptionCall)} {decryptedResult extraData : Bytes}
    {signatures : List Bytes} (h : DeclaresDecryption D i (decryptionAfter D past)
      (.publicResult id decryptedResult extraData signatures)) :
    ∃ ctHandles v, PublicRequested D past id ctHandles ∧
      (decryption D).Commits i (decryptionAfter D past) ∧
      decryptionVote D i (decryptionAfter D past) = some v ∧
      (decryptionAfter D past).Decides v ∧ v.config = i.1.config ∧
      v.topic = .publicResult id
        (hashPublicDecryptVerification D ⟨ctHandles, decryptedResult, extraData⟩) ∧
      decryptionAfter D (i :: past) = (decryptionAfter D past).afterBallot v ∧
      signatures = (decryptionAfter D (i :: past)).verifiedPublicDecryptSignatures id
        (hashPublicDecryptVerification D ⟨ctHandles, decryptedResult, extraData⟩) := by
  obtain ⟨hc, v, hv, hd, hby⟩ := declaresDecryption_iff.mp h
  have hcommits := hc
  obtain ⟨tx, call⟩ := i
  cases call with
  | publicDecryptionResponse id' result signature extra =>
    cases hby
    obtain ⟨ev, hcall⟩ := hc.call_eq
    obtain ⟨⟨hbase, hcounter⟩, signer, hrecover, hr⟩ := publicDecryptionResponse_ok hcall
    obtain rfl : _ = v := Option.some.inj (by simpa [decryptionVote, hrecover] using hv)
    exact ⟨_, _, publicRequested_iff.mpr ⟨hbase, hcounter, rfl⟩, hcommits, hv, hd, rfl, rfl,
      hr.next, rfl⟩
  | userDecryptionResponse => cases hby
  | publicDecryptionRequest => cases hv
  | userDecryptionRequest => cases hv
  | pause => cases hv
  | unpause => cases hv

theorem publicResult_agreed {i : GatewayTx × DecryptionCall}
    {past : List (GatewayTx × DecryptionCall)} {decryptedResult extraData : Bytes}
    {signatures : List Bytes} (h : DeclaresDecryption D i (decryptionAfter D past)
      (.publicResult id decryptedResult extraData signatures)) :
    ∃ ctHandles, PublicRequested D past id ctHandles ∧
      (decryptionAfter D (i :: past)).decryptionConsensusDigest id =
        hashPublicDecryptVerification D ⟨ctHandles, decryptedResult, extraData⟩ ∧
      ∃ signers : Finset Address, i.1.config.publicDecryptionThreshold ≤ signers.card ∧
        ∀ signer ∈ signers, Signed D (i :: past) (.publicResult id
          (hashPublicDecryptVerification D ⟨ctHandles, decryptedResult, extraData⟩)) signer := by
  obtain ⟨ctHandles, v, hrequested, hc, hv, hd, hconfig, htopic, hnext, -⟩ :=
    publicBallot_of_declares h
  have hquorum := quorum_of_decides hc hv hd
  rw [htopic, hconfig] at hquorum
  refine ⟨ctHandles, hrequested, ?_, _, hquorum.card_voters, ?_⟩
  · rw [hnext]
    unfold DecryptionStorage.afterBallot
    simp only [if_pos hd, htopic, Function.update_self]
  · intro signer hsigner
    obtain ⟨w, hw, rfl⟩ := List.mem_map.mp (List.mem_toFinset.mp hsigner)
    obtain ⟨hmem, hcounts⟩ := List.mem_filter.mp hw
    have htopic : w.topic = .publicResult id _ := of_decide_eq_true hcounts
    refine ⟨w, hmem, htopic, rfl, ?_⟩
    have hrec := (responded_of_mem hmem).1
    rwa [htopic] at hrec

/-- The signatures of a declared result are those of the ballots for it. -/
theorem publicSignatures_of_declares {i : GatewayTx × DecryptionCall}
    {past : List (GatewayTx × DecryptionCall)} {decryptedResult extraData : Bytes}
    {signatures : List Bytes} (h : DeclaresDecryption D i (decryptionAfter D past)
      (.publicResult id decryptedResult extraData signatures)) :
    ∃ ctHandles, PublicRequested D past id ctHandles ∧ ∃ ballots,
      ballots = ((decryptionVotes D (i :: past)).filter fun v => v.topic = .publicResult id
        (hashPublicDecryptVerification D ⟨ctHandles, decryptedResult, extraData⟩)) ∧
      ballots ≠ [] ∧ signatures = ballots.map Ballot.signature ∧
        i.1.config.publicDecryptionThreshold ≤ ballots.length := by
  obtain ⟨ctHandles, v, hrequested, hc, hv, hd, hconfig, htopic, -, rfl⟩ :=
    publicBallot_of_declares h
  have hmem : v ∈ decryptionVotes D (i :: past) := by
    unfold decryptionVotes
    rw [votes_cons_of_commits hc, hv]
    exact List.mem_append_right _ List.mem_cons_self
  have hquorum := quorum_of_decides hc hv hd
  rw [htopic, hconfig] at hquorum
  refine ⟨ctHandles, hrequested, _, rfl, ?_, resultSignatures_decryptionAfter _, hquorum.met⟩
  intro hnil
  exact List.filter_eq_nil_iff.mp hnil _ hmem (decide_eq_true htopic)

/-- The signatures of a result are of the voters of its ballots. -/
theorem signatures_recovered {digest : Bytes32} {ballots : List DecryptionBallot}
    (h : ballots = (decryptionVotes D calls).filter fun v => v.topic = .publicResult id digest) :
    List.Forall₂ (fun signature a => D.recover digest signature = some a)
      (ballots.map Ballot.signature) (ballots.map Ballot.voter) := by
  rw [List.forall₂_map_left_iff, List.forall₂_map_right_iff]
  refine List.forall₂_same.mpr fun v hv => ?_
  obtain ⟨hmem, hcounts⟩ := List.mem_filter.mp (h ▸ hv)
  have htopic : v.topic = .publicResult id digest := of_decide_eq_true hcounts
  have hrec := (responded_of_mem hmem).1
  rwa [htopic] at hrec

theorem userThreshold_agreed {i : GatewayTx × DecryptionCall}
    {past : List (GatewayTx × DecryptionCall)} (hzero : NoZeroDigest D (i :: past))
    (h : DeclaresDecryption D i (decryptionAfter D past) (.userThreshold id)) :
    ∃ payload, UserRequested D past id payload ∧
      ∃ signers : Finset Address, i.1.config.userDecryptionThreshold ≤ signers.card ∧
        ∀ signer ∈ signers, ∃ userDecryptedShare extraData, Signed D (i :: past) (.userShare id
          (hashUserDecryptResponseVerification D ⟨payload.publicKey, payload.ctHandles,
            userDecryptedShare, extraData⟩)) signer := by
  obtain ⟨hc, v, hv, hd, hby⟩ := declaresDecryption_iff.mp h
  have hquorum := quorum_of_decides hc hv hd
  obtain ⟨tx, call⟩ := i
  cases call with
  | userDecryptionResponse id' share signature extra =>
    cases hby
    obtain ⟨ev, hcall⟩ := hc.call_eq
    obtain ⟨⟨hbase, hcounter⟩, signer, hrecover, hr⟩ := userDecryptionResponse_ok hcall
    obtain rfl : _ = v := Option.some.inj (by simpa [decryptionVote, hrecover] using hv)
    have hreq : UserRequested D past id ((decryptionAfter D past).userDecryptionPayloads id) :=
      userRequested_iff.mpr ⟨hbase, hcounter, rfl⟩
    refine ⟨_, hreq, _, hquorum.card_voters, ?_⟩
    intro signer hsigner
    obtain ⟨w, hw, rfl⟩ := List.mem_map.mp (List.mem_toFinset.mp hsigner)
    obtain ⟨hmem, hcounts⟩ := List.mem_filter.mp hw
    obtain ⟨hid, hkey⟩ : w.topic.decryptionId = id ∧ w.topic.key = 0 := of_decide_eq_true hcounts
    -- whatever is counted with a share is a share
    have htopic := hzero w hmem (hid ▸ hbase) hkey
    rw [hid] at htopic
    obtain ⟨payload, share', extra', hreq', hdigest⟩ := userRequested_of_mem hmem htopic
    have hsame : (decryptionAfter D past).userDecryptionPayloads id = payload := by
      have hlater : UserRequested D ((tx, .userDecryptionResponse id share signature extra) :: past)
          id _ := hreq.later (List.suffix_cons _ _)
      exact (userRequested_iff.mp hlater).2.2.symm.trans (userRequested_iff.mp hreq').2.2
    rw [hsame]
    refine ⟨share', extra', w, hmem, hdigest ▸ htopic, rfl, ?_⟩
    have hrec := (responded_of_mem hmem).1
    rwa [hdigest] at hrec
  | publicDecryptionResponse => cases hby
  | publicDecryptionRequest => cases hv
  | userDecryptionRequest => cases hv
  | pause => cases hv
  | unpause => cases hv

theorem done_of_declares {i : GatewayTx × DecryptionCall}
    {past : List (GatewayTx × DecryptionCall)} {a : DeclaredDecryption}
    (h : DeclaresDecryption D i (decryptionAfter D past) a) :
    (decryptionAfter D (i :: past)).decryptionDone a.decryptionId = true := by
  obtain ⟨hc, v, hv, hd, hby⟩ := declaresDecryption_iff.mp h
  obtain ⟨ev, -, ⟨w, hw, hr⟩ | ⟨hnone, -⟩⟩ := response_of_commits hc
  · obtain rfl : v = w := Option.some.inj (hv.symm.trans hw)
    have hnext : decryptionAfter D (i :: past) = (decryptionAfter D past).afterBallot v := hr.next
    rw [hnext]
    exact done_afterBallot.mpr (.inr ⟨hd, (declaredBy_id hv hby).symm⟩)
  · rw [hnone] at hv
    cases hv

end Runs

/-- After every run a decryption was declared done by at most one call, on the signatures of
enough distinct signers over what was requested under its id, and its digest stays. -/
theorem decryptions_agreed (D : GatewayDeployment) (calls : List (GatewayTx × DecryptionCall))
    (hzero : NoZeroDigest D calls) (id : Nat) : DecryptionAgreed D calls id where
  once _ _ _ _ _ _ hran hran' h h' hid hid' := declared_once hran hran' h h' (hid.trans hid'.symm)
  publicRequests _ _ h h' :=
    (publicRequested_iff.mp h).2.2.symm.trans (publicRequested_iff.mp h').2.2
  userRequests _ _ h h' := (userRequested_iff.mp h).2.2.symm.trans (userRequested_iff.mp h').2.2
  publicResult _ _ _ _ _ _ h := publicResult_agreed h
  userThreshold _ _ hran h :=
    userThreshold_agreed (fun v hv => hzero v (votes_subset hran hv)) h
  kept _ _ _ hran h hid := (kept_decryptionAfter hran (hid ▸ done_of_declares h)).2

/-! ## A run -/

/-- A KMS node, and thresholds of one vote. -/
def oneKmsNode : GatewayConfigStorage :=
  { GatewayConfigStorage.emptyProxy 1 with
    kms := Registry.empty.registerAll [⟨30, 40, ""⟩]
    publicDecryptionThreshold := 1
    userDecryptionThreshold := 1 }

/-- Everything is allowed and has its material. -/
def openEnv : RequestEnv where
  acl := { MultichainACLAllows.init with isAllowed := fun _ => true }
  commits := { CiphertextCommitsStorage.init with isCiphertextMaterialAdded := fun _ => true }
  timestamp := 100
  feeCollected := true

/-- A request for the decryption of a boolean, and its result. -/
def samplePublicDecryption : List (GatewayTx × DecryptionCall) :=
  [(⟨30, oneKmsNode⟩, .publicDecryptionResponse (PUBLIC_DECRYPT_COUNTER_BASE + 1) [1] [] []),
    (⟨9, oneKmsNode⟩, .publicDecryptionRequest [1 <<< 16] [] openEnv)]

theorem samplePublicDecryption_agreed :
    (decryptionAfter sampleDeployment samplePublicDecryption).decryptionDone
        (PUBLIC_DECRYPT_COUNTER_BASE + 1) = true ∧
      DecryptionAgreed sampleDeployment samplePublicDecryption (PUBLIC_DECRYPT_COUNTER_BASE + 1) :=
  ⟨by decide +kernel, decryptions_agreed sampleDeployment samplePublicDecryption
    (by unfold NoZeroDigest; decide +kernel) _⟩

end Fhevm.Gateway
