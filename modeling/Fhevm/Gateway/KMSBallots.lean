import Fhevm.Foundation.Voting
import Fhevm.Gateway.Ballot
import Fhevm.Gateway.KMSConsensus

/-!
# Ballots of KMS nodes on generated material

A response of a KMS node to a generation request is a ballot on a digest. The signer answers a
request once.

## Main definitions

* `kmsVotes` — the accepted responses of a run.
* `kmsVote_cases` — what a committed call does to what ballots are about.
* `kmsVotes_nodup` — a signer answers a request once.
-/

namespace Fhevm.Gateway

open Foundation Contract

variable {E : Eip712} {calls : List (Msg × KMSGenerationCall)}

/-- A ballot on the digest of the response to a request. -/
abbrev KmsBallot := Ballot (Nat × Bytes32) GatewayConfig

/-- The sender is registered with the signer. -/
def GatewayConfig.Enrolled (config : GatewayConfig) (operator : Address × Address) : Prop :=
  config.isKmsTxSender operator.1 = true ∧
    (config.getKmsNode operator.1).signerAddress = operator.2

def kmsVote (E : Eip712) (i : Msg × KMSGenerationCall) (s : KMSGenerationStorage) :
    Option KmsBallot :=
  i.2.response.bind fun (_, id, signature) =>
    (E.recover (i.2.digest E s) signature).map fun signer =>
      ⟨(id, i.2.digest E s), signer, i.1.sender, i.1.config, signature⟩

def kmsVotes (E : Eip712) (calls : List (Msg × KMSGenerationCall)) : List KmsBallot :=
  (kmsGeneration E).votes initializeFromEmptyProxy (kmsVote E) calls

theorem validateEIP712Signature_ok {msg : Msg} {digest : Bytes32} {signature : Bytes}
    {signer : Address} (h : validateEIP712Signature E msg digest signature = .ok signer) :
    E.recover digest signature = some signer ∧
      (msg.config.getKmsNode msg.sender).signerAddress = signer := by
  unfold validateEIP712Signature at h
  cases hrec : E.recover digest signature with
  | none => simp [hrec] at h
  | some signer' =>
    simp only [hrec, bind_eq_ok, require_eq_ok, pure_eq_ok, exists_const] at h
    obtain ⟨-, hown, rfl⟩ := h
    exact ⟨rfl, hown⟩

/-- An accepted ballot is that of a node that has not answered the request, and what it does is
what the response does. -/
structure KmsAccepted (E : Eip712) (s s' : KMSGenerationStorage) (v : KmsBallot) : Prop where
  enrolled : v.config.Enrolled (v.sender, v.voter)
  fresh : s.kmsHasSignedForResponse v.topic.1 v.voter = false
  marks : s'.kmsHasSignedForResponse = Function.update s.kmsHasSignedForResponse v.topic.1
    (Function.update (s.kmsHasSignedForResponse v.topic.1) v.voter true)
  senders : s'.consensusTxSenderAddresses = Function.update s.consensusTxSenderAddresses v.topic.1
    (Function.update (s.consensusTxSenderAddresses v.topic.1) v.topic.2
      (s.consensusTxSenderAddresses v.topic.1 v.topic.2 ++ [v.sender]))
  done : ∀ id, s'.isRequestDone id = true → s.isRequestDone id = false →
    id = v.topic.1 ∧ s'.consensusDigest id = v.topic.2 ∧
      v.config.getKmsGenThreshold ≤ (s'.consensusTxSenderAddresses v.topic.1 v.topic.2).length

@[simp] theorem consensusTxSenders_afterResponse {msg : Msg} {c : KMSGenerationCall} {id : Nat}
    {signer : Address} {s : KMSGenerationStorage} :
    (afterResponse E msg c id signer s).consensusTxSenderAddresses =
      (s.stored id (c.digest E s) signer msg.sender).consensusTxSenderAddresses := by
  unfold afterResponse
  dsimp only
  split_ifs
  · cases c <;> rfl
  · rfl

theorem consensusDigest_afterResponse {msg : Msg} {c : KMSGenerationCall} {id : Nat}
    {signer : Address} {s : KMSGenerationStorage} :
    (afterResponse E msg c id signer s).consensusDigest =
      if reachesConsensus msg id (c.digest E s) (s.stored id (c.digest E s) signer msg.sender)
      then Function.update s.consensusDigest id (c.digest E s) else s.consensusDigest := by
  unfold afterResponse
  dsimp only
  split_ifs
  · cases c <;> rfl
  · rfl

/-- A committed call is an accepted ballot, or it changes nothing that ballots are about. -/
theorem kmsVote_cases {i : Msg × KMSGenerationCall} {s : KMSGenerationStorage}
    (hc : (kmsGeneration E).Commits i s) :
    (∃ v, kmsVote E i s = some v ∧ v.config = i.1.config ∧
      KmsAccepted E s ((kmsGeneration E).step i s) v) ∨
        (kmsVote E i s = none ∧
          ((kmsGeneration E).step i s).kmsHasSignedForResponse = s.kmsHasSignedForResponse ∧
          ((kmsGeneration E).step i s).consensusTxSenderAddresses = s.consensusTxSenderAddresses ∧
          ((kmsGeneration E).step i s).isRequestDone = s.isRequestDone) := by
  obtain ⟨msg, c⟩ := i
  obtain ⟨ev, hcall⟩ := hc.call_eq
  generalize (kmsGeneration E).step (msg, c) s = s' at hcall
  cases committed_of_ok hcall with
  | keygen => exact .inr ⟨rfl, rfl, rfl, rfl⟩
  | crsgenRequest => exact .inr ⟨rfl, rfl, rfl, rfl⟩
  | prssInit => exact .inr ⟨rfl, rfl, rfl, rfl⟩
  | keyReshareSameSet => exact .inr ⟨rfl, rfl, rfl, rfl⟩
  | response c kind id signature signer hresponse hid hsigned =>
    obtain ⟨hsender, hvalid, hfresh⟩ := hsigned
    obtain ⟨hrec, hown⟩ := validateEIP712Signature_ok hvalid
    refine .inl ⟨⟨(id, c.digest E s), signer, msg.sender, msg.config, signature⟩, ?_, rfl,
      ⟨hsender, hown⟩, hfresh, kmsHasSigned_afterResponse, ?_, ?_⟩
    · simp [kmsVote, hresponse, hrec]
    · rw [consensusTxSenders_afterResponse]
      rfl
    · intro id' hdone hnot
      rw [isRequestDone_afterResponse] at hdone
      split_ifs at hdone with hreach
      · simp only [reachesConsensus, isKmsConsensusReached, Bool.and_eq_true,
          decide_eq_true_eq] at hreach
        have hid' : id' = id := by
          by_contra hne
          rw [Function.update_of_ne hne, hnot] at hdone
          cases hdone
        subst hid'
        rw [consensusTxSenders_afterResponse]
        refine ⟨rfl, ?_, hreach.2⟩
        rw [consensusDigest_afterResponse, if_pos]
        · simp
        · simpa [reachesConsensus, isKmsConsensusReached] using hreach
      · rw [hnot] at hdone
        cases hdone

theorem kmsSenders_kmsAfter (E : Eip712) (calls : List (Msg × KMSGenerationCall)) (id : Nat)
    (digest : Bytes32) :
    (kmsAfter E calls).consensusTxSenderAddresses id digest =
      ((kmsVotes E calls).filter fun v => v.topic = (id, digest)).map Ballot.sender := by
  refine @record_eq _ _ _ _ _ _ (kmsGeneration E) initializeFromEmptyProxy (kmsVote E)
    (fun s => s.consensusTxSenderAddresses id digest) (fun v => v.topic = (id, digest)) _
    Ballot.sender rfl (fun i s hc => ?_) calls
  rcases kmsVote_cases hc with ⟨v, hv, -, ha⟩ | ⟨hnone, -, hsame, -⟩
  · rw [hv, ha.senders]
    obtain ⟨⟨id', digest'⟩, voter, sender, config, signature⟩ := v
    by_cases hid : id = id'
    · subst hid
      by_cases hdigest : digest = digest'
      · subst hdigest
        simp
      · simp [hdigest, Ne.symm hdigest]
    · simp [hid, Ne.symm hid]
  · rw [hnone, hsame]
    simp

/-- A signer answers a request once. -/
theorem kmsVotes_nodup : ((kmsVotes E calls).map fun v => (v.topic.1, v.voter)).Nodup := by
  refine @votes_nodup _ _ _ _ _ _ (kmsGeneration E) initializeFromEmptyProxy (kmsVote E)
    (fun v => (v.topic.1, v.voter)) (fun s m => s.kmsHasSignedForResponse m.1 m.2 = true)
    ?_ ?_ calls
  · intro i s v hc hv
    rcases kmsVote_cases hc with ⟨w, hw, -, ha⟩ | ⟨hnone, -⟩
    · obtain rfl : v = w := Option.some.inj (hv.symm.trans hw)
      exact ⟨by simp [ha.fresh], by simp [ha.marks]⟩
    · rw [hnone] at hv
      cases hv
  · rintro i s ⟨id, a⟩ hc hm
    rcases kmsVote_cases hc with ⟨w, -, -, ha⟩ | ⟨-, hsame, -⟩
    · rw [ha.marks]
      by_cases hid : id = w.topic.1
      · subst hid
        by_cases hvoter : a = w.voter
        · simp [hvoter]
        · simpa [hvoter] using hm
      · simpa [hid] using hm
    · rw [hsame]
      exact hm

theorem enrolled_of_kmsVotes {v : KmsBallot} (hv : v ∈ kmsVotes E calls) :
    v.config.Enrolled (v.sender, v.voter) := by
  obtain ⟨i, past, -, hc, hcast⟩ := mem_votes.mp hv
  rcases kmsVote_cases hc with ⟨w, hw, -, ha⟩ | ⟨hnone, -⟩
  · obtain rfl : v = w := Option.some.inj (hcast.symm.trans hw)
    exact ha.enrolled
  · rw [hnone] at hcast
    cases hcast

end Fhevm.Gateway
