import Fhevm.Foundation.Voting
import Fhevm.Gateway.Decryption

/-!
# Responses to decryption requests

An accepted response of a KMS node is a ballot. What the calls do to the storage is
said once, by what their ballot changes or by what they issue.

## Main definitions

* `DecryptionAnswer`, `decryptionVote` — the ballot of a response.
* `DecryptionStorage.afterBallot` — what it changes.
* `decryption_ok` — what a committed call does.
* `DeclaresDecryption` — a call declares a decryption done.
-/

namespace Fhevm.Gateway

open Foundation Contract Host

/-! ## Ballots -/

/-- What a response says, with the digest that is signed. -/
inductive DecryptionAnswer
  | publicResult (decryptionId : Nat) (digest : Bytes32)
  | userShare (decryptionId : Nat) (digest : Bytes32)
deriving DecidableEq, Repr

namespace DecryptionAnswer

def decryptionId : DecryptionAnswer → Nat
  | .publicResult decryptionId _ => decryptionId
  | .userShare decryptionId _ => decryptionId

def digest : DecryptionAnswer → Bytes32
  | .publicResult _ digest => digest
  | .userShare _ digest => digest

/-- The digest under which the senders of the answer are kept. -/
def key : DecryptionAnswer → Bytes32
  | .publicResult _ digest => digest
  | .userShare _ _ => 0

/-- The threshold that counts the answer. -/
def threshold (config : GatewayConfigStorage) : DecryptionAnswer → Nat
  | .publicResult _ _ => config.publicDecryptionThreshold
  | .userShare _ _ => config.userDecryptionThreshold

end DecryptionAnswer

abbrev DecryptionBallot := Ballot DecryptionAnswer GatewayConfigStorage

/-- The ballot of a response if it is accepted. -/
def decryptionVote (D : GatewayDeployment) (i : GatewayTx × DecryptionCall)
    (s : DecryptionStorage) : Option DecryptionBallot :=
  match i.2 with
  | .publicDecryptionResponse id decryptedResult signature extraData =>
    let digest := s.publicDigest D id decryptedResult extraData
    (D.recover digest signature).map fun signer =>
      ⟨.publicResult id digest, signer, i.1.sender, i.1.config, signature⟩
  | .userDecryptionResponse id userDecryptedShare signature extraData =>
    let digest := s.userDigest D id userDecryptedShare extraData
    (D.recover digest signature).map fun signer =>
      ⟨.userShare id digest, signer, i.1.sender, i.1.config, signature⟩
  | _ => none

namespace DecryptionStorage

variable (s : DecryptionStorage) (v : DecryptionBallot)

/-- The votes counted for the answer, this one included. -/
def counter : Nat :=
  match v.topic with
  | .publicResult id digest => (s.verifiedPublicDecryptSignatures id digest).length + 1
  | .userShare id _ => (s.consensusTxSenderAddresses id 0).length + 1

/-- The ballot is the one that completes its decryption. -/
def Decides : Prop :=
  s.decryptionDone v.topic.decryptionId = false ∧ v.topic.threshold v.config ≤ s.counter v

instance : Decidable (s.Decides v) := inferInstanceAs (Decidable (_ ∧ _))

/-- The storage after an accepted ballot. -/
def afterBallot : DecryptionStorage :=
  { s with
    kmsNodeAlreadySigned := update₂ s.kmsNodeAlreadySigned v.topic.decryptionId v.voter true
    consensusTxSenderAddresses := update₂ s.consensusTxSenderAddresses v.topic.decryptionId
      v.topic.key (s.consensusTxSenderAddresses v.topic.decryptionId v.topic.key ++ [v.sender])
    verifiedPublicDecryptSignatures :=
      match v.topic with
      | .publicResult id digest => update₂ s.verifiedPublicDecryptSignatures id digest
          (s.verifiedPublicDecryptSignatures id digest ++ [v.signature])
      | .userShare _ _ => s.verifiedPublicDecryptSignatures
    decryptionDone :=
      if s.Decides v then Function.update s.decryptionDone v.topic.decryptionId true
      else s.decryptionDone
    decryptionConsensusDigest :=
      match v.topic with
      | .publicResult id digest =>
        if s.Decides v then Function.update s.decryptionConsensusDigest id digest
        else s.decryptionConsensusDigest
      | .userShare _ _ => s.decryptionConsensusDigest }

/-- The storages agree in everything that concerns answers. -/
structure SameAnswers (s s' : DecryptionStorage) : Prop where
  done : s'.decryptionDone = s.decryptionDone
  signed : s'.kmsNodeAlreadySigned = s.kmsNodeAlreadySigned
  senders : s'.consensusTxSenderAddresses = s.consensusTxSenderAddresses
  digest : s'.decryptionConsensusDigest = s.decryptionConsensusDigest
  signatures : s'.verifiedPublicDecryptSignatures = s.verifiedPublicDecryptSignatures

end DecryptionStorage

/-- What an event declares done: a result with its signatures, or a user decryption. -/
inductive DeclaredDecryption
  | publicResult (decryptionId : Nat) (decryptedResult extraData : Bytes) (signatures : List Bytes)
  | userThreshold (decryptionId : Nat)
deriving DecidableEq, Repr

def DeclaredDecryption.decryptionId : DeclaredDecryption → Nat
  | .publicResult decryptionId _ _ _ => decryptionId
  | .userThreshold decryptionId => decryptionId

def DecryptionEvent.declared : DecryptionEvent → Option DeclaredDecryption
  | .publicDecryptionResponse id decryptedResult signatures extraData =>
    some (.publicResult id decryptedResult extraData signatures)
  | .userDecryptionResponseThresholdReached id => some (.userThreshold id)
  | _ => none

/-! ## What a call does -/

section Calls

variable {D : GatewayDeployment} {i : GatewayTx × DecryptionCall} {s s' : DecryptionStorage}
  {ev : List DecryptionEvent}

/-- What a call declares if its ballot decides. -/
def declaredBy (i : GatewayTx × DecryptionCall) (s' : DecryptionStorage)
    (v : DecryptionBallot) : Option DeclaredDecryption :=
  match i.2 with
  | .publicDecryptionResponse id decryptedResult _ extraData =>
    some (.publicResult id decryptedResult extraData
      (s'.verifiedPublicDecryptSignatures id v.topic.digest))
  | .userDecryptionResponse id _ _ _ => some (.userThreshold id)
  | _ => none

/-- What an accepted response does: its voter is the signer of a registered sender, had not
answered, and its ballot is counted. -/
structure Responded (D : GatewayDeployment) (i : GatewayTx × DecryptionCall)
    (s : DecryptionStorage) (ev : List DecryptionEvent) (s' : DecryptionStorage)
    (v : DecryptionBallot) : Prop where
  recovered : D.recover v.topic.digest v.signature = some v.voter
  sender : v.sender = i.1.sender ∧ v.config = i.1.config
  able : v.config.kms.AbleToVote (v.sender, v.voter)
  fresh : s.kmsNodeAlreadySigned v.topic.decryptionId v.voter = false
  next : s' = s.afterBallot v
  declares : ∀ answer, (∃ e ∈ ev, e.declared = some answer) ↔
    s.Decides v ∧ declaredBy i s' v = some answer

theorem validateDecryptionResponse_ok {tx : GatewayTx} {id : Nat} {digest : Bytes32}
    {signature : Bytes} :
    validateDecryptionResponseEIP712Signature D tx id digest signature s = .ok s' ↔
      ∃ signer, D.recover digest signature = some signer ∧
        tx.config.kms.isSigner signer = true ∧
          (tx.config.kms.operators tx.sender).signerAddress = signer ∧
            s.kmsNodeAlreadySigned id signer = false ∧
              s' = { s with
                kmsNodeAlreadySigned := update₂ s.kmsNodeAlreadySigned id signer true } := by
  simp only [validateDecryptionResponseEIP712Signature,
    GatewayConfigChecks.checkKmsSignerMatchesTxSender, bind_eq_ok, mapError_eq_ok, require_eq_ok,
    recoverSigner_eq_ok, exists_const, pure_eq_ok]
  grind

theorem publicDecryptionResponse_ok {id : Nat} {decryptedResult signature extraData : Bytes}
    {tx : GatewayTx}
    (h : publicDecryptionResponse D tx id decryptedResult signature extraData s = .ok (ev, s')) :
    (PUBLIC_DECRYPT_COUNTER_BASE < id ∧ id ≤ s.publicDecryptionCounter) ∧
      ∃ signer, D.recover (s.publicDigest D id decryptedResult extraData) signature = some signer ∧
        Responded D (tx, .publicDecryptionResponse id decryptedResult signature extraData) s ev s'
          ⟨.publicResult id (s.publicDigest D id decryptedResult extraData), signer, tx.sender,
            tx.config, signature⟩ := by
  simp only [publicDecryptionResponse, GatewayConfigChecks.onlyKmsTxSender, bind_eq_ok,
    mapError_eq_ok, require_eq_ok, exists_const, validateDecryptionResponse_ok] at h
  obtain ⟨hsender, hid, _, ⟨signer, hrecover, hsigner, hrecord, hfresh, rfl⟩, h⟩ := h
  generalize hdigest : s.publicDigest D id decryptedResult extraData = digest at hrecover h ⊢
  refine ⟨by omega, signer, hrecover, ?_⟩
  have hdec : s.Decides ⟨.publicResult id digest, signer, tx.sender, tx.config, signature⟩ ↔
      s.decryptionDone id = false ∧ tx.config.publicDecryptionThreshold ≤
        (s.verifiedPublicDecryptSignatures id digest).length + 1 := Iff.rfl
  by_cases hd : s.Decides ⟨.publicResult id digest, signer, tx.sender, tx.config, signature⟩
  · rw [if_pos (by simpa using hdec.mp hd)] at h
    cases h
    refine ⟨hrecover, ⟨rfl, rfl⟩, ⟨hsender, hsigner, hrecord⟩, hfresh, ?_, fun answer => ?_⟩
    · unfold DecryptionStorage.afterBallot
      dsimp only
      rw [if_pos hd, if_pos hd]
      rfl
    · simp [hd, DecryptionEvent.declared, declaredBy, DecryptionAnswer.digest]
  · rw [if_neg (by simpa using mt hdec.mpr hd)] at h
    cases h
    refine ⟨hrecover, ⟨rfl, rfl⟩, ⟨hsender, hsigner, hrecord⟩, hfresh, ?_, fun answer => ?_⟩
    · unfold DecryptionStorage.afterBallot
      dsimp only
      rw [if_neg hd, if_neg hd]
      rfl
    · simp [hd, DecryptionEvent.declared]

theorem userDecryptionResponse_ok {id : Nat} {userDecryptedShare signature extraData : Bytes}
    {tx : GatewayTx}
    (h : userDecryptionResponse D tx id userDecryptedShare signature extraData s = .ok (ev, s')) :
    (USER_DECRYPT_COUNTER_BASE < id ∧ id ≤ s.userDecryptionCounter) ∧
      ∃ signer, D.recover (s.userDigest D id userDecryptedShare extraData) signature = some signer ∧
        Responded D (tx, .userDecryptionResponse id userDecryptedShare signature extraData) s ev s'
          ⟨.userShare id (s.userDigest D id userDecryptedShare extraData), signer, tx.sender,
            tx.config, signature⟩ := by
  simp only [userDecryptionResponse, GatewayConfigChecks.onlyKmsTxSender, bind_eq_ok,
    mapError_eq_ok, require_eq_ok, exists_const, validateDecryptionResponse_ok] at h
  obtain ⟨hsender, hid, _, ⟨signer, hrecover, hsigner, hrecord, hfresh, rfl⟩, h⟩ := h
  generalize hdigest : s.userDigest D id userDecryptedShare extraData = digest at hrecover h ⊢
  refine ⟨by omega, signer, hrecover, ?_⟩
  have hdec : s.Decides ⟨.userShare id digest, signer, tx.sender, tx.config, signature⟩ ↔
      s.decryptionDone id = false ∧ tx.config.userDecryptionThreshold ≤
        (s.consensusTxSenderAddresses id 0).length + 1 := Iff.rfl
  by_cases hd : s.Decides ⟨.userShare id digest, signer, tx.sender, tx.config, signature⟩
  · rw [if_pos (by simpa using hdec.mp hd)] at h
    cases h
    refine ⟨hrecover, ⟨rfl, rfl⟩, ⟨hsender, hsigner, hrecord⟩, hfresh, ?_, fun answer => ?_⟩
    · unfold DecryptionStorage.afterBallot
      dsimp only
      rw [if_pos hd]
      rfl
    · simp [hd, DecryptionEvent.declared, declaredBy]
  · rw [if_neg (by simpa using mt hdec.mpr hd)] at h
    cases h
    refine ⟨hrecover, ⟨rfl, rfl⟩, ⟨hsender, hsigner, hrecord⟩, hfresh, ?_, fun answer => ?_⟩
    · unfold DecryptionStorage.afterBallot
      dsimp only
      rw [if_neg hd]
      rfl
    · simp [hd, DecryptionEvent.declared]

/-- What a call that is no response does: it may issue an id with what is requested. -/
inductive NotResponded (i : GatewayTx × DecryptionCall) (s s' : DecryptionStorage) : Prop
  | publicRequest (ctHandles : List Bytes32) (extraData : Bytes) (env : RequestEnv)
      (call : i.2 = .publicDecryptionRequest ctHandles extraData env)
      (next : s' = s.afterPublicRequest ctHandles)
  | userRequest (r : UserDecryptionRequest) (env : RequestEnv)
      (call : i.2 = .userDecryptionRequest r env) (next : s' = s.afterUserRequest r)
  | pausing (paused : Bool) (call : (∃ isPauser, i.2 = .pause isPauser) ∨ i.2 = .unpause)
      (next : s' = { s with paused := paused })

theorem NotResponded.sameAnswers (h : NotResponded i s s') : s.SameAnswers s' := by
  cases h with
  | publicRequest _ _ _ _ next => exact next ▸ ⟨rfl, rfl, rfl, rfl, rfl⟩
  | userRequest _ _ _ next => exact next ▸ ⟨rfl, rfl, rfl, rfl, rfl⟩
  | pausing _ _ next => exact next ▸ ⟨rfl, rfl, rfl, rfl, rfl⟩

/-- A committed call is an accepted response, or it changes and declares no answer. -/
theorem decryption_ok (h : (decryption D).call i s = .ok (ev, s')) :
    (∃ v, decryptionVote D i s = some v ∧ Responded D i s ev s' v) ∨
      (decryptionVote D i s = none ∧ NotResponded i s s' ∧ ∀ e ∈ ev, e.declared = none) := by
  obtain ⟨tx, call⟩ := i
  cases call with
  | publicDecryptionResponse id decryptedResult signature extraData =>
    obtain ⟨-, signer, hrecover, hresponded⟩ := publicDecryptionResponse_ok h
    exact .inl ⟨_, by simp [decryptionVote, hrecover], hresponded⟩
  | userDecryptionResponse id userDecryptedShare signature extraData =>
    obtain ⟨-, signer, hrecover, hresponded⟩ := userDecryptionResponse_ok h
    exact .inl ⟨_, by simp [decryptionVote, hrecover], hresponded⟩
  | publicDecryptionRequest ctHandles extraData env =>
    obtain ⟨hnext, materials, rfl⟩ := publicDecryptionRequest_ok h
    exact .inr ⟨rfl, .publicRequest _ _ _ rfl hnext, by simp [DecryptionEvent.declared]⟩
  | userDecryptionRequest r env =>
    obtain ⟨-, hnext, materials, rfl⟩ := userDecryptionRequest_ok h
    exact .inr ⟨rfl, .userRequest _ _ rfl hnext, by simp [DecryptionEvent.declared]⟩
  | pause isPauser =>
    simp only [decryption, bind_eq_ok] at h
    obtain ⟨paused, -, h⟩ := h
    cases h
    exact .inr ⟨rfl, .pausing paused (.inl ⟨isPauser, rfl⟩) rfl, by simp [DecryptionEvent.declared]⟩
  | unpause =>
    simp only [decryption, bind_eq_ok] at h
    obtain ⟨paused, -, h⟩ := h
    cases h
    exact .inr ⟨rfl, .pausing paused (.inr rfl) rfl, by simp [DecryptionEvent.declared]⟩

theorem response_of_commits (hc : (decryption D).Commits i s) :
    ∃ ev, (decryption D).call i s = .ok (ev, (decryption D).step i s) ∧
      ((∃ v, decryptionVote D i s = some v ∧
          Responded D i s ev ((decryption D).step i s) v) ∨
        (decryptionVote D i s = none ∧ NotResponded i s ((decryption D).step i s) ∧
          ∀ e ∈ ev, e.declared = none)) := by
  obtain ⟨ev, h⟩ := hc.call_eq
  exact ⟨ev, h, decryption_ok h⟩

/-- The call declares a decryption done. -/
def DeclaresDecryption (D : GatewayDeployment) (i : GatewayTx × DecryptionCall)
    (s : DecryptionStorage) (answer : DeclaredDecryption) : Prop :=
  ∃ ev s', (decryption D).call i s = .ok (ev, s') ∧ ∃ e ∈ ev, e.declared = some answer

theorem declaresDecryption_iff {answer : DeclaredDecryption} :
    DeclaresDecryption D i s answer ↔ (decryption D).Commits i s ∧
      ∃ v, decryptionVote D i s = some v ∧ s.Decides v ∧
        declaredBy i ((decryption D).step i s) v = some answer := by
  constructor
  · rintro ⟨ev, s', h, he⟩
    refine ⟨⟨_, h⟩, ?_⟩
    obtain ⟨v, hv, hr⟩ | ⟨-, -, hnone⟩ := decryption_ok h
    · rw [step_of_ok h]
      exact ⟨v, hv, (hr.declares answer).mp he⟩
    · obtain ⟨e, hmem, he⟩ := he
      rw [hnone e hmem] at he
      cases he
  · rintro ⟨hc, v, hv, hd⟩
    obtain ⟨ev, h, ⟨w, hw, hr⟩ | ⟨hnone, -⟩⟩ := response_of_commits hc
    · obtain rfl : v = w := Option.some.inj (hv.symm.trans hw)
      exact ⟨ev, _, h, (hr.declares answer).mpr hd⟩
    · rw [hnone] at hv
      cases hv

theorem declaredBy_id {v : DecryptionBallot} {answer : DeclaredDecryption}
    (hv : decryptionVote D i s = some v) (h : declaredBy i s' v = some answer) :
    answer.decryptionId = v.topic.decryptionId := by
  obtain ⟨tx, call⟩ := i
  cases call with
  | publicDecryptionResponse =>
    obtain ⟨signer, -, rfl⟩ := Option.map_eq_some_iff.mp hv
    cases h
    rfl
  | userDecryptionResponse =>
    obtain ⟨signer, -, rfl⟩ := Option.map_eq_some_iff.mp hv
    cases h
    rfl
  | publicDecryptionRequest => cases hv
  | userDecryptionRequest => cases hv
  | pause => cases hv
  | unpause => cases hv

end Calls

/-! ## What a ballot changes -/

section Ballots

variable {s : DecryptionStorage} {v : DecryptionBallot} {id : Nat}

theorem resultSignatures_afterBallot {digest : Bytes32} :
    (s.afterBallot v).verifiedPublicDecryptSignatures id digest =
      s.verifiedPublicDecryptSignatures id digest ++
        if v.topic = .publicResult id digest then [v.signature] else [] := by
  unfold DecryptionStorage.afterBallot
  cases ht : v.topic with
  | publicResult id' digest' =>
    by_cases h : id' = id ∧ digest' = digest
    · obtain ⟨rfl, rfl⟩ := h
      simp
    · have h' : ¬ (id = id' ∧ digest = digest') := fun he => h ⟨he.1.symm, he.2.symm⟩
      simp [update₂_apply, h, h']
  | userShare id' digest' => simp

theorem senders_afterBallot {digest : Bytes32} :
    (s.afterBallot v).consensusTxSenderAddresses id digest =
      s.consensusTxSenderAddresses id digest ++
        if v.topic.decryptionId = id ∧ v.topic.key = digest then [v.sender] else [] := by
  unfold DecryptionStorage.afterBallot
  simp only [update₂_apply]
  by_cases h : v.topic.decryptionId = id ∧ v.topic.key = digest
  · obtain ⟨rfl, rfl⟩ := h
    simp
  · have h' : ¬ (id = v.topic.decryptionId ∧ digest = v.topic.key) :=
      fun he => h ⟨he.1.symm, he.2.symm⟩
    simp [h, h']

theorem signed_afterBallot {signer : Address} :
    (s.afterBallot v).kmsNodeAlreadySigned id signer = true ↔
      s.kmsNodeAlreadySigned id signer = true ∨ (v.topic.decryptionId = id ∧ v.voter = signer) := by
  unfold DecryptionStorage.afterBallot
  simp only [update₂_apply]
  grind

theorem done_afterBallot :
    (s.afterBallot v).decryptionDone id = true ↔
      s.decryptionDone id = true ∨ (s.Decides v ∧ v.topic.decryptionId = id) := by
  unfold DecryptionStorage.afterBallot
  by_cases hd : s.Decides v
  · simp only [if_pos hd, Function.update_apply]
    grind
  · simp [hd]

/-- Only a ballot that decides writes the digest of a decryption. -/
theorem doneDigest_afterBallot (h : s.decryptionDone id = true) :
    (s.afterBallot v).decryptionConsensusDigest id = s.decryptionConsensusDigest id := by
  unfold DecryptionStorage.afterBallot
  cases ht : v.topic with
  | publicResult id' digest =>
    by_cases hd : s.Decides v
    · have hne : id ≠ id' := by
        rintro rfl
        have hopen := hd.1
        rw [ht] at hopen
        exact Bool.false_ne_true (hopen.symm.trans h)
      simp [hd, hne]
    · simp [hd]
  | userShare id' digest => rfl

end Ballots

end Fhevm.Gateway
